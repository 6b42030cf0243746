namespace TypeResolution

/-- The characters after the last dot; `tail` is what they are if no dot follows. -/
def afterLastDot (tail : List Char) : List Char → List Char
  | [] => tail
  | c :: rest => if c = '.' then afterLastDot rest rest else afterLastDot tail rest

/-- The last component of a dotted name. -/
def shortName (fullname : String) : String :=
  String.ofList (afterLastDot fullname.toList fullname.toList)

/-- The characters before the last dot, if there is a dot. -/
def beforeLastDot : List Char → Option (List Char)
  | [] => none
  | c :: rest =>
    match beforeLastDot rest with
    | some front => some (c :: front)
    | none => if c = '.' then some [] else none

/-- All components of a dotted name but the last; a name without a dot has none. -/
def enclosingModule? (fullname : String) : Option String :=
  (beforeLastDot fullname.toList).map String.ofList

/-- Splits at the first dot: the component before it and, if there is a dot, all that follows. -/
def splitAtDot : List Char → List Char × Option (List Char)
  | [] => ([], none)
  | c :: rest =>
    if c = '.' then ([], some rest)
    else ((c :: (splitAtDot rest).1), (splitAtDot rest).2)

/-- The first component of a dotted name and, if there are more, the rest of the name. -/
def splitHead (name : String) : String × Option String :=
  let parts := splitAtDot name.toList
  (String.ofList parts.1, parts.2.map String.ofList)

/-- The components of two dotted names in one. -/
def qualify (outer inner : String) : String := outer ++ "." ++ inner

end TypeResolution
