namespace TypeResolution

/-- A number as it was written. Only numbers without sign, fraction and exponent have a natural value. -/
structure JsonNumber where
  natural? : Option Nat
deriving DecidableEq

/-- A JSON value. A string has no text if its escapes leave half of a surrogate pair alone. -/
inductive Json where
  | null
  | bool (b : Bool)
  | number (n : JsonNumber)
  | string (text : Option String)
  | array (items : List Json)
  | object (members : List (Option String × Json))

namespace Json

def isBlank (c : Char) : Bool := c = ' ' || c = '\n' || c = '\t' || c = '\r'

def skipBlanks (cs : List Char) : List Char := cs.dropWhile isBlank

/-- What a string literal is made of: characters and code units given by number. -/
inductive Piece where
  | char (c : Char)
  | unit (n : Nat)

def hexDigit? (c : Char) : Option Nat :=
  if '0' ≤ c && c ≤ '9' then some (c.toNat - '0'.toNat)
  else if 'a' ≤ c && c ≤ 'f' then some (c.toNat - 'a'.toNat + 10)
  else if 'A' ≤ c && c ≤ 'F' then some (c.toNat - 'A'.toNat + 10)
  else none

def hexUnit? (a b c d : Char) : Option Nat := do
  let a ← hexDigit? a
  let b ← hexDigit? b
  let c ← hexDigit? c
  let d ← hexDigit? d
  pure (((a * 16 + b) * 16 + c) * 16 + d)

/-- The character that a backslash and `c` stand for. -/
def escaped? : Char → Option Char
  | '"' => some '"'
  | '\\' => some '\\'
  | '/' => some '/'
  | 'b' => some '\x08'
  | 'f' => some '\x0c'
  | 'n' => some '\n'
  | 'r' => some '\r'
  | 't' => some '\t'
  | _ => none

/-- The pieces of a string up to its closing quote, and what follows the quote. -/
def pieces? : List Char → Option (List Piece × List Char)
  | [] => none
  | '"' :: rest => some ([], rest)
  | '\\' :: 'u' :: a :: b :: c :: d :: rest =>
    match hexUnit? a b c d, pieces? rest with
    | some n, some (more, rest) => some (.unit n :: more, rest)
    | _, _ => none
  | '\\' :: c :: rest =>
    match escaped? c, pieces? rest with
    | some c, some (more, rest) => some (.char c :: more, rest)
    | _, _ => none
  | c :: rest =>
    if c = '\\' || c.toNat < 32 then none
    else (pieces? rest).map fun (more, rest) => (.char c :: more, rest)

def isHighSurrogate (n : Nat) : Bool := 0xD800 ≤ n && n < 0xDC00

def isLowSurrogate (n : Nat) : Bool := 0xDC00 ≤ n && n < 0xE000

/-- Two units that form a surrogate pair are one character; a surrogate by itself is none. -/
def assemble? : List Piece → Option (List Char)
  | [] => some []
  | .char c :: rest => (assemble? rest).map (c :: ·)
  | .unit high :: .unit low :: rest =>
    if isHighSurrogate high && isLowSurrogate low then
      (assemble? rest).map (Char.ofNat (0x10000 + (high - 0xD800) * 0x400 + (low - 0xDC00)) :: ·)
    else if isHighSurrogate high || isLowSurrogate high then none
    else (assemble? (.unit low :: rest)).map (Char.ofNat high :: ·)
  | .unit n :: rest =>
    if isHighSurrogate n || isLowSurrogate n then none else (assemble? rest).map (Char.ofNat n :: ·)

/-- Reads a string after its opening quote. -/
def text? (cs : List Char) : Option (Option String × List Char) :=
  (pieces? cs).map fun (pieces, rest) => ((assemble? pieces).map String.ofList, rest)

def splitDigits (cs : List Char) : List Char × List Char :=
  (cs.takeWhile (·.isDigit), cs.dropWhile (·.isDigit))

def naturalOf (digits : List Char) : Nat := digits.foldl (fun n c => n * 10 + (c.toNat - '0'.toNat)) 0

/-- At least one digit. -/
def someDigits? (cs : List Char) : Option (List Char × List Char) :=
  match splitDigits cs with
  | ([], _) => none
  | found => some found

/-- The digits before point and exponent: a zero by itself, or a number that starts with no zero. -/
def wholePart? (cs : List Char) : Option (List Char × List Char) :=
  match someDigits? cs with
  | some ('0' :: _ :: _, _) => none
  | found => found

def skipExponent? : List Char → Option (List Char)
  | '+' :: rest | '-' :: rest => (someDigits? rest).map (·.2)
  | rest => (someDigits? rest).map (·.2)

/-- Skips fraction and exponent, and tells whether there was one. -/
def skipTail? : List Char → Option (Bool × List Char)
  | '.' :: rest =>
    match someDigits? rest with
    | some (_, 'e' :: rest) | some (_, 'E' :: rest) => (skipExponent? rest).map fun rest => (true, rest)
    | some (_, rest) => some (true, rest)
    | none => none
  | 'e' :: rest | 'E' :: rest => (skipExponent? rest).map fun rest => (true, rest)
  | rest => some (false, rest)

def number? (negative : Bool) (cs : List Char) : Option (Json × List Char) := do
  let (whole, rest) ← wholePart? cs
  let (inexact, rest) ← skipTail? rest
  pure (.number ⟨if negative || inexact then none else some (naturalOf whole)⟩, rest)

mutual
/-- Reads the value at the front, after blanks. The first argument bounds the nesting. -/
def value? : Nat → List Char → Option (Json × List Char)
  | 0, _ => none
  | depth + 1, cs =>
    match skipBlanks cs with
    | 'n' :: 'u' :: 'l' :: 'l' :: rest => some (.null, rest)
    | 't' :: 'r' :: 'u' :: 'e' :: rest => some (.bool true, rest)
    | 'f' :: 'a' :: 'l' :: 's' :: 'e' :: rest => some (.bool false, rest)
    | '"' :: rest => (text? rest).map fun (text, rest) => (.string text, rest)
    | '[' :: rest =>
      match skipBlanks rest with
      | ']' :: rest => some (.array [], rest)
      | rest => (items? depth rest).map fun (items, rest) => (.array items, rest)
    | '\x7b' :: rest =>
      match skipBlanks rest with
      | '\x7d' :: rest => some (.object [], rest)
      | rest => (members? depth rest).map fun (members, rest) => (.object members, rest)
    | '-' :: rest => number? true rest
    | rest => number? false rest

/-- Reads the items of an array that has some, and its closing bracket. -/
def items? : Nat → List Char → Option (List Json × List Char)
  | 0, _ => none
  | depth + 1, cs => do
    let (item, rest) ← value? depth cs
    match skipBlanks rest with
    | ',' :: rest => (items? depth rest).map fun (items, rest) => (item :: items, rest)
    | ']' :: rest => some ([item], rest)
    | _ => none

/-- Reads the members of an object that has some, and its closing brace. -/
def members? : Nat → List Char → Option (List (Option String × Json) × List Char)
  | 0, _ => none
  | depth + 1, cs => do
    let (name, rest) ← match skipBlanks cs with
      | '"' :: rest => text? rest
      | _ => none
    let (value, rest) ← match skipBlanks rest with
      | ':' :: rest => value? depth rest
      | _ => none
    match skipBlanks rest with
    | ',' :: rest => (members? depth rest).map fun (members, rest) => ((name, value) :: members, rest)
    | '\x7d' :: rest => some ([(name, value)], rest)
    | _ => none
end

/-- Reads a text that holds one value and nothing else but blanks. The length of the text bounds the
nesting: every item has a bracket or comma of its own. -/
def parse? (text : String) : Option Json :=
  match value? (text.toList.length + 1) text.toList with
  | some (value, rest) => if (skipBlanks rest).isEmpty then some value else none
  | none => none

end Json

end TypeResolution
