namespace TypeResolution

/-- Replaces every occurrence of `pattern`, found from the left and without overlap. The counter says
how many of the next characters belong to an occurrence that was already replaced. -/
def replaceAll (pattern replacement : List Char) : Nat → List Char → List Char
  | _, [] => []
  | passed + 1, _ :: rest => replaceAll pattern replacement passed rest
  | 0, c :: rest =>
    if pattern.isPrefixOf (c :: rest) then
      replacement ++ replaceAll pattern replacement (pattern.length - 1) rest
    else c :: replaceAll pattern replacement 0 rest

/-- Whether `needle` occurs somewhere in the characters; the empty needle always does. -/
def occursIn (needle : List Char) : List Char → Bool
  | [] => needle.isEmpty
  | c :: rest => needle.isPrefixOf (c :: rest) || occursIn needle rest

namespace Template

/-- The mark in a template that argument number `i` takes the place of. -/
def hole (i : Nat) : String := "\x7b" ++ toString i ++ "\x7d"

/-- Fills the holes from number `i` on, one after the other. A hole that comes into the text with an
argument is filled as well, if its number is still to come. -/
def fillFrom (i : Nat) : List String → String → String
  | [], text => text
  | arg :: args, text =>
    fillFrom (i + 1) args (String.ofList (replaceAll (hole i).toList arg.toList 0 text.toList))

/-- The text of `template` with its holes filled by the arguments in order. -/
def fill (template : String) (args : List String) : String := fillFrom 0 args template

end Template

end TypeResolution
