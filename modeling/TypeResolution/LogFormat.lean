namespace TypeResolution

/-- How a log is written. -/
inductive LogFormat where
  | text
  | tree
  | json
deriving DecidableEq

/-- The characters that Unicode lists as white space. -/
def isWhiteSpace (c : Char) : Bool :=
  let n := c.toNat
  9 ≤ n && n ≤ 13 || n == 0x20 || n == 0x85 || n == 0xA0 || n == 0x1680 || 0x2000 ≤ n && n ≤ 0x200A ||
    n == 0x2028 || n == 0x2029 || n == 0x202F || n == 0x205F || n == 0x3000

def trimWhiteSpace (cs : List Char) : List Char :=
  ((cs.dropWhile isWhiteSpace).reverse.dropWhile isWhiteSpace).reverse

namespace LogFormat

def name : LogFormat → String
  | text => "text"
  | tree => "tree"
  | json => "json"

/-- The format that a setting asks for, with white space and case left out of account. Anything unknown
asks for plain text. Only letters of ASCII become letters of these names in lower case. -/
def parse (setting : String) : LogFormat :=
  let word := String.ofList ((trimWhiteSpace setting.toList).map Char.toLower)
  if word = tree.name then tree
  else if word = json.name then json
  else text

end LogFormat

end TypeResolution
