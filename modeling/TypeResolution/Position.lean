namespace TypeResolution

/-- The place in the source that a type or a diagnostic belongs to. A negative line says that there
is none, a negative column that only the line is known. -/
structure Position where
  line : Int
  column : Int
deriving DecidableEq

namespace Position

/-- The position of a type that no source text wrote. -/
def unknown : Position := ⟨-1, -1⟩

def atLine (line : Int) : Position := ⟨line, -1⟩

def isKnown (p : Position) : Bool := decide (0 ≤ p.line)

def display (p : Position) : String :=
  if p.line < 0 then "<unknown>"
  else if p.column < 0 then toString p.line
  else toString p.line ++ ":" ++ toString p.column

end Position

end TypeResolution
