namespace TypeResolution

universe u

variable {α : Type u} [BEq α]

/-- Adds `x` at the end, unless an equal element is there. -/
def addDistinct (kept : List α) (x : α) : List α := if kept.any (· == x) then kept else kept ++ [x]

/-- The first of any equal elements, in order. -/
def firstOccurrences (xs : List α) : List α := xs.foldl addDistinct []

end TypeResolution
