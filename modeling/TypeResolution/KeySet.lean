namespace TypeResolution

/-- Places `key` among sorted keys, unless it is there already. -/
def insertKey (key : String) : List String → List String
  | [] => [key]
  | other :: rest =>
    if key < other then key :: other :: rest
    else if key = other then other :: rest
    else other :: insertKey key rest

theorem mem_insertKey {key x : String} {keys : List String} :
    x ∈ insertKey key keys ↔ x = key ∨ x ∈ keys := by
  induction keys with
  | nil => simp [insertKey]
  | cons other rest ih =>
    simp only [insertKey]
    split
    · simp
    · split
      · rename_i same
        simp [same]
      · simp only [List.mem_cons, ih]
        grind

theorem insertKey_sorted {key : String} {keys : List String} (sorted : keys.Pairwise (· < ·)) :
    (insertKey key keys).Pairwise (· < ·) := by
  induction keys with
  | nil => simp [insertKey]
  | cons other rest ih =>
    have above := List.pairwise_cons.1 sorted
    simp only [insertKey]
    split
    · rename_i below
      refine List.pairwise_cons.2 ⟨?_, sorted⟩
      intro x member
      rcases List.mem_cons.1 member with rfl | member
      · exact below
      · exact String.lt_trans below (above.1 x member)
    · split
      · exact sorted
      · rename_i notBelow apart
        refine List.pairwise_cons.2 ⟨?_, ih above.2⟩
        intro x member
        rcases mem_insertKey.1 member with rfl | member
        · rcases Classical.em (other < x) with below | notAbove
          · exact below
          · exact absurd (String.le_antisymm (String.not_lt.1 notAbove) (String.not_lt.1 notBelow)) apart
        · exact above.1 x member

/-- A finite set of names, kept in the order of their code points. -/
structure KeySet where
  keys : List String
  sorted : keys.Pairwise (· < ·)
deriving DecidableEq

namespace KeySet

def empty : KeySet := ⟨[], .nil⟩

def insert (s : KeySet) (key : String) : KeySet := ⟨insertKey key s.keys, insertKey_sorted s.sorted⟩

def ofList (keys : List String) : KeySet := keys.foldl insert empty

def contains (s : KeySet) (key : String) : Bool := s.keys.contains key

end KeySet

end TypeResolution
