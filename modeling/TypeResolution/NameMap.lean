namespace TypeResolution

universe u

variable {α : Type u}

/-- The entry named `name` is replaced where it stands; a new name comes last. -/
def insertEntry (name : String) (value : α) : List (String × α) → List (String × α)
  | [] => [(name, value)]
  | (other, old) :: rest =>
    if other = name then (name, value) :: rest else (other, old) :: insertEntry name value rest

theorem insertEntry_names (name : String) (value : α) (entries : List (String × α)) :
    (insertEntry name value entries).map Prod.fst =
      if name ∈ entries.map Prod.fst then entries.map Prod.fst else entries.map Prod.fst ++ [name] := by
  induction entries with
  | nil => simp [insertEntry]
  | cons entry rest ih =>
    obtain ⟨other, old⟩ := entry
    by_cases same : other = name
    · simp [insertEntry, same]
    · have apart : ¬ name = other := fun h => same h.symm
      simp only [insertEntry, if_neg same, List.map_cons, ih, List.mem_cons, apart, false_or]
      split <;> rfl

theorem mem_insertEntry {name : String} {value : α} {entries : List (String × α)} {entry : String × α}
    (member : entry ∈ insertEntry name value entries) : entry = (name, value) ∨ entry ∈ entries := by
  induction entries with
  | nil => exact .inl (List.mem_singleton.1 member)
  | cons first rest ih =>
    by_cases same : first.1 = name
    · rw [insertEntry, if_pos same, List.mem_cons] at member
      exact member.imp_right (List.mem_cons_of_mem first)
    · rw [insertEntry, if_neg same, List.mem_cons] at member
      rcases member with rfl | member
      · exact .inr List.mem_cons_self
      · exact (ih member).imp_right (List.mem_cons_of_mem first)

/-- Entries that stand in a symmetric relation to each other still do with one put in that stands in it to all of them. -/
theorem pairwise_insertEntry {R : String × α → String × α → Prop} (symm : ∀ x y, R x y → R y x) {name : String}
    {value : α} {entries : List (String × α)} (related : entries.Pairwise R)
    (fresh : ∀ entry ∈ entries, R entry (name, value)) : (insertEntry name value entries).Pairwise R := by
  induction entries with
  | nil => exact List.pairwise_singleton R _
  | cons first rest ih =>
    obtain ⟨atFirst, atRest⟩ := List.pairwise_cons.1 related
    have freshRest : ∀ entry ∈ rest, R entry (name, value) := fun entry member => fresh entry (List.mem_cons_of_mem first member)
    by_cases same : first.1 = name
    · rw [insertEntry, if_pos same]
      exact List.pairwise_cons.2 ⟨fun entry member => symm _ _ (freshRest entry member), atRest⟩
    · rw [insertEntry, if_neg same]
      refine List.pairwise_cons.2 ⟨fun entry member => ?_, ih atRest freshRest⟩
      rcases mem_insertEntry member with rfl | member
      · exact fresh first List.mem_cons_self
      · exact atFirst entry member

/-- A finite map from names, in the order in which the names were first given. -/
structure NameMap (α : Type u) where
  entries : List (String × α)
  distinct : (entries.map Prod.fst).Nodup

namespace NameMap

def empty : NameMap α := ⟨[], List.nodup_nil⟩

def find? (m : NameMap α) (name : String) : Option α :=
  (m.entries.find? (·.1 == name)).map Prod.snd

def contains (m : NameMap α) (name : String) : Bool :=
  (m.find? name).isSome

def insert (m : NameMap α) (name : String) (value : α) : NameMap α where
  entries := insertEntry name value m.entries
  distinct := by
    rw [insertEntry_names]
    split
    · exact m.distinct
    · rename_i fresh
      rw [List.nodup_append]
      refine ⟨m.distinct, by simp, ?_⟩
      intro a inOld b isNew
      rw [List.mem_singleton.1 isNew]
      exact fun same => fresh (same ▸ inOld)

def erase (m : NameMap α) (name : String) : NameMap α where
  entries := m.entries.filter (·.1 != name)
  distinct := (List.filter_sublist.map Prod.fst).nodup m.distinct

def ofList (entries : List (String × α)) : NameMap α :=
  entries.foldl (fun m entry => m.insert entry.1 entry.2) empty

def values (m : NameMap α) : List α := m.entries.map Prod.snd

def size (m : NameMap α) : Nat := m.entries.length

theorem find?_insert_self (m : NameMap α) (name : String) (value : α) :
    (m.insert name value).find? name = some value := by
  have found : ∀ entries : List (String × α),
      ((insertEntry name value entries).find? (·.1 == name)).map Prod.snd = some value := by
    intro entries
    induction entries with
    | nil => simp [insertEntry]
    | cons entry rest ih =>
      by_cases same : entry.1 = name
      · simp [insertEntry, same]
      · simpa [insertEntry, same] using ih
  exact found m.entries

theorem find?_insert_other (m : NameMap α) {name other : String} (value : α) (apart : other ≠ name) :
    (m.insert name value).find? other = m.find? other := by
  have found : ∀ entries : List (String × α),
      (insertEntry name value entries).find? (·.1 == other) = entries.find? (·.1 == other) := by
    intro entries
    induction entries with
    | nil => simp [insertEntry, Ne.symm apart]
    | cons entry rest ih =>
      by_cases same : entry.1 = name
      · simp [insertEntry, same, Ne.symm apart]
      · simp [insertEntry, same, List.find?_cons, ih]
  simp only [find?, insert, found]

theorem mem_values_insert {m : NameMap α} {name : String} {value x : α} (member : x ∈ (m.insert name value).values) :
    x = value ∨ x ∈ m.values := by
  obtain ⟨entry, atEntry, rfl⟩ := List.mem_map.1 member
  rcases mem_insertEntry atEntry with rfl | before
  · exact .inl rfl
  · exact .inr (List.mem_map_of_mem before)

theorem pairwise_values_insert {R : α → α → Prop} (symm : ∀ x y, R x y → R y x) {m : NameMap α}
    (related : m.values.Pairwise R) (name : String) {value : α} (fresh : ∀ x ∈ m.values, R x value) :
    (m.insert name value).values.Pairwise R := by
  rw [values, List.pairwise_map] at related ⊢
  exact pairwise_insertEntry (fun _ _ => symm _ _) related fun entry member => fresh _ (List.mem_map_of_mem member)

end NameMap

end TypeResolution
