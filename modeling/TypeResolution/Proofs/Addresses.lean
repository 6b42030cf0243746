import TypeResolution.Ty.Children

namespace TypeResolution

namespace Ty

/-- The type that is reached from a type by going down, each time to the child with the next number of the address. In
the lexicographic order of their addresses, types come before their children and are read from left to right. -/
def at? (t : Ty) : List Nat → Option Ty
  | [] => some t
  | i :: address => t.children[i]?.bind (at? · address)

/-- The types that are passed on the way down to an address, which are the type itself and those below it, but not the
one at the end. -/
inductive OnTheWay : Ty → List Nat → Ty → Prop
  | here {t : Ty} {i : Nat} {address : List Nat} : OnTheWay t (i :: address) t
  | child {t c x : Ty} {i : Nat} {address : List Nat} : t.children[i]? = some c → OnTheWay c address x →
      OnTheWay t (i :: address) x

variable {t c x : Ty} {i : Nat} {address : List Nat}

theorem at?_cons_eq_some_iff :
    t.at? (i :: address) = some x ↔ ∃ c, t.children[i]? = some c ∧ c.at? address = some x := by
  rw [at?, Option.bind_eq_some_iff]

theorem onTheWay_cons_iff (atChild : t.children[i]? = some c) :
    OnTheWay t (i :: address) x ↔ x = t ∨ OnTheWay c address x := by
  constructor
  · intro way
    cases way with
    | here => exact .inl rfl
    | child atChild' way =>
      obtain rfl := Option.some.inj (atChild.symm.trans atChild')
      exact .inr way
  · rintro (rfl | way)
    · exact .here
    · exact .child atChild way

end Ty

section Numbered

variable {α : Type}

/-- The entries of some lists, with the number of the list put before the address of each. -/
def numbered (lists : List (List (List Nat × α))) : List (List Nat × α) :=
  lists.zipIdx.flatMap fun (entries, i) => entries.map fun entry => (i :: entry.1, entry.2)

variable {lists : List (List (List Nat × α))}

theorem mem_numbered {address : List Nat} {x : α} :
    (address, x) ∈ numbered lists ↔
      ∃ i below entries, address = i :: below ∧ lists[i]? = some entries ∧ (below, x) ∈ entries := by
  simp only [numbered, List.mem_flatMap, List.mem_map, Prod.exists, List.mem_zipIdx_iff_getElem?, Prod.mk.injEq]
  constructor
  · rintro ⟨entries, i, atList, below, x, member, rfl, rfl⟩
    exact ⟨i, below, entries, rfl, atList, member⟩
  · rintro ⟨i, below, entries, rfl, atList, member⟩
    exact ⟨entries, i, atList, below, x, member, rfl, rfl⟩

theorem map_snd_numbered (lists : List (List (List Nat × α))) :
    (numbered lists).map Prod.snd = lists.flatMap (List.map Prod.snd) := by
  have perList : (numbered lists).map Prod.snd = lists.zipIdx.flatMap fun entry => entry.1.map Prod.snd := by
    simp only [numbered, List.map_flatMap, List.map_map, Function.comp_def]
  rw [perList, ← List.flatMap_map Prod.fst, List.zipIdx_map_fst]

/-- Lists of entries that are in order, by their addresses, are put together in order. -/
theorem numbered_pairwise {R : List Nat → List Nat → Prop} (within : ∀ i a b, R a b → R (i :: a) (i :: b))
    (across : ∀ i j a b, i < j → R (i :: a) (j :: b))
    (ordered : ∀ entries ∈ lists, entries.Pairwise fun a b => R a.1 b.1) :
    (numbered lists).Pairwise fun a b => R a.1 b.1 := by
  rw [numbered, List.pairwise_flatMap]
  constructor
  · rintro ⟨entries, i⟩ member
    rw [List.pairwise_map]
    exact (ordered entries (List.fst_mem_of_mem_zipIdx member)).imp fun related => within i _ _ related
  · have increasing : (lists.zipIdx.map Prod.snd).Pairwise (· < ·) := by
      rw [List.zipIdx_map_snd]
      exact List.pairwise_lt_range'
    refine (List.pairwise_map.1 increasing).imp fun less a atFirst b atNext => ?_
    obtain ⟨_, _, rfl⟩ := List.mem_map.1 atFirst
    obtain ⟨_, _, rfl⟩ := List.mem_map.1 atNext
    exact across _ _ _ _ less

/-- Entries in the order of their addresses stay in that order. -/
theorem numbered_sorted (sorted : ∀ entries ∈ lists, entries.Pairwise fun a b => a.1 < b.1) :
    (numbered lists).Pairwise fun a b => a.1 < b.1 :=
  numbered_pairwise (fun _ _ _ less => List.cons_lt_cons_self.2 less) (fun _ _ _ _ less => List.Lex.rel less) sorted

theorem nil_not_mem_numbered {x : α} : ([], x) ∉ numbered lists := by
  intro member
  obtain ⟨_, _, _, impossible, _⟩ := mem_numbered.1 member
  cases impossible

theorem cons_mem_numbered {i : Nat} {address : List Nat} {x : α} :
    (i :: address, x) ∈ numbered lists ↔ ∃ entries, lists[i]? = some entries ∧ (address, x) ∈ entries := by
  rw [mem_numbered]
  constructor
  · rintro ⟨_, _, entries, same, atList, member⟩
    obtain ⟨rfl, rfl⟩ := List.cons.inj same
    exact ⟨entries, atList, member⟩
  · rintro ⟨entries, atList, member⟩
    exact ⟨i, address, entries, rfl, atList, member⟩

end Numbered

namespace Ty

variable {α : Type} {here : Ty → Option α} {closes : Ty → Bool}

/-- What is found in a type, with the addresses, where nothing is looked for below types that are closed. -/
def listed (here : Ty → Option α) (closes : Ty → Bool) : Ty → List (List Nat × α) :=
  fold fun t parts => (here t).toList.map ([], ·) ++ if closes t then [] else numbered parts

theorem listed_eq (t : Ty) :
    t.listed here closes = (here t).toList.map ([], ·) ++
      if closes t then [] else numbered (t.children.map (listed here closes)) :=
  fold_eq _ t

/-- What is found at an address is listed if no type on the way there is closed. -/
theorem mem_listed {t : Ty} {address : List Nat} {a : α} :
    (address, a) ∈ t.listed here closes ↔
      (∃ x, t.at? address = some x ∧ here x = some a) ∧ ∀ x, OnTheWay t address x → closes x = false := by
  induction t using inductionOn generalizing address with
  | step t ih =>
    rw [listed_eq, List.mem_append]
    cases address with
    | nil =>
      have notBelow : ([], a) ∉ if closes t then [] else numbered (t.children.map (listed here closes)) := by
        split
        · exact List.not_mem_nil
        · exact nil_not_mem_numbered
      have noWay (x : Ty) : ¬ OnTheWay t [] x := nofun
      simp [at?, noWay, notBelow]
    | cons i address =>
      have notHere : (i :: address, a) ∉ (here t).toList.map (([] : List Nat), ·) := by simp
      rw [or_iff_right notHere]
      constructor
      · intro member
        split at member
        · cases member
        · rename_i opened
          obtain ⟨_, atPart, member⟩ := cons_mem_numbered.1 member
          rw [List.getElem?_map] at atPart
          obtain ⟨c, atChild, rfl⟩ := Option.map_eq_some_iff.1 atPart
          obtain ⟨⟨x, atX, found⟩, reached⟩ := (ih c (List.mem_of_getElem? atChild)).1 member
          refine ⟨⟨x, at?_cons_eq_some_iff.2 ⟨c, atChild, atX⟩, found⟩, fun y way => ?_⟩
          rcases (onTheWay_cons_iff atChild).1 way with rfl | way
          · exact Bool.not_eq_true _ ▸ opened
          · exact reached y way
      · rintro ⟨⟨x, atX, found⟩, reached⟩
        obtain ⟨c, atChild, atX⟩ := at?_cons_eq_some_iff.1 atX
        have below : (address, a) ∈ c.listed here closes :=
          (ih c (List.mem_of_getElem? atChild)).2 ⟨⟨x, atX, found⟩, fun y way => reached y (.child atChild way)⟩
        rw [reached t .here, if_neg Bool.false_ne_true]
        exact cons_mem_numbered.2 ⟨_, by rw [List.getElem?_map, atChild, Option.map_some], below⟩

/-- The list is in the order of the addresses. -/
theorem listed_sorted (t : Ty) : (t.listed here closes).Pairwise fun a b => a.1 < b.1 := by
  induction t using inductionOn with
  | step t ih =>
    have below : (if closes t then [] else numbered (t.children.map (listed here closes))).Pairwise
        fun a b => a.1 < b.1 := by
      split
      · exact .nil
      · refine numbered_sorted fun entries member => ?_
        obtain ⟨c, atChild, rfl⟩ := List.mem_map.1 member
        exact ih c atChild
    rw [listed_eq, List.pairwise_append]
    refine ⟨?_, below, fun a atHere b atBelow => ?_⟩
    · cases here t <;> simp
    · obtain ⟨_, _, rfl⟩ := List.mem_map.1 atHere
      split at atBelow
      · cases atBelow
      · obtain ⟨i, rest, _, same, _⟩ := mem_numbered.1 atBelow
        rw [same]
        exact List.nil_lt_cons i rest

theorem map_snd_listed (t : Ty) :
    (t.listed here closes).map Prod.snd = (here t).toList ++
      if closes t then [] else t.children.flatMap fun c => (c.listed here closes).map Prod.snd := by
  have found : ((here t).toList.map (([] : List Nat), ·)).map Prod.snd = (here t).toList := by
    cases here t <;> rfl
  rw [listed_eq, List.map_append, found]
  split
  · rfl
  · rw [map_snd_numbered, List.flatMap_map]

end Ty

end TypeResolution
