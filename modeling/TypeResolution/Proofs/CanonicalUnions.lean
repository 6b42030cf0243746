import Mathlib.Data.List.Induction
import TypeResolution.Proofs.SameTypes

namespace TypeResolution

/-- The elements before which no equal one stands, in order. -/
def freshElements {α : Type} [BEq α] (xs : List α) : List α :=
  (xs.zipIdx.filter fun (x, i) => (xs.take i).all fun y => !(y == x)).map Prod.fst

section FirstOccurrences

variable {α : Type} [BEq α]

theorem freshElements_append_singleton (xs : List α) (x : α) :
    freshElements (xs ++ [x]) = freshElements xs ++ if xs.any (· == x) then [] else [x] := by
  have earlier : (xs.zipIdx.filter fun (y, i) => ((xs ++ [x]).take i).all fun z => !(z == y)) =
      xs.zipIdx.filter fun (y, i) => (xs.take i).all fun z => !(z == y) := by
    refine List.filter_congr fun (y, i) member => ?_
    have within : i < xs.length := (List.mem_zipIdx' member).1
    simp only [List.take_append_of_le_length within.le]
  unfold freshElements
  rw [List.zipIdx_append, List.filter_append, earlier, List.map_append]
  congr 1
  by_cases there : xs.any (· == x) = true
  · simp_all
  · simp_all

theorem firstOccurrences_append_singleton (xs : List α) (x : α) :
    firstOccurrences (xs ++ [x]) = addDistinct (firstOccurrences xs) x := by
  simp [firstOccurrences]

variable [EquivBEq α]

theorem any_firstOccurrences (xs : List α) (x : α) : (firstOccurrences xs).any (· == x) = xs.any (· == x) := by
  rw [Bool.eq_iff_iff, List.any_eq_true, List.any_eq_true]
  constructor
  · rintro ⟨y, kept, equal⟩
    exact ⟨y, mem_of_mem_firstOccurrences kept, equal⟩
  · rintro ⟨y, member, equal⟩
    obtain ⟨k, kept, same⟩ := kept_of_mem member
    exact ⟨k, kept, BEq.trans same equal⟩

/-- The elements that are kept one by one are those that no equal one comes before. -/
theorem firstOccurrences_eq (xs : List α) : firstOccurrences xs = freshElements xs := by
  induction xs using List.reverseRecOn with
  | nil => rfl
  | append_singleton xs x ih =>
    -- an element equals one of those that were kept as soon as it equals one of those before
    rw [firstOccurrences_append_singleton, freshElements_append_singleton, ← ih, addDistinct, any_firstOccurrences]
    split
    · exact (List.append_nil _).symm
    · rfl

theorem firstOccurrences_of_equal {x : α} {xs : List α} (equal : ∀ y ∈ xs, (x == y) = true) :
    firstOccurrences (x :: xs) = [x] := by
  induction xs using List.reverseRecOn with
  | nil => rfl
  | append_singleton xs y ih =>
    have before := ih fun z member => equal z (List.mem_append_left _ member)
    have there : (firstOccurrences (x :: xs)).any (· == y) = true := by
      simp [before, equal y (by simp)]
    rw [← List.cons_append, firstOccurrences_eq, freshElements_append_singleton, ← firstOccurrences_eq,
      ← any_firstOccurrences, if_pos there, before]
    rfl

/-- Of elements two of which are not equal, several are kept. -/
theorem firstOccurrences_several {xs : List α} {x y : α} (first : x ∈ xs) (second : y ∈ xs)
    (unequal : (x == y) = false) : 2 ≤ (firstOccurrences xs).length := by
  obtain ⟨k, kept, same⟩ := kept_of_mem first
  obtain ⟨k', kept', same'⟩ := kept_of_mem second
  refine two_le_length (fun none => ?_) fun z single => ?_
  · rw [none] at kept
    cases kept
  · rw [single, List.mem_singleton] at kept kept'
    subst kept kept'
    have equal : (x == y) = true := BEq.trans (BEq.symm same) same'
    rw [equal] at unequal
    cases unequal

end FirstOccurrences

namespace Ty

theorem makeUnion_of_nil {ts : List Ty} (none : ts.flatMap members = []) (pos : Position) :
    makeUnion ts pos = .never false pos := by
  rw [makeUnion, none]
  rfl

theorem makeUnion_of_equal {ts : List Ty} {t : Ty} (first : (ts.flatMap members).head? = some t)
    (equal : ∀ u ∈ ts.flatMap members, (t == u) = true) (pos : Position) : makeUnion ts pos = t := by
  obtain ⟨us, opened⟩ := List.head?_eq_some_iff.1 first
  rw [opened] at equal
  rw [makeUnion, opened, firstOccurrences_of_equal fun u member => equal u (List.mem_cons_of_mem t member)]

theorem makeUnion_of_unequal {ts : List Ty} {t u : Ty} (first : t ∈ ts.flatMap members)
    (second : u ∈ ts.flatMap members) (unequal : (t == u) = false) (pos : Position) :
    makeUnion ts pos = .union (freshElements (ts.flatMap members)) pos ∧
      UnionForm (freshElements (ts.flatMap members)) := by
  have several := firstOccurrences_several first second unequal
  have made : makeUnion ts pos = .union (firstOccurrences (ts.flatMap members)) pos := by
    unfold makeUnion
    split
    · rename_i none
      simp [none] at several
    · rename_i single
      simp [single] at several
    · rfl
  rw [← firstOccurrences_eq]
  refine ⟨made, several, fun m member => ?_, firstOccurrences_distinct _⟩
  obtain ⟨t, _, atMember⟩ := List.mem_flatMap.1 (mem_of_mem_firstOccurrences member)
  exact not_union_of_mem_members t m atMember

/-- What a union is made of may be put together to a union before. -/
theorem makeUnion_grouped (before ts after : List Ty) (notEmpty : ts.flatMap members ≠ []) (p q r : Position) :
    makeUnion (before ++ makeUnion ts r :: after) p ≈ makeUnion (before ++ ts ++ after) q := by
  refine makeUnion_equal ?_ p q
  have opened := members_makeUnion notEmpty r
  simp only [List.flatMap_append, List.flatMap_cons, List.append_assoc]
  exact (SameTypes.refl _).append (opened.append (.refl _))

/-- A union is made of the set of the members of its items: it is their first occurrences, without a union around one or
none, and neither the order of the items nor repetitions nor unions among them make a difference. -/
theorem makeUnion_canonical (xs ys : List Ty) (p q : Position) :
    (xs.flatMap members = [] → makeUnion xs p = .never false p) ∧
    (∀ t, (xs.flatMap members).head? = some t → (∀ u ∈ xs.flatMap members, (t == u) = true) → makeUnion xs p = t) ∧
    ((∃ t ∈ xs.flatMap members, ∃ u ∈ xs.flatMap members, (t == u) = false) →
      makeUnion xs p = .union (freshElements (xs.flatMap members)) p ∧
        (∀ m ∈ freshElements (xs.flatMap members), m.isUnion = false) ∧
        (freshElements (xs.flatMap members)).Pairwise fun a b => (a == b) = false) ∧
    ((∀ x ∈ xs.flatMap members, ∃ y ∈ ys.flatMap members, (x == y) = true) →
      (∀ y ∈ ys.flatMap members, ∃ x ∈ xs.flatMap members, (y == x) = true) →
        (makeUnion xs p == makeUnion ys q) = true) ∧
    ((∀ t, t ∈ xs ↔ t ∈ ys) → (makeUnion xs p == makeUnion ys q) = true) ∧
    (∀ before after r, makeUnion (before ++ .union xs r :: after) p = makeUnion (before ++ xs ++ after) p ∧
      (xs.flatMap members ≠ [] →
        (makeUnion (before ++ makeUnion xs r :: after) p == makeUnion (before ++ xs ++ after) q) = true)) := by
  refine ⟨fun none => makeUnion_of_nil none p, fun t first equal => makeUnion_of_equal first equal p, ?_, ?_, ?_, ?_⟩
  · rintro ⟨t, first, u, second, unequal⟩
    obtain ⟨made, form⟩ := makeUnion_of_unequal first second unequal p
    exact ⟨made, form.flat, form.distinct⟩
  · exact fun left right => makeUnion_equal ⟨left, right⟩ p q
  · intro same
    refine makeUnion_equal (SameTypes.flatMap ⟨?_, ?_⟩ fun x _ y _ equal => members_of_equal equal) p q
    · exact .of_subset fun t member => (same t).1 member
    · exact .of_subset fun t member => (same t).2 member
  · intro before after r
    refine ⟨?_, fun notEmpty => makeUnion_grouped before xs after notEmpty p q r⟩
    simp only [makeUnion, List.flatMap_append, List.flatMap_cons, members, membersOfAll_eq, List.append_assoc]

/-- `None`, and a union of `int`, of nothing and of another `None`. -/
def nestedItems : List Ty :=
  [.noneType ⟨3, 0⟩, .union [.named (.of "int" []), .union [] .unknown, .noneType .unknown] .unknown]

theorem makeUnion_canonical_nested :
    makeUnion nestedItems .unknown = .union [.noneType ⟨3, 0⟩, .named (.of "int" [])] .unknown ∧
    (makeUnion nestedItems .unknown == makeUnion [.named (.of "int" []), .noneType .unknown] ⟨3, 0⟩) = true := by
  obtain ⟨_, _, several, sets, _⟩ :=
    makeUnion_canonical nestedItems [.named (.of "int" []), .noneType .unknown] .unknown ⟨3, 0⟩
  exact ⟨(several (by decide)).1, sets (by decide) (by decide)⟩

end Ty

end TypeResolution
