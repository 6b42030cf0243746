import TypeResolution.Proofs.SameTypes

namespace TypeResolution

namespace Ty

/-- The first type is a union, and a member of the second one, or of a union among its members, and so on. -/
inductive UnionWithin : Ty → Ty → Prop
  | member {us ms : List Ty} {p q : Position} : .union us p ∈ ms → UnionWithin (.union us p) (.union ms q)
  | inside {u m : Ty} {ms : List Ty} {q : Position} : UnionWithin u m → m ∈ ms → UnionWithin u (.union ms q)

/-- No empty union stands among the members of a type, at whatever depth. -/
def NoneEmptyWithin (t : Ty) : Prop := ∀ pos, ¬ UnionWithin (.union [] pos) t

theorem NoneEmptyWithin.member {ms : List Ty} {pos : Position} (full : (Ty.union ms pos).NoneEmptyWithin) {m : Ty}
    (member : m ∈ ms) : m.NoneEmptyWithin :=
  fun at_ empty => full at_ (.inside empty member)

/-- Only an empty union has no members, if none stands inside. -/
theorem NoneEmptyWithin.members_ne_nil {t : Ty} (full : t.NoneEmptyWithin) (notEmpty : ∀ pos, t ≠ .union [] pos) :
    t.members ≠ [] := by
  induction t using inductionOn with
  | step t ih =>
    cases t using Ty.unionCases with
    | union ms pos =>
      cases ms with
      | nil => exact absurd rfl (notEmpty pos)
      | cons m ms =>
        have atHead : m ∈ m :: ms := List.mem_cons_self
        have opened : m.members ≠ [] := by
          refine ih m atHead (full.member atHead) ?_
          rintro at_ rfl
          exact full at_ (.member atHead)
        rw [members, membersOfAll_eq, List.flatMap_cons]
        exact List.append_ne_nil_of_left_ne_nil opened _
    | other t notUnion =>
      rw [members_of_not_union notUnion]
      exact List.cons_ne_nil t []

theorem flatMap_members_classObjects (ts : List Ty) (pos : Position) :
    (ts.map (Ty.classObject · pos)).flatMap members = ts.map (Ty.classObject · pos) := by
  refine flatMap_members_of_not_union fun u member => ?_
  obtain ⟨t, _, rfl⟩ := List.mem_map.1 member
  rfl

/-- The class objects of the members are made one by one, and so are those of the members of a member. -/
theorem members_makeClassObject {t : Ty} (full : t.NoneEmptyWithin) (notEmpty : t.members ≠ []) (pos at_ : Position) :
    SameTypes (t.makeClassObject pos).members (t.members.map (Ty.classObject · at_)) := by
  induction t using inductionOn generalizing pos with
  | step t ih =>
    cases t using Ty.unionCases with
    | union ms p =>
      have each (m : Ty) (member : m ∈ ms) :
          SameTypes (m.makeClassObject .unknown).members (m.members.map (Ty.classObject · at_)) := by
        refine ih m member (full.member member) ((full.member member).members_ne_nil ?_) .unknown
        rintro q rfl
        exact full q (.member member)
      have opened : SameTypes ((ms.map (makeClassObject · .unknown)).flatMap members)
          ((Ty.union ms p).members.map (Ty.classObject · at_)) := by
        rw [members, membersOfAll_eq, List.flatMap_map, List.map_flatMap]
        exact .flatMap_of_forall₂ (List.forall₂_same.2 each)
      have some : (ms.map (makeClassObject · .unknown)).flatMap members ≠ [] := by
        intro none
        rw [none] at opened
        exact notEmpty (List.map_eq_nil_iff.1 opened.eq_nil)
      rw [makeClassObject, classObjectsOf_eq]
      exact (members_makeUnion some pos).trans opened
    | other t notUnion =>
      rw [makeClassObject_of_not_union notUnion, members_of_not_union notUnion]
      exact .of_forall₂ (.cons (classObject_congr (Setoid.refl t) pos at_) .nil)

/-- A member of a union that is made is a member of an item, unless there is none at all. -/
theorem mem_members_makeUnion {ts : List Ty} {pos : Position} {m : Ty} (member : m ∈ (makeUnion ts pos).members) :
    m ∈ ts.flatMap members ∨ m = .never false pos := by
  have kept {u : Ty} (first : u ∈ firstOccurrences (ts.flatMap members)) : u ∈ ts.flatMap members :=
    mem_of_mem_firstOccurrences first
  have flat := makeUnion_flatUnion ts pos
  unfold makeUnion at member flat
  split at member
  · exact .inr (List.mem_singleton.1 member)
  · rename_i u once
    have first : u ∈ ts.flatMap members := kept (by simp [once])
    obtain ⟨t, _, atMember⟩ := List.mem_flatMap.1 first
    rw [members_of_not_union (not_union_of_mem_members t u atMember), List.mem_singleton] at member
    exact .inl (member ▸ first)
  · rename_i notNil notSingle
    split at flat
    · exact absurd ‹_› notNil
    · exact absurd ‹_› (notSingle _)
    · rw [flat.members_union] at member
      exact .inl (kept member)

/-- Whatever union it is made of, a class object that is made is that of one of the members. -/
theorem item_of_mem_makeClassObject {t item : Ty} {pos at_ : Position}
    (member : .classObject item at_ ∈ (t.makeClassObject pos).members) : item ∈ t.members := by
  induction t using inductionOn generalizing pos with
  | step t ih =>
    cases t using Ty.unionCases with
    | union ms p =>
      rw [makeClassObject, classObjectsOf_eq] at member
      rcases mem_members_makeUnion member with member | impossible
      · obtain ⟨made, atMade, member⟩ := List.mem_flatMap.1 member
        obtain ⟨m, atMember, rfl⟩ := List.mem_map.1 atMade
        rw [members, membersOfAll_eq]
        exact List.mem_flatMap.2 ⟨m, atMember, ih m atMember member⟩
      · cases impossible
    | other t notUnion =>
      rw [makeClassObject_of_not_union notUnion, members, List.mem_singleton] at member
      cases member
      · rw [members_of_not_union notUnion]
        exact List.mem_singleton_self item
      · intro ms q impossible
        cases impossible

/-- The class object of a type is the union of the class objects of its members, however deep these stand, if no union
among them is empty. None of them is the class object of a union, and of equal types equal class objects are made. -/
theorem makeClassObject_distributes (t : Ty) (pos : Position) :
    ((∀ at_, ¬ UnionWithin (.union [] at_) t) → ∀ at_,
      (t.makeClassObject pos == makeUnion (t.members.map (Ty.classObject · at_)) pos) = true) ∧
    (∀ item at_, .classObject item at_ ∈ (t.makeClassObject pos).members → item ∈ t.members ∧ item.isUnion = false) ∧
    (∀ u at_, (t == u) = true → (t.makeClassObject pos == u.makeClassObject at_) = true) := by
  refine ⟨fun full at_ => ?_, fun item at_ member => ?_, fun u at_ equal => makeClassObject_congr equal pos at_⟩
  · by_cases empty : ∃ p, t = .union [] p
    · obtain ⟨p, rfl⟩ := empty
      exact Setoid.refl (Ty.never false pos)
    · have notEmpty : t.members ≠ [] :=
        NoneEmptyWithin.members_ne_nil full fun p none => empty ⟨p, none⟩
      refine (makeClassObject_flatUnion t pos).equal_of_members (makeUnion_flatUnion _ pos) ?_
      have some : (t.members.map (Ty.classObject · at_)).flatMap members ≠ [] := by
        rw [flatMap_members_classObjects]
        exact fun none => notEmpty (List.map_eq_nil_iff.1 none)
      have united := members_makeUnion some pos
      rw [flatMap_members_classObjects] at united
      exact (members_makeClassObject full notEmpty pos at_).trans united.symm
  · have atMember := item_of_mem_makeClassObject member
    exact ⟨atMember, not_union_of_mem_members t item atMember⟩

/-- A union of `int` and of a union of `int` and `None`. -/
def unionWithin : Ty :=
  .union [.named (.of "int" []), .union [.named (.of "int" []), .noneType .unknown] .unknown] .unknown

theorem makeClassObject_distributes_within :
    (unionWithin.makeClassObject .unknown == .union [.classObject (.named (.of "int" [])) .unknown,
      .classObject (.noneType .unknown) .unknown] .unknown) = true := by
  have full (at_ : Position) : ¬ UnionWithin (.union [] at_) unionWithin := by
    intro empty
    cases empty with
    | member member => simp [Reference.of] at member
    | inside empty member =>
      simp only [List.mem_cons, List.not_mem_nil, or_false] at member
      rcases member with rfl | rfl
      · cases empty
      · cases empty with
        | member member => simp at member
        | inside empty member =>
          simp only [List.mem_cons, List.not_mem_nil, or_false] at member
          rcases member with rfl | rfl <;> cases empty
  exact (makeClassObject_distributes unionWithin .unknown).1 full .unknown

/-- An empty union inside of another one becomes a member, and so the class object of the whole is another one. -/
example : ((Ty.union [.noneType .unknown, .union [] .unknown] .unknown).makeClassObject .unknown ==
    .classObject (.noneType .unknown) .unknown) = false := by
  decide

end Ty

end TypeResolution
