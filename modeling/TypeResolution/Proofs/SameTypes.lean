import Mathlib.Data.Setoid.Basic
import TypeResolution.Proofs.Equality
import TypeResolution.Proofs.UnionForm

namespace TypeResolution

/-- Types that are equal may stand for one another. -/
instance Ty.equality : Setoid Ty where
  r a b := a.beq b = true
  iseqv := ⟨fun a => EqualitySteps.refl.onType a, fun {a b} => EqualitySteps.symm.onType a b,
    fun {a b c} => EqualitySteps.trans.onType a b c⟩

/-- Each of the first types equals one of the second. -/
def Covers (xs ys : List Ty) : Prop := ∀ x ∈ xs, ∃ y ∈ ys, x ≈ y

/-- The same types stand in both lists, in whatever order and number. -/
structure SameTypes (xs ys : List Ty) : Prop where
  left : Covers xs ys
  right : Covers ys xs

theorem Covers.trans {xs ys zs : List Ty} (first : Covers xs ys) (second : Covers ys zs) : Covers xs zs := by
  intro x member
  obtain ⟨y, atMiddle, equal⟩ := first x member
  obtain ⟨z, atTarget, equal'⟩ := second y atMiddle
  exact ⟨z, atTarget, Setoid.trans equal equal'⟩

theorem Covers.of_subset {xs ys : List Ty} (subset : ∀ x ∈ xs, x ∈ ys) : Covers xs ys :=
  fun x member => ⟨x, subset x member, Setoid.refl x⟩

theorem Covers.append {xs xs' ys ys' : List Ty} (first : Covers xs ys) (second : Covers xs' ys') :
    Covers (xs ++ xs') (ys ++ ys') := by
  intro x member
  rcases List.mem_append.1 member with member | member
  · obtain ⟨y, atTarget, equal⟩ := first x member
    exact ⟨y, List.mem_append_left _ atTarget, equal⟩
  · obtain ⟨y, atTarget, equal⟩ := second x member
    exact ⟨y, List.mem_append_right _ atTarget, equal⟩

/-- Of a list in which no two types are equal, none is covered by a shorter one. -/
theorem Covers.length_le {xs ys : List Ty} (covers : Covers xs ys) (distinct : xs.Pairwise fun a b => (a == b) = false) :
    xs.length ≤ ys.length := by
  induction xs generalizing ys with
  | nil => exact Nat.zero_le _
  | cons x xs ih =>
    obtain ⟨apart, distinct⟩ := List.pairwise_cons.1 distinct
    obtain ⟨y, atTarget, equal⟩ := covers x List.mem_cons_self
    have rest : Covers xs (ys.filter fun z => !(x == z)) := by
      intro x' member
      obtain ⟨z, atTarget', equal'⟩ := covers x' (List.mem_cons_of_mem x member)
      refine ⟨z, List.mem_filter.2 ⟨atTarget', ?_⟩, equal'⟩
      have unequal := apart x' member
      cases same : x == z with
      | false => rfl
      | true =>
        have here : x ≈ x' := Setoid.trans (show x ≈ z from same) (Setoid.symm equal')
        exact absurd (show (x == x') = true from here) (by simp [unequal])
    have shorter : (ys.filter fun z => !(x == z)).length < ys.length := by
      refine List.length_filter_lt_length_iff_exists.2 ⟨y, atTarget, ?_⟩
      have same : (x == y) = true := equal
      simp [same]
    have bound := ih rest distinct
    simp only [List.length_cons]
    omega

namespace SameTypes

theorem refl (xs : List Ty) : SameTypes xs xs := ⟨.of_subset fun _ => id, .of_subset fun _ => id⟩

theorem symm {xs ys : List Ty} (same : SameTypes xs ys) : SameTypes ys xs := ⟨same.right, same.left⟩

theorem trans {xs ys zs : List Ty} (first : SameTypes xs ys) (second : SameTypes ys zs) : SameTypes xs zs :=
  ⟨first.left.trans second.left, second.right.trans first.right⟩

theorem append {xs xs' ys ys' : List Ty} (first : SameTypes xs ys) (second : SameTypes xs' ys') :
    SameTypes (xs ++ xs') (ys ++ ys') := ⟨first.left.append second.left, first.right.append second.right⟩

theorem of_forall₂ {xs ys : List Ty} (related : List.Forall₂ (· ≈ ·) xs ys) : SameTypes xs ys := by
  induction related with
  | nil => exact .refl []
  | @cons x y xs ys here _ ih =>
    have atHead : SameTypes [x] [y] := by
      constructor
      · intro z member
        rw [List.mem_singleton.1 member]
        exact ⟨y, List.mem_singleton_self y, here⟩
      · intro z member
        rw [List.mem_singleton.1 member]
        exact ⟨x, List.mem_singleton_self x, Setoid.symm here⟩
    exact atHead.append ih

/-- What equal types are turned into stands in both lists. -/
theorem flatMap {f g : Ty → List Ty} {xs ys : List Ty} (same : SameTypes xs ys)
    (turned : ∀ x ∈ xs, ∀ y ∈ ys, x ≈ y → SameTypes (f x) (g y)) : SameTypes (xs.flatMap f) (ys.flatMap g) := by
  constructor
  · intro z member
    obtain ⟨x, atSource, member⟩ := List.mem_flatMap.1 member
    obtain ⟨y, atTarget, equal⟩ := same.left x atSource
    obtain ⟨z', atMade, equal'⟩ := (turned x atSource y atTarget equal).left z member
    exact ⟨z', List.mem_flatMap.2 ⟨y, atTarget, atMade⟩, equal'⟩
  · intro z member
    obtain ⟨y, atTarget, member⟩ := List.mem_flatMap.1 member
    obtain ⟨x, atSource, equal⟩ := same.right y atTarget
    obtain ⟨z', atMade, equal'⟩ := (turned x atSource y atTarget (Setoid.symm equal)).right z member
    exact ⟨z', List.mem_flatMap.2 ⟨x, atSource, atMade⟩, equal'⟩

theorem map {f g : Ty → Ty} {xs ys : List Ty} (same : SameTypes xs ys)
    (turned : ∀ x ∈ xs, ∀ y ∈ ys, x ≈ y → f x ≈ g y) : SameTypes (xs.map f) (ys.map g) := by
  simp only [List.map_eq_flatMap]
  exact same.flatMap fun x atSource y atTarget equal => .of_forall₂ (.cons (turned x atSource y atTarget equal) .nil)

theorem flatMap_of_forall₂ {α β : Type} {f : α → List Ty} {g : β → List Ty} {xs : List α} {ys : List β}
    (related : List.Forall₂ (fun x y => SameTypes (f x) (g y)) xs ys) : SameTypes (xs.flatMap f) (ys.flatMap g) := by
  induction related with
  | nil => exact .refl []
  | cons here _ ih =>
    simp only [List.flatMap_cons]
    exact here.append ih

theorem eq_nil {ys : List Ty} (same : SameTypes [] ys) : ys = [] := by
  refine List.eq_nil_iff_forall_not_mem.2 fun y member => ?_
  obtain ⟨x, impossible, _⟩ := same.right y member
  cases impossible

theorem firstOccurrences (xs : List Ty) : SameTypes (firstOccurrences xs) xs := by
  constructor
  · exact .of_subset fun x member => mem_of_mem_firstOccurrences member
  · intro x member
    obtain ⟨k, kept, equal⟩ := kept_of_mem member
    exact ⟨k, kept, Setoid.symm (show k ≈ x from equal)⟩

end SameTypes

namespace Ty

theorem instance_refl (i : Instance) : i.beq i = true := Setoid.refl (Ty.inst i)

theorem record_congr {xs ys : List (String × Ty)} (related : List.Forall₂ (fun x y => x.1 = y.1 ∧ x.2 ≈ y.2) xs ys)
    (required : KeySet) {f g : Instance} (fallback : f.beq g = true) (p q : Position) :
    Ty.record ⟨xs, required, f, p⟩ ≈ .record ⟨ys, required, g, q⟩ := by
  refine Matches.beq (.record related.length_eq (fun x member => ?_) (fun y member => ?_) rfl fallback)
  · obtain ⟨y, atTarget, equal⟩ := forall₂_source related.flip member
    exact ⟨y, atTarget, equal⟩
  · obtain ⟨x, atSource, equal⟩ := forall₂_source related member
    exact ⟨x, atSource, equal⟩

theorem flatUnion_of_not_union {t : Ty} (notUnion : t.isUnion = false) : t.FlatUnion := by
  cases t <;> trivial

theorem flatMap_members_of_not_union {ts : List Ty} (flat : ∀ t ∈ ts, t.isUnion = false) : ts.flatMap members = ts := by
  induction ts with
  | nil => rfl
  | cons t ts ih =>
    rw [List.flatMap_cons, members_of_not_union (flat t List.mem_cons_self),
      ih fun u member => flat u (List.mem_cons_of_mem t member)]
    rfl

/-- The members of a union that is flat are those it is written with. -/
theorem FlatUnion.members_union {ms : List Ty} {pos : Position} (flat : (Ty.union ms pos).FlatUnion) :
    (Ty.union ms pos).members = ms := by
  rw [members, membersOfAll_eq]
  exact flatMap_members_of_not_union flat.flat

theorem isUnion_of_equal {a b : Ty} (equal : a ≈ b) : a.isUnion = b.isUnion := by
  have sameForm := form_of_beq equal
  cases a <;> cases b <;> first | rfl | cases sameForm

/-- Equal types have the same members. -/
theorem members_of_equal {a b : Ty} (equal : a ≈ b) : SameTypes a.members b.members := by
  induction a using inductionOn generalizing b with
  | step a ih =>
    by_cases isUnion : a.isUnion = true
    · cases matches_of_beq equal with
      | union _ within among =>
        simp only [members, membersOfAll_eq]
        refine SameTypes.flatMap ⟨within, fun y member => ?_⟩ fun x atSource y _ equal => ih x atSource equal
        obtain ⟨x, atSource, equal⟩ := among y member
        exact ⟨x, atSource, Setoid.symm (show x ≈ y from equal)⟩
      | _ => cases isUnion
    · have notUnion := Bool.eq_false_iff.2 isUnion
      rw [members_of_not_union notUnion, members_of_not_union ((isUnion_of_equal equal).symm.trans notUnion)]
      exact .of_forall₂ (.cons equal .nil)

theorem makeUnion_flatUnion (ts : List Ty) (pos : Position) : (makeUnion ts pos).FlatUnion := by
  have single (m : Ty) (member : m ∈ firstOccurrences (ts.flatMap members)) : m.isUnion = false := by
    obtain ⟨t, _, atMember⟩ := List.mem_flatMap.1 (mem_of_mem_firstOccurrences member)
    exact not_union_of_mem_members t m atMember
  have apart := firstOccurrences_distinct (ts.flatMap members)
  unfold makeUnion
  split
  · trivial
  · rename_i t atOnce
    exact flatUnion_of_not_union (single t (by simp [atOnce]))
  · rename_i notNil notSingle
    exact ⟨two_le_length notNil notSingle, single, apart⟩

/-- A union is made of the members of the items. -/
theorem members_makeUnion {ts : List Ty} (notEmpty : ts.flatMap members ≠ []) (pos : Position) :
    SameTypes (makeUnion ts pos).members (ts.flatMap members) := by
  have kept := SameTypes.firstOccurrences (ts.flatMap members)
  have flat := makeUnion_flatUnion ts pos
  unfold makeUnion at flat ⊢
  split
  · rename_i none
    rw [none] at kept
    exact absurd kept.eq_nil notEmpty
  · rename_i t atOnce
    rw [atOnce] at kept flat
    obtain ⟨source, _, atMember⟩ := List.mem_flatMap.1
      (mem_of_mem_firstOccurrences (show t ∈ firstOccurrences (ts.flatMap members) by simp [atOnce]))
    rwa [members_of_not_union (not_union_of_mem_members source t atMember)]
  · rename_i several notNil notSingle
    have opened : (Ty.union (firstOccurrences (ts.flatMap members)) pos).members =
        firstOccurrences (ts.flatMap members) := by
      refine FlatUnion.members_union ?_
      split at flat
      · exact absurd ‹_› notNil
      · exact absurd ‹_› (notSingle _)
      · exact flat
    rw [opened]
    exact kept

/-- Unions of the same members are equal. -/
theorem makeUnion_equal {ts us : List Ty} (same : SameTypes (ts.flatMap members) (us.flatMap members))
    (p q : Position) : makeUnion ts p ≈ makeUnion us q := by
  have kept : SameTypes (firstOccurrences (ts.flatMap members)) (firstOccurrences (us.flatMap members)) :=
    (SameTypes.firstOccurrences _).trans (same.trans (SameTypes.firstOccurrences _).symm)
  have sameLength : (firstOccurrences (ts.flatMap members)).length = (firstOccurrences (us.flatMap members)).length :=
    Nat.le_antisymm (kept.left.length_le (firstOccurrences_distinct _)) (kept.right.length_le (firstOccurrences_distinct _))
  unfold makeUnion
  generalize firstOccurrences (ts.flatMap members) = xs, firstOccurrences (us.flatMap members) = ys at kept sameLength
  match xs, ys, sameLength with
  | [], [], _ => exact Matches.never.beq
  | [x], [y], _ =>
    obtain ⟨y', member, equal⟩ := kept.left x (List.mem_singleton_self x)
    rwa [List.mem_singleton.1 member] at equal
  | x :: x' :: xs, y :: y' :: ys, sameLength =>
    refine Matches.beq (.union sameLength kept.left fun z member => ?_)
    obtain ⟨w, atSource, equal⟩ := kept.right z member
    exact ⟨w, atSource, Setoid.symm equal⟩

theorem makeUnion_congr {ts us : List Ty} (related : List.Forall₂ (· ≈ ·) ts us) (p q : Position) :
    makeUnion ts p ≈ makeUnion us q :=
  makeUnion_equal (.flatMap_of_forall₂ (related.imp fun _ _ equal => members_of_equal equal)) p q

/-- A type that is flat is the union of itself. -/
theorem FlatUnion.equal_makeUnion {t : Ty} (flat : t.FlatUnion) (pos : Position) : t ≈ makeUnion [t] pos := by
  have opened : [t].flatMap members = t.members := by simp
  unfold makeUnion
  rw [opened]
  cases t using Ty.unionCases with
  | union ms at_ =>
    have distinct : SameTypes (firstOccurrences ms) ms := SameTypes.firstOccurrences ms
    have sameLength : (firstOccurrences ms).length = ms.length :=
      Nat.le_antisymm (distinct.left.length_le (firstOccurrences_distinct ms)) (distinct.right.length_le flat.distinct)
    have several := flat.several
    rw [flat.members_union]
    generalize firstOccurrences ms = kept at distinct sameLength
    match kept, sameLength with
    | [], sameLength => simp only [List.length_nil] at sameLength; omega
    | [_], sameLength => simp only [List.length_singleton] at sameLength; omega
    | x :: y :: kept, sameLength =>
      refine Matches.beq (.union sameLength.symm distinct.right fun z member => ?_)
      obtain ⟨w, atSource, equal⟩ := distinct.left z member
      exact ⟨w, atSource, Setoid.symm equal⟩
  | other t notUnion =>
    rw [members_of_not_union notUnion]
    exact Setoid.refl t

/-- A union that is flat is the union of its members. -/
theorem FlatUnion.union_equal {ms : List Ty} {pos : Position} (flat : (Ty.union ms pos).FlatUnion) :
    Ty.union ms pos ≈ makeUnion ms pos := by
  refine Setoid.trans (flat.equal_makeUnion pos) (makeUnion_equal ?_ pos pos)
  rw [flatMap_members_of_not_union flat.flat, List.flatMap_singleton, flat.members_union]
  exact .refl ms

/-- Flat types of the same members are equal. -/
theorem FlatUnion.equal_of_members {a b : Ty} (flatA : a.FlatUnion) (flatB : b.FlatUnion) (same : SameTypes a.members b.members) :
    a ≈ b := by
  have united : makeUnion [a] .unknown ≈ makeUnion [b] .unknown := makeUnion_equal (by simpa using same) _ _
  exact Setoid.trans (flatA.equal_makeUnion .unknown) (Setoid.trans united (Setoid.symm (flatB.equal_makeUnion .unknown)))

theorem isNone_iff {t : Ty} : t.isNone = true ↔ ∃ pos, t = .noneType pos := by
  cases t <;> simp [isNone]

theorem makeOptional_of_single {t : Ty} (notUnion : t.isUnion = false) (notNone : t.isNone = false) :
    t.makeOptional = .union [t, .noneType .unknown] t.pos := by
  have apart : (t == .noneType .unknown) = false := by
    cases unequal : t == .noneType .unknown with
    | false => rfl
    | true =>
      cases matches_of_beq unequal
      cases notNone
  have opened : [t, .noneType .unknown].flatMap members = [t, .noneType .unknown] := by
    simp [members_of_not_union notUnion, members]
  have once : TypeResolution.firstOccurrences [t, .noneType .unknown] = [t, .noneType .unknown] := by
    simp [TypeResolution.firstOccurrences, addDistinct, apart]
  unfold makeOptional
  split
  · cases notNone
  · cases notUnion
  · rw [makeUnion, opened, once]

theorem makeOptional_flatUnion (t : Ty) : t.makeOptional.FlatUnion := by
  unfold makeOptional
  split
  · trivial
  · exact makeUnion_flatUnion _ _
  · exact makeUnion_flatUnion _ _

/-- An optional type has the members of the type, and `None`. -/
theorem members_makeOptional (t : Ty) : SameTypes t.makeOptional.members (t.members ++ [.noneType .unknown]) := by
  have atNone (pos pos' : Position) : Ty.noneType pos ≈ .noneType pos' := Matches.noneType.beq
  have single : [Ty.noneType .unknown].flatMap members = [.noneType .unknown] := rfl
  unfold makeOptional
  split
  · rename_i pos
    constructor
    · exact fun x member => ⟨_, List.mem_append_left _ member, Setoid.refl x⟩
    · intro x member
      refine ⟨.noneType pos, List.mem_singleton_self _, ?_⟩
      rcases List.mem_append.1 member with member | member
      · rw [List.mem_singleton.1 member]
      · rw [List.mem_singleton.1 member]
        exact atNone _ _
  · rename_i ms pos
    refine (members_makeUnion (by simp [members]) pos).trans ?_
    rw [List.flatMap_append, single, members, membersOfAll_eq]
    constructor
    · refine (Covers.of_subset fun x member => ?_).append (.of_subset fun _ => id)
      obtain ⟨m, atMember, member⟩ := List.mem_flatMap.1 member
      exact List.mem_flatMap.2 ⟨m, (List.mem_filter.1 atMember).1, member⟩
    · intro x member
      rcases List.mem_append.1 member with member | member
      · obtain ⟨m, atMember, inside⟩ := List.mem_flatMap.1 member
        by_cases isNone : m.isNone = true
        · obtain ⟨at_, rfl⟩ := isNone_iff.1 isNone
          rw [List.mem_singleton.1 inside]
          exact ⟨.noneType .unknown, List.mem_append_right _ (List.mem_singleton_self _), atNone _ _⟩
        · refine ⟨x, List.mem_append_left _ (List.mem_flatMap.2 ⟨m, List.mem_filter.2 ⟨atMember, ?_⟩, inside⟩), Setoid.refl x⟩
          simpa using isNone
      · exact ⟨x, List.mem_append_right _ member, Setoid.refl x⟩
  · rename_i notNone notUnion
    refine (members_makeUnion (by simp [members]) _).trans ?_
    rw [List.flatMap_cons, single]
    exact .refl _

theorem makeOptional_congr {a b : Ty} (equal : a ≈ b) : a.makeOptional ≈ b.makeOptional := by
  refine (makeOptional_flatUnion a).equal_of_members (makeOptional_flatUnion b) ?_
  refine (members_makeOptional a).trans (SameTypes.trans ?_ (members_makeOptional b).symm)
  exact (members_of_equal equal).append (.refl _)

theorem classObject_congr {a b : Ty} (equal : a ≈ b) (p q : Position) : Ty.classObject a p ≈ .classObject b q :=
  Matches.beq (.classObject equal)

theorem makeClassObject_congr {a b : Ty} (equal : a ≈ b) (p q : Position) : a.makeClassObject p ≈ b.makeClassObject q := by
  induction a using inductionOn generalizing b p q with
  | step a ih =>
    by_cases isUnion : a.isUnion = true
    · cases matches_of_beq equal with
      | union _ within among =>
        simp only [makeClassObject, classObjectsOf_eq]
        refine makeUnion_equal ?_ p q
        simp only [List.flatMap_map]
        refine SameTypes.flatMap ⟨within, fun y member => ?_⟩ fun x atSource y _ equal =>
          members_of_equal (ih x atSource equal _ _)
        obtain ⟨x, atSource, equal⟩ := among y member
        exact ⟨x, atSource, Setoid.symm (show x ≈ y from equal)⟩
      | _ => cases isUnion
    · have notUnion := Bool.eq_false_iff.2 isUnion
      rw [makeClassObject_of_not_union notUnion,
        makeClassObject_of_not_union ((isUnion_of_equal equal).symm.trans notUnion)]
      exact classObject_congr equal p q

theorem makeClassObject_flatUnion (t : Ty) (pos : Position) : (t.makeClassObject pos).FlatUnion := by
  cases t using Ty.unionCases with
  | union ms at_ =>
    rw [makeClassObject]
    exact makeUnion_flatUnion _ _
  | other t notUnion =>
    rw [makeClassObject_of_not_union notUnion]
    trivial

/-- The class object of a flat union has the class objects of its members. -/
theorem FlatUnion.members_makeClassObject {t : Ty} (flat : t.FlatUnion) (pos : Position) :
    SameTypes (t.makeClassObject pos).members (t.members.map (Ty.classObject · .unknown)) := by
  cases t using Ty.unionCases with
  | union ms at_ =>
    have made : ms.map (makeClassObject · .unknown) = ms.map (Ty.classObject · .unknown) :=
      List.map_congr_left fun m member => makeClassObject_of_not_union (flat.flat m member) _
    have opened : (ms.map (Ty.classObject · .unknown)).flatMap members = ms.map (Ty.classObject · .unknown) := by
      refine flatMap_members_of_not_union fun t member => ?_
      obtain ⟨m, _, rfl⟩ := List.mem_map.1 member
      rfl
    rw [makeClassObject, classObjectsOf_eq, made, flat.members_union]
    have notEmpty : (ms.map (Ty.classObject · .unknown)).flatMap members ≠ [] := by
      rw [opened]
      intro none
      have several := flat.several
      rw [List.map_eq_nil_iff.1 none] at several
      exact absurd several (by decide)
    have same := members_makeUnion notEmpty pos
    rwa [opened] at same
  | other t notUnion =>
    rw [makeClassObject_of_not_union notUnion, members_of_not_union notUnion]
    exact .of_forall₂ (.cons (classObject_congr (Setoid.refl t) _ _) .nil)

end Ty

end TypeResolution
