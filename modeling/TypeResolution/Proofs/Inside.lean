import TypeResolution.Alias

namespace TypeResolution

namespace Ty

/-- The types that are reached from a type through children, itself included. -/
inductive Inside (x : Ty) : Ty → Prop
  | here : Inside x x
  | child {t c : Ty} : c ∈ t.children → Inside x c → Inside x t

/-- `P` holds of a type and of every type inside it. -/
def Everywhere (P : Ty → Prop) (t : Ty) : Prop := ∀ x, Inside x t → P x

variable {P Q : Ty → Prop} {t : Ty}

theorem everywhere_iff : t.Everywhere P ↔ P t ∧ ∀ c ∈ t.children, c.Everywhere P := by
  constructor
  · intro all
    exact ⟨all t .here, fun c member x reached => all x (.child member reached)⟩
  · rintro ⟨atRoot, below⟩ x reached
    cases reached with
    | here => exact atRoot
    | child member reached => exact below _ member x reached

theorem Everywhere.root (all : t.Everywhere P) : P t := all t .here

theorem Everywhere.child (all : t.Everywhere P) {c : Ty} (member : c ∈ t.children) : c.Everywhere P :=
  (everywhere_iff.1 all).2 c member

theorem Everywhere.of_inside (all : t.Everywhere P) {x : Ty} (reached : Inside x t) : x.Everywhere P := by
  induction reached with
  | here => exact all
  | child member _ ih => exact ih (all.child member)

theorem Everywhere.imp (all : t.Everywhere P) (weaken : ∀ x, P x → Q x) : t.Everywhere Q :=
  fun x reached => weaken x (all x reached)

theorem everywhere_of_leaf (leaf : t.children = []) (atRoot : P t) : t.Everywhere P :=
  everywhere_iff.2 ⟨atRoot, by simp [leaf]⟩

instance [DecidablePred P] (t : Ty) : Decidable (t.Everywhere P) :=
  decidable_of_iff (t.fold (fun t parts => decide (P t) && parts.all id) = true) <| by
    induction t using inductionOn with
    | step t ih =>
      simp only [fold_eq _ t, everywhere_iff (t := t), Bool.and_eq_true, decide_eq_true_eq, List.all_eq_true, List.mem_map]
      refine and_congr_right fun _ => ⟨fun all c member => ?_, ?_⟩
      · exact (ih c member).1 (all _ ⟨c, member, rfl⟩)
      · rintro all _ ⟨c, member, rfl⟩
        exact (ih c member).2 (all c member)

/-! The members of unions -/

/-- A type is a union, or it is none. -/
theorem unionCases {motive : Ty → Prop} (union : ∀ ms pos, motive (.union ms pos))
    (other : ∀ t : Ty, t.isUnion = false → motive t) (t : Ty) : motive t := by
  cases t with
  | union ms pos => exact union ms pos
  | _ => exact other _ rfl

theorem members_of_not_union (notUnion : t.isUnion = false) : t.members = [t] := by
  cases t <;> first | rfl | cases notUnion

theorem not_union_of_mem_members (t : Ty) : ∀ m ∈ t.members, m.isUnion = false := by
  induction t using inductionOn with
  | step t ih =>
    cases t with
    | union ms pos =>
      intro m member
      rw [members, membersOfAll_eq] at member
      obtain ⟨c, atChild, member⟩ := List.mem_flatMap.1 member
      exact ih c atChild m member
    | _ =>
      intro m member
      rw [members_of_not_union rfl] at member
      rw [List.mem_singleton.1 member]
      rfl

theorem inside_of_mem_members (t : Ty) : ∀ m ∈ t.members, Inside m t := by
  induction t using inductionOn with
  | step t ih =>
    cases t with
    | union ms pos =>
      intro m member
      rw [members, membersOfAll_eq] at member
      obtain ⟨c, atChild, member⟩ := List.mem_flatMap.1 member
      exact .child atChild (ih c atChild m member)
    | _ =>
      intro m member
      rw [members_of_not_union rfl] at member
      rw [List.mem_singleton.1 member]
      exact .here

end Ty

section Distinct

variable {α : Type} [BEq α]

theorem mem_addDistinct {kept : List α} {x y : α} (member : y ∈ addDistinct kept x) : y ∈ kept ∨ y = x := by
  unfold addDistinct at member
  split at member
  · exact .inl member
  · simpa using member

theorem mem_foldl_addDistinct {xs kept : List α} {y : α} (member : y ∈ xs.foldl addDistinct kept) :
    y ∈ kept ∨ y ∈ xs := by
  induction xs generalizing kept with
  | nil => exact .inl member
  | cons x xs ih =>
    rcases ih member with member | member
    · rcases mem_addDistinct member with member | rfl
      · exact .inl member
      · exact .inr List.mem_cons_self
    · exact .inr (List.mem_cons_of_mem x member)

theorem mem_of_mem_firstOccurrences {xs : List α} {y : α} (member : y ∈ firstOccurrences xs) : y ∈ xs := by
  rcases mem_foldl_addDistinct member with member | member
  · cases member
  · exact member

theorem foldl_addDistinct_distinct {xs kept : List α} (distinct : kept.Pairwise fun a b => (a == b) = false) :
    (xs.foldl addDistinct kept).Pairwise fun a b => (a == b) = false := by
  induction xs generalizing kept with
  | nil => exact distinct
  | cons x xs ih =>
    refine ih ?_
    unfold addDistinct
    split
    · exact distinct
    · rename_i fresh
      refine List.pairwise_append.2 ⟨distinct, List.pairwise_singleton _ _, ?_⟩
      intro a atKept b atLast
      rw [List.mem_singleton.1 atLast]
      simp only [List.any_eq_true, not_exists, not_and, Bool.not_eq_true] at fresh
      exact fresh a atKept

/-- No element comes after one that it equals. -/
theorem firstOccurrences_distinct (xs : List α) :
    (firstOccurrences xs).Pairwise fun a b => (a == b) = false :=
  foldl_addDistinct_distinct .nil

theorem foldl_addDistinct_of_distinct {xs kept : List α} (distinct : (kept ++ xs).Pairwise fun a b => (a == b) = false) :
    xs.foldl addDistinct kept = kept ++ xs := by
  induction xs generalizing kept with
  | nil => exact (List.append_nil kept).symm
  | cons x xs ih =>
    have fresh : kept.any (· == x) = false := List.any_eq_false.2 fun k atKept => by
      simp [(List.pairwise_append.1 distinct).2.2 k atKept x List.mem_cons_self]
    have added : addDistinct kept x = kept ++ [x] := by simp [addDistinct, fresh]
    rw [List.append_cons] at distinct ⊢
    rw [List.foldl_cons, added, ih distinct]

/-- Elements that are distinct are all kept. -/
theorem firstOccurrences_of_distinct {xs : List α} (distinct : xs.Pairwise fun a b => (a == b) = false) :
    firstOccurrences xs = xs :=
  foldl_addDistinct_of_distinct distinct

theorem kept_of_mem_foldl [ReflBEq α] {xs kept : List α} {y : α}
    (member : (∃ k ∈ kept, (k == y) = true) ∨ y ∈ xs) : ∃ k ∈ xs.foldl addDistinct kept, (k == y) = true := by
  induction xs generalizing kept with
  | nil => exact member.resolve_right (List.not_mem_nil)
  | cons x xs ih =>
    have grown (k : α) (atKept : k ∈ kept) : k ∈ addDistinct kept x := by
      unfold addDistinct
      split
      · exact atKept
      · exact List.mem_append_left _ atKept
    refine ih ?_
    rcases member with ⟨k, atKept, equal⟩ | member
    · exact .inl ⟨k, grown k atKept, equal⟩
    · rcases List.mem_cons.1 member with rfl | member
      · left
        by_cases there : kept.any (· == y)
        · obtain ⟨k, atKept, equal⟩ := List.any_eq_true.1 there
          exact ⟨k, grown k atKept, equal⟩
        · exact ⟨y, by simp [addDistinct, there], beq_self_eq_true y⟩
      · exact .inr member

omit [BEq α] in
theorem two_le_length {xs : List α} (notNil : xs = [] → False) (notSingle : ∀ x, xs = [x] → False) : 2 ≤ xs.length := by
  cases xs with
  | nil => exact (notNil rfl).elim
  | cons x xs =>
    cases xs with
    | nil => exact (notSingle x rfl).elim
    | cons => simp

/-- Of equal elements one is kept. -/
theorem kept_of_mem [ReflBEq α] {xs : List α} {y : α} (member : y ∈ xs) :
    ∃ k ∈ firstOccurrences xs, (k == y) = true :=
  kept_of_mem_foldl (.inr member)

end Distinct

/-- The form in which unions are made: at least two members, none of them a union, no two of them equal. -/
structure UnionForm (ms : List Ty) : Prop where
  several : 2 ≤ ms.length
  flat : ∀ m ∈ ms, m.isUnion = false
  distinct : ms.Pairwise fun a b => (a == b) = false

instance (ms : List Ty) : Decidable (UnionForm ms) :=
  decidable_of_iff (2 ≤ ms.length ∧ (∀ m ∈ ms, m.isUnion = false) ∧ ms.Pairwise fun a b => (a == b) = false)
    ⟨fun ⟨several, flat, distinct⟩ => ⟨several, flat, distinct⟩, fun form => ⟨form.several, form.flat, form.distinct⟩⟩

namespace Ty

theorem makeClassObject_of_not_union {t : Ty} (notUnion : t.isUnion = false) (pos : Position) :
    t.makeClassObject pos = .classObject t pos := by
  cases t <;> first | rfl | cases notUnion

/-- A property that unions have as soon as their members do, and class objects as soon as their items do. -/
structure OfMembers (H : Ty → Prop) : Prop where
  never (pos : Position) : H (.never false pos)
  noneType (pos : Position) : H (.noneType pos)
  union {ms : List Ty} (pos : Position) : UnionForm ms → (∀ m ∈ ms, H m) → H (.union ms pos)
  member {ms : List Ty} {pos : Position} : H (.union ms pos) → ∀ m ∈ ms, H m
  classObject {t : Ty} (pos : Position) : t.isUnion = false → H t → H (.classObject t pos)

namespace OfMembers

variable {H : Ty → Prop} (closed : OfMembers H)

include closed

theorem members {t m : Ty} (holds : H t) (member : m ∈ t.members) : H m := by
  induction t using inductionOn with
  | step t ih =>
    cases t using Ty.unionCases with
    | union ms pos =>
      rw [Ty.members, membersOfAll_eq] at member
      obtain ⟨c, atChild, member⟩ := List.mem_flatMap.1 member
      exact ih c atChild (closed.member holds c atChild) member
    | other t notUnion =>
      rw [members_of_not_union notUnion] at member
      rw [List.mem_singleton.1 member]
      exact holds

theorem makeUnion {ts : List Ty} (all : ∀ t ∈ ts, H t) (pos : Position) : H (Ty.makeUnion ts pos) := by
  have member {m : Ty} (atOnce : m ∈ firstOccurrences (ts.flatMap Ty.members)) : H m ∧ m.isUnion = false := by
    obtain ⟨t, atItem, atMember⟩ := List.mem_flatMap.1 (mem_of_mem_firstOccurrences atOnce)
    exact ⟨closed.members (all t atItem) atMember, not_union_of_mem_members t m atMember⟩
  unfold Ty.makeUnion
  split
  · exact closed.never pos
  · rename_i t single
    exact (member (by simp [single])).1
  · rename_i ms notNil notSingle
    have form : UnionForm (firstOccurrences (ts.flatMap Ty.members)) :=
      ⟨two_le_length notNil notSingle, fun m atOnce => (member atOnce).2, firstOccurrences_distinct _⟩
    exact closed.union pos form fun m atOnce => (member atOnce).1

theorem makeOptional {t : Ty} (holds : H t) : H t.makeOptional := by
  unfold Ty.makeOptional
  split
  · exact holds
  · rename_i ms pos
    refine closed.makeUnion (fun m member => ?_) pos
    rcases List.mem_append.1 member with member | member
    · exact closed.member holds m (List.mem_filter.1 member).1
    · rw [List.mem_singleton.1 member]
      exact closed.noneType .unknown
  · refine closed.makeUnion (fun m member => ?_) _
    rcases List.mem_cons.1 member with rfl | member
    · exact holds
    · rw [List.mem_singleton.1 member]
      exact closed.noneType .unknown

theorem makeClassObject {t : Ty} (holds : H t) (pos : Position) : H (t.makeClassObject pos) := by
  induction t using inductionOn generalizing pos with
  | step t ih =>
    cases t using Ty.unionCases with
    | union ms at_ =>
      rw [Ty.makeClassObject, classObjectsOf_eq]
      refine closed.makeUnion (fun m member => ?_) pos
      obtain ⟨c, atChild, rfl⟩ := List.mem_map.1 member
      exact ih c atChild (closed.member holds c atChild) .unknown
    | other t notUnion =>
      rw [makeClassObject_of_not_union notUnion]
      exact closed.classObject pos notUnion holds

end OfMembers

def isInstance : Ty → Bool
  | .inst _ => true
  | _ => false

/-- A property of single types that sees of an instance no more than its class and the number of its
arguments, that every union has in the form in which unions are made, and that all other types have. -/
structure OfNodes (P : Ty → Prop) : Prop where
  inst {i j : Instance} : j.head = i.head → j.args.length = i.args.length → P (.inst i) → P (.inst j)
  union {ms : List Ty} (pos : Position) : UnionForm ms → P (.union ms pos)
  move {ms : List Ty} {pos : Position} (pos' : Position) : P (.union ms pos) → P (.union ms pos')
  other {t : Ty} : t.isInstance = false → t.isUnion = false → P t

theorem OfNodes.withPos {P : Ty → Prop} (nodes : OfNodes P) {t : Ty} (pos : Position) (atRoot : P t) :
    P (t.withPos pos) := by
  cases t with
  | inst i =>
    refine nodes.inst ?_ ?_ atRoot
    · rfl
    · rfl
  | union => exact nodes.move pos atRoot
  | _ => exact nodes.other rfl rfl

theorem rebuild_of_not_union {t : Ty} (notUnion : t.isUnion = false) (cs : List Ty) : t.rebuild cs = t.withChildren cs := by
  cases t <;> first | rfl | cases notUnion

theorem children_withPos (t : Ty) (pos : Position) : (t.withPos pos).children = t.children := by
  cases t <;> rfl

theorem Everywhere.moved {P : Ty → Prop} {t : Ty} (all : t.Everywhere P) {pos : Position} (atRoot : P (t.withPos pos)) :
    (t.withPos pos).Everywhere P := by
  rw [everywhere_iff, children_withPos]
  exact ⟨atRoot, fun c member => all.child member⟩

theorem Everywhere.withPos {P : Ty → Prop} (nodes : OfNodes P) {t : Ty} (all : t.Everywhere P) (pos : Position) :
    (t.withPos pos).Everywhere P :=
  all.moved (nodes.withPos pos all.root)

theorem children_of_isAny {t : Ty} (isAny : t.isAny) : t.children = [] := by
  cases t <;> first | rfl | cases isAny

theorem OfNodes.everywhere_of_isAny {P : Ty → Prop} (nodes : OfNodes P) {t : Ty} (isAny : t.isAny) :
    t.Everywhere P := by
  cases t with
  | any => exact everywhere_of_leaf rfl (nodes.other rfl rfl)
  | _ => cases isAny

section Unions

variable {P : Ty → Prop} (nodes : OfNodes P)

include nodes

theorem OfNodes.ofMembers : OfMembers (·.Everywhere P) where
  never _ := everywhere_of_leaf rfl (nodes.other rfl rfl)
  noneType _ := everywhere_of_leaf rfl (nodes.other rfl rfl)
  union pos form all := everywhere_iff.2 ⟨nodes.union pos form, all⟩
  member all _ member := all.child member
  classObject _ _ all := by
    refine everywhere_iff.2 ⟨nodes.other rfl rfl, fun c member => ?_⟩
    rw [List.mem_singleton.1 member]
    exact all

theorem rebuild_everywhere {t : Ty} (atRoot : P t) {cs : List Ty} (sameLength : cs.length = t.children.length)
    (all : ∀ c ∈ cs, c.Everywhere P) : (t.rebuild cs).Everywhere P := by
  cases t with
  | union ms pos => exact nodes.ofMembers.makeUnion all pos
  | inst i =>
    refine everywhere_iff.2 ⟨nodes.inst ?_ ?_ atRoot, all⟩
    · rfl
    · exact sameLength
  | _ =>
    refine everywhere_iff.2 ⟨nodes.other rfl rfl, fun c member => all c ?_⟩
    simp only [rebuild] at member
    rwa [children_withChildren _ cs sameLength] at member

end Unions

end Ty

end TypeResolution
