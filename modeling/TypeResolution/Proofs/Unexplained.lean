import TypeResolution.Proofs.EqualForms
import TypeResolution.Proofs.Expansion

namespace TypeResolution

mutual
/-- The type with the reason for every `Any` inside it forgotten, those in fallbacks, known values and the bounds of
type variables included. -/
def Ty.unexplained : Ty → Ty
  | .any _ missing pos => .any .unannotated missing pos
  | .noneType pos => .noneType pos
  | .never noReturn pos => .never noReturn pos
  | .deleted source pos => .deleted source pos
  | .typeVar binding pos => .typeVar binding.unexplained pos
  | .inst i => .inst i.unexplained
  | .tuple ⟨items, fallback, implicit, pos⟩ => .tuple ⟨Ty.unexplainedAll items, fallback.unexplained, implicit, pos⟩
  | .record ⟨fields, required, fallback, pos⟩ =>
    .record ⟨Ty.unexplainedFields fields, required, fallback.unexplained, pos⟩
  | .callable ⟨args, kinds, names, ret, fallback, bindings, anyArgs, pos⟩ =>
    .callable ⟨Ty.unexplainedAll args, kinds, names, ret.unexplained, Instance.unexplainedOption fallback,
      TypeVarBinding.unexplainedAll bindings, anyArgs, pos⟩
  | .union members pos => .union (Ty.unexplainedAll members) pos
  | .literal l => .literal l.unexplained
  | .classObject item pos => .classObject item.unexplained pos
  | .star item pos => .star item.unexplained pos
  | .forward fullname args pos => .forward fullname (Ty.unexplainedAll args) pos
  | .named ⟨name, args, optional, emptyTuple, quoted, quotedClass, pos⟩ =>
    .named ⟨name, Ty.unexplainedAll args, optional, emptyTuple, quoted, quotedClass, pos⟩
  | .bracketed items pos => .bracketed (Ty.unexplainedAll items) pos
  | .argument item name form pos => .argument item.unexplained name form pos
  | .ellipsis pos => .ellipsis pos
  | .scalar value className note pos => .scalar value className note pos
termination_by structural t => t

def Instance.unexplained : Instance → Instance
  | ⟨head, args, invalid, lastKnown, pos⟩ =>
    ⟨head, Ty.unexplainedAll args, invalid, Literal.unexplainedOption lastKnown, pos⟩
termination_by structural i => i

def Instance.unexplainedOption : Option Instance → Option Instance
  | none => none
  | some i => some i.unexplained
termination_by structural i => i

def Literal.unexplained : Literal → Literal
  | ⟨value, fallback, pos⟩ => ⟨value, fallback.unexplained, pos⟩
termination_by structural l => l

def Literal.unexplainedOption : Option Literal → Option Literal
  | none => none
  | some l => some l.unexplained
termination_by structural l => l

def TypeVarBinding.unexplained : TypeVarBinding → TypeVarBinding
  | ⟨name, fullname, id, values, upperBound, variance, pos⟩ =>
    ⟨name, fullname, id, Ty.unexplainedAll values, upperBound.unexplained, variance, pos⟩
termination_by structural binding => binding

def TypeVarBinding.unexplainedAll : List TypeVarBinding → List TypeVarBinding
  | [] => []
  | binding :: bindings => binding.unexplained :: TypeVarBinding.unexplainedAll bindings
termination_by structural bindings => bindings

def Ty.unexplainedAll : List Ty → List Ty
  | [] => []
  | t :: ts => t.unexplained :: Ty.unexplainedAll ts
termination_by structural ts => ts

def Ty.unexplainedFields : List (String × Ty) → List (String × Ty)
  | [] => []
  | (key, t) :: fields => (key, t.unexplained) :: Ty.unexplainedFields fields
termination_by structural fields => fields
end

@[simp]
theorem Ty.unexplainedAll_eq (ts : List Ty) : unexplainedAll ts = ts.map unexplained := by
  induction ts with
  | nil => rfl
  | cons t ts ih => simp [unexplainedAll, ih]

@[simp]
theorem Ty.unexplainedFields_eq (fields : List (String × Ty)) :
    unexplainedFields fields = fields.map fun field => (field.1, field.2.unexplained) := by
  induction fields with
  | nil => rfl
  | cons field fields ih => simp [unexplainedFields, ih]

@[simp]
theorem TypeVarBinding.unexplainedAll_eq (bindings : List TypeVarBinding) :
    unexplainedAll bindings = bindings.map unexplained := by
  induction bindings with
  | nil => rfl
  | cons binding bindings ih => simp [unexplainedAll, ih]

@[simp]
theorem Instance.unexplainedOption_eq (i : Option Instance) : unexplainedOption i = i.map unexplained := by
  cases i <;> rfl

@[simp]
theorem Literal.unexplainedOption_eq (l : Option Literal) : unexplainedOption l = l.map unexplained := by
  cases l <;> rfl

namespace Ty

section

attribute [local simp] unexplained Instance.unexplained

/-- Forgetting the reasons keeps the form. -/
theorem form_unexplained (t : Ty) : t.unexplained.ctorIdx = t.ctorIdx := by
  cases t <;> first | rfl | (rename_i parts; cases parts; rfl)

@[simp]
theorem children_unexplained (t : Ty) : t.unexplained.children = t.children.map unexplained := by
  cases t with
  | inst i => cases i; simp [children]
  | tuple shape => cases shape; simp [children]
  | record shape => cases shape; simp [children]
  | callable signature => cases signature; simp [children]
  | named reference => cases reference; simp [children]
  | _ => simp [children]

theorem unexplained_withChildren (t : Ty) (cs : List Ty) :
    (t.withChildren cs).unexplained = t.unexplained.withChildren (cs.map unexplained) := by
  cases t with
  | inst i => cases i; simp [withChildren]
  | tuple shape => cases shape; simp [withChildren]
  | record shape =>
    obtain ⟨fields, required, fallback, pos⟩ := shape
    simp [withChildren, List.map_zipWith, List.zipWith_map]
  | callable signature =>
    obtain ⟨args, kinds, names, ret, fallback, bindings, anyArgs, pos⟩ := signature
    simp only [unexplained, withChildren, unexplainedAll_eq, List.map_dropLast, List.getLast?_map, Option.getD_map]
  | named reference => cases reference; simp [withChildren, Reference.withArgs]
  | classObject | star | argument => simp [withChildren, List.head?_map, Option.getD_map]
  | _ => simp [withChildren]

@[simp]
theorem pos_unexplained (t : Ty) : t.unexplained.pos = t.pos := by
  cases t <;> first | rfl | (rename_i parts; cases parts; rfl)

theorem unexplained_withPos (t : Ty) (pos : Position) : (t.withPos pos).unexplained = t.unexplained.withPos pos := by
  cases t <;> first | rfl | (rename_i parts; cases parts; rfl)

@[simp]
theorem isUnion_unexplained (t : Ty) : t.unexplained.isUnion = t.isUnion := by
  cases t <;> first | rfl | (rename_i parts; cases parts; rfl)

@[simp]
theorem isNone_unexplained (t : Ty) : t.unexplained.isNone = t.isNone := by
  cases t <;> first | rfl | (rename_i parts; cases parts; rfl)

end

end Ty

/-- A type is equal to itself without the reasons: equality does not look at them. -/
theorem EqualitySteps.unexplained : EqualitySteps (fun t => t.unexplained ≈ t) (fun i => i.unexplained.beq i = true)
    fun l => l.unexplained.beq l = true where
  type t below carried literal := by
    have parts : List.Forall₂ (· ≈ ·) (t.children.map Ty.unexplained) t.children := by
      rw [List.forall₂_map_left_iff]
      exact List.forall₂_same.2 below
    have inPlace := Ty.withChildren_congr t parts
    rw [Ty.withChildren_children] at inPlace
    cases t with
    | any => exact Ty.Matches.beq .any
    | typeVar binding =>
      cases binding
      exact Ty.Matches.beq (.typeVar rfl rfl)
    | inst i => exact Ty.Matches.beq (.inst (carried i (List.mem_singleton_self i)))
    | literal l => exact Ty.Matches.beq (.literal (literal l rfl))
    | tuple shape =>
      obtain ⟨items, fallback, implicit, pos⟩ := shape
      simp only [Ty.unexplained, Ty.unexplainedAll_eq]
      exact Ty.Matches.beq (.tuple parts (carried fallback (List.mem_singleton_self _)))
    | record shape =>
      obtain ⟨fields, required, fallback, pos⟩ := shape
      simp only [Ty.unexplained, Ty.unexplainedFields_eq]
      refine Ty.record_congr ?_ required (carried fallback (List.mem_singleton_self _)) _ _
      rw [List.forall₂_map_left_iff]
      exact List.forall₂_same.2 fun field member => ⟨rfl, below field.2 (List.mem_map_of_mem member)⟩
    | callable signature =>
      obtain ⟨args, kinds, names, ret, fallback, bindings, anyArgs, pos⟩ := signature
      refine Ty.Matches.beq (.callable ?_ rfl rfl (below ret (by simp [Ty.children])) rfl)
      simp only [Ty.unexplainedAll_eq, List.forall₂_map_left_iff]
      exact List.forall₂_same.2 fun t member => below t (List.mem_append_left _ member)
    | named reference =>
      cases reference
      simpa [Ty.unexplained, Ty.children, Ty.withChildren, Reference.withArgs] using inPlace
    | noneType | never | deleted | ellipsis | scalar => exact Setoid.refl _
    | _ => simpa [Ty.unexplained, Ty.children, Ty.withChildren] using inPlace
  inst i args known := by
    obtain ⟨head, written, invalid, lastKnown, pos⟩ := i
    refine Instance.beq_iff.2 ⟨rfl, ?_, ?_⟩
    · simp only [Instance.unexplained, Ty.unexplainedAll_eq, List.forall₂_map_left_iff]
      exact List.forall₂_same.2 args
    · cases lastKnown with
      | none => exact .none
      | some l => exact .some (known l rfl)
  literal l fallback := by
    cases l
    exact Literal.beq_iff.2 ⟨rfl, fallback⟩

theorem firstOccurrences_map {α β : Type} [BEq α] [BEq β] {f : α → β} (keeps : ∀ a b, (f a == f b) = (a == b)) (xs : List α) :
    firstOccurrences (xs.map f) = (firstOccurrences xs).map f := by
  have step (kept : List α) (x : α) : addDistinct (kept.map f) (f x) = (addDistinct kept x).map f := by
    simp only [addDistinct, List.any_map, Function.comp_def, keeps]
    split <;> simp
  have from_ (kept : List α) : (xs.map f).foldl addDistinct (kept.map f) = (xs.foldl addDistinct kept).map f := by
    induction xs generalizing kept with
    | nil => rfl
    | cons x xs ih => rw [List.map_cons, List.foldl_cons, List.foldl_cons, step, ih]
  exact from_ []

namespace Ty

theorem unexplained_equal (t : Ty) : t.unexplained ≈ t := EqualitySteps.unexplained.onType t

/-- Types that agree without the reasons are equal. -/
theorem equal_of_unexplained {t u : Ty} (alike : t.unexplained = u.unexplained) : t ≈ u :=
  Setoid.trans (Setoid.symm (unexplained_equal t)) (alike ▸ unexplained_equal u)

theorem beq_unexplained (t u : Ty) : (t.unexplained == u.unexplained) = (t == u) := by
  refine Bool.eq_iff_iff.2 ⟨fun equal => ?_, fun equal => ?_⟩
  · exact Setoid.trans (Setoid.symm (unexplained_equal t)) (Setoid.trans equal (unexplained_equal u))
  · exact Setoid.trans (unexplained_equal t) (Setoid.trans equal (Setoid.symm (unexplained_equal u)))

theorem members_unexplained (t : Ty) : t.unexplained.members = t.members.map unexplained := by
  induction t using inductionOn with
  | step t ih =>
    cases t using unionCases with
    | union ms pos =>
      have inMembers : ∀ m ∈ ms, m.unexplained.members = m.members.map unexplained := ih
      simp only [unexplained, unexplainedAll_eq, members, membersOfAll_eq, List.flatMap_map, List.map_flatMap]
      exact List.flatMap_congr inMembers
    | other t notUnion =>
      rw [members_of_not_union notUnion, members_of_not_union (by rwa [isUnion_unexplained])]
      rfl

theorem unexplained_makeUnion (ts : List Ty) (pos : Position) :
    (makeUnion ts pos).unexplained = makeUnion (ts.map unexplained) pos := by
  have distinct : firstOccurrences ((ts.map unexplained).flatMap members) =
      (firstOccurrences (ts.flatMap members)).map unexplained := by
    rw [← firstOccurrences_map beq_unexplained]
    simp only [List.flatMap_map, List.map_flatMap, members_unexplained]
  unfold makeUnion
  rw [distinct]
  match firstOccurrences (ts.flatMap members) with
  | [] => rfl
  | [t] => rfl
  | t :: u :: rest => simp [unexplained]

theorem unexplained_makeOptional (t : Ty) : t.makeOptional.unexplained = t.unexplained.makeOptional := by
  cases t using unionCases with
  | union ms pos =>
    simp only [makeOptional, unexplained, unexplainedAll_eq, unexplained_makeUnion, List.map_append, List.filter_map,
      List.map_cons, List.map_nil, Function.comp_def, isNone_unexplained]
  | other t notUnion =>
    cases none : t.isNone with
    | true =>
      obtain ⟨pos, rfl⟩ := isNone_iff.1 none
      rfl
    | false =>
      rw [makeOptional_of_single notUnion none,
        makeOptional_of_single (by rwa [isUnion_unexplained]) (by rwa [isNone_unexplained])]
      simp [unexplained]

theorem unexplained_makeClassObject (t : Ty) (pos : Position) :
    (t.makeClassObject pos).unexplained = t.unexplained.makeClassObject pos := by
  induction t using inductionOn generalizing pos with
  | step t ih =>
    cases t using unionCases with
    | union ms at_ =>
      have inMembers : ∀ m ∈ ms, ∀ pos, (m.makeClassObject pos).unexplained = m.unexplained.makeClassObject pos := ih
      simp only [makeClassObject, unexplained, unexplainedAll_eq, unexplained_makeUnion, classObjectsOf_eq, List.map_map]
      congr 1
      exact List.map_congr_left fun m member => inMembers m member .unknown
    | other t notUnion =>
      rw [makeClassObject_of_not_union notUnion, makeClassObject_of_not_union (by rwa [isUnion_unexplained])]
      rfl

theorem unexplained_rebuild (t : Ty) (cs : List Ty) :
    (t.rebuild cs).unexplained = t.unexplained.rebuild (cs.map unexplained) := by
  cases t using unionCases with
  | union ms pos => simp only [rebuild, unexplained, unexplained_makeUnion]
  | other t notUnion =>
    rw [rebuild_of_not_union notUnion, rebuild_of_not_union (by rwa [isUnion_unexplained]), unexplained_withChildren]

theorem typeVars_eq (t : Ty) : t.typeVars =
    match t with
    | .typeVar .. => [t]
    | _ => firstOccurrences (t.children.map typeVars).flatten := by
  refine (fold_eq _ t).trans ?_
  cases t <;> rfl

theorem typeVars_unexplained (t : Ty) : t.unexplained.typeVars = t.typeVars.map unexplained := by
  induction t using inductionOn with
  | step t ih =>
    have below : firstOccurrences (t.unexplained.children.map typeVars).flatten =
        (firstOccurrences (t.children.map typeVars).flatten).map unexplained := by
      rw [← firstOccurrences_map beq_unexplained, children_unexplained, List.map_flatten, List.map_map, List.map_map]
      congr 2
      exact List.map_congr_left ih
    rw [typeVars_eq, typeVars_eq t]
    cases t <;> first | rfl | exact below | (rename_i parts; cases parts; exact below)

end Ty

/-- What stands for a formal, without the reasons. -/
theorem substitute?_unexplained (formals : List String) {values values' : List Ty}
    (alike : values.map Ty.unexplained = values'.map Ty.unexplained) (t : Ty) :
    (substitute? formals values t).map Ty.unexplained = (substitute? formals values' t).map Ty.unexplained := by
  unfold substitute?
  simp only [Option.map_bind, Function.comp_def, ← List.getElem?_map, alike]

/-- Types that agree without the reasons still do when they are put in for the formals of one target, and the same is
cut off. -/
theorem substituteAt_unexplained (formals : List String) {values values' : List Ty}
    (alike : values.map Ty.unexplained = values'.map Ty.unexplained) (pos : Position) (t : Ty) (depth : Nat) :
    (substituteAt formals values pos t depth).1.unexplained = (substituteAt formals values' pos t depth).1.unexplained ∧
      (substituteAt formals values pos t depth).2 = (substituteAt formals values' pos t depth).2 := by
  induction t using Ty.inductionOn generalizing depth with
  | step t ih =>
    have sameFormal := substitute?_unexplained formals alike t
    rw [substituteAt_eq, substituteAt_eq]
    cases found : substitute? formals values t with
    | some value =>
      rw [found] at sameFormal
      obtain ⟨value', found', same⟩ := Option.map_eq_some_iff.1 sameFormal.symm
      rw [found']
      exact ⟨same.symm, rfl⟩
    | none =>
      rw [found] at sameFormal
      rw [Option.map_eq_none_iff.1 sameFormal.symm]
      dsimp only
      split
      · exact ⟨rfl, rfl⟩
      · split
        · exact ⟨rfl, rfl⟩
        · simp only [Ty.unexplained_withPos, Ty.unexplained_rebuild, List.map_map, List.any_map]
          refine ⟨?_, ?_⟩
          · congr 2
            exact List.map_congr_left fun c member => (ih c member (depth + 1)).1
          · rw [Bool.eq_iff_iff, List.any_eq_true, List.any_eq_true]
            refine exists_congr fun c => and_congr_right fun member => ?_
            rw [Function.comp_apply, Function.comp_apply, (ih c member (depth + 1)).2]

end TypeResolution
