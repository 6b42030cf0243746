import TypeResolution.Proofs.SameTypes

namespace TypeResolution

mutual
/-- The type with every position inside it forgotten, those in fallbacks, known values and the bounds of type
variables included. -/
def Ty.unplaced : Ty → Ty
  | .any origin missing _ => .any origin missing .unknown
  | .noneType _ => .noneType .unknown
  | .never noReturn _ => .never noReturn .unknown
  | .deleted source _ => .deleted source .unknown
  | .typeVar binding _ => .typeVar binding.unplaced .unknown
  | .inst i => .inst i.unplaced
  | .tuple ⟨items, fallback, implicit, _⟩ => .tuple ⟨Ty.unplacedAll items, fallback.unplaced, implicit, .unknown⟩
  | .record ⟨fields, required, fallback, _⟩ =>
    .record ⟨Ty.unplacedFields fields, required, fallback.unplaced, .unknown⟩
  | .callable ⟨args, kinds, names, ret, fallback, bindings, anyArgs, _⟩ =>
    .callable ⟨Ty.unplacedAll args, kinds, names, ret.unplaced, Instance.unplacedOption fallback,
      TypeVarBinding.unplacedAll bindings, anyArgs, .unknown⟩
  | .union members _ => .union (Ty.unplacedAll members) .unknown
  | .literal l => .literal l.unplaced
  | .classObject item _ => .classObject item.unplaced .unknown
  | .star item _ => .star item.unplaced .unknown
  | .forward fullname args _ => .forward fullname (Ty.unplacedAll args) .unknown
  | .named ⟨name, args, optional, emptyTuple, quoted, quotedClass, _⟩ =>
    .named ⟨name, Ty.unplacedAll args, optional, emptyTuple, quoted, quotedClass, .unknown⟩
  | .bracketed items _ => .bracketed (Ty.unplacedAll items) .unknown
  | .argument item name form _ => .argument item.unplaced name form .unknown
  | .ellipsis _ => .ellipsis .unknown
  | .scalar value className note _ => .scalar value className note .unknown
termination_by structural t => t

def Instance.unplaced : Instance → Instance
  | ⟨head, args, invalid, lastKnown, _⟩ =>
    ⟨head, Ty.unplacedAll args, invalid, Literal.unplacedOption lastKnown, .unknown⟩
termination_by structural i => i

def Instance.unplacedOption : Option Instance → Option Instance
  | none => none
  | some i => some i.unplaced
termination_by structural i => i

def Literal.unplaced : Literal → Literal
  | ⟨value, fallback, _⟩ => ⟨value, fallback.unplaced, .unknown⟩
termination_by structural l => l

def Literal.unplacedOption : Option Literal → Option Literal
  | none => none
  | some l => some l.unplaced
termination_by structural l => l

def TypeVarBinding.unplaced : TypeVarBinding → TypeVarBinding
  | ⟨name, fullname, id, values, upperBound, variance, _⟩ =>
    ⟨name, fullname, id, Ty.unplacedAll values, upperBound.unplaced, variance, .unknown⟩
termination_by structural binding => binding

def TypeVarBinding.unplacedAll : List TypeVarBinding → List TypeVarBinding
  | [] => []
  | binding :: bindings => binding.unplaced :: TypeVarBinding.unplacedAll bindings
termination_by structural bindings => bindings

def Ty.unplacedAll : List Ty → List Ty
  | [] => []
  | t :: ts => t.unplaced :: Ty.unplacedAll ts
termination_by structural ts => ts

def Ty.unplacedFields : List (String × Ty) → List (String × Ty)
  | [] => []
  | (key, t) :: fields => (key, t.unplaced) :: Ty.unplacedFields fields
termination_by structural fields => fields
end

theorem Ty.forall₂_unplacedAll {ts : List Ty} (each : ∀ t ∈ ts, t.unplaced ≈ t) :
    List.Forall₂ (· ≈ ·) (Ty.unplacedAll ts) ts := by
  induction ts with
  | nil => exact .nil
  | cons t ts ih => exact .cons (each t List.mem_cons_self) (ih fun u member => each u (List.mem_cons_of_mem t member))

theorem Ty.forall₂_unplacedFields {fields : List (String × Ty)} (each : ∀ t ∈ fields.map Prod.snd, t.unplaced ≈ t) :
    List.Forall₂ (fun x y => x.1 = y.1 ∧ x.2 ≈ y.2) (Ty.unplacedFields fields) fields := by
  induction fields with
  | nil => exact .nil
  | cons field fields ih =>
    exact .cons ⟨rfl, each field.2 List.mem_cons_self⟩ (ih fun u member => each u (List.mem_cons_of_mem _ member))

/-- Forgetting where a type was written makes an equal type, at every level that equality looks at. -/
theorem EqualitySteps.unplaced : EqualitySteps (fun t => t.unplaced ≈ t) (fun i => i.unplaced.beq i = true)
    fun l => l.unplaced.beq l = true where
  type t below carried literal := by
    cases t with
    | tuple shape =>
      obtain ⟨items, fallback, implicit, pos⟩ := shape
      exact Ty.Matches.beq (.tuple (Ty.forall₂_unplacedAll below) (carried fallback (List.mem_singleton_self _)))
    | record shape =>
      obtain ⟨fields, required, fallback, pos⟩ := shape
      exact Ty.record_congr (Ty.forall₂_unplacedFields below) required (carried fallback (List.mem_singleton_self _)) _ _
    | callable signature =>
      obtain ⟨args, kinds, names, ret, fallback, bindings, anyArgs, pos⟩ := signature
      have atArgs := Ty.forall₂_unplacedAll fun t member => below t (List.mem_append_left _ member)
      have atRet := below ret (List.mem_append_right _ (List.mem_singleton_self _))
      exact Ty.Matches.beq (.callable atArgs rfl rfl atRet rfl)
    | union members =>
      have same := SameTypes.of_forall₂ (Ty.forall₂_unplacedAll below)
      refine Ty.Matches.beq (.union (Ty.forall₂_unplacedAll below).length_eq same.left fun y member => ?_)
      obtain ⟨x, atSource, equal⟩ := same.right y member
      exact ⟨x, atSource, Setoid.symm equal⟩
    | inst i => exact Ty.Matches.beq (.inst (carried i (List.mem_singleton_self i)))
    | literal l => exact Ty.Matches.beq (.literal (literal l rfl))
    | classObject item => exact Ty.Matches.beq (.classObject (below item (List.mem_singleton_self item)))
    | star item => exact Ty.Matches.beq (.star (below item (List.mem_singleton_self item)))
    | argument item => exact Ty.Matches.beq (.argument (below item (List.mem_singleton_self item)))
    | forward => exact Ty.Matches.beq (.forward (Ty.forall₂_unplacedAll below))
    | bracketed => exact Ty.Matches.beq (.bracketed (Ty.forall₂_unplacedAll below))
    | named reference =>
      cases reference
      exact Ty.Matches.beq (.named rfl (Ty.forall₂_unplacedAll below) rfl rfl rfl rfl)
    | typeVar binding =>
      cases binding
      exact Ty.Matches.beq (.typeVar rfl rfl)
    | any | noneType | never | deleted | ellipsis | scalar => exact Ty.Matches.beq (by constructor)
  inst i args known := by
    obtain ⟨head, written, invalid, lastKnown, pos⟩ := i
    refine Instance.beq_iff.2 ⟨rfl, Ty.forall₂_unplacedAll args, ?_⟩
    cases lastKnown with
    | none => exact .none
    | some l => exact .some (known l rfl)
  literal l fallback := by
    cases l
    exact Literal.beq_iff.2 ⟨rfl, fallback⟩

/-- Unions whose members are equal one by one in some order are equal. -/
theorem Ty.union_equal_of_perm {xs ys zs : List Ty} (perm : xs.Perm ys) (related : List.Forall₂ (· ≈ ·) ys zs)
    (p q : Position) : Ty.union xs p ≈ .union zs q := by
  have same := SameTypes.of_forall₂ related
  refine Matches.beq (.union (perm.length_eq.trans related.length_eq) (fun x member => ?_) fun z member => ?_)
  · exact same.left x (perm.mem_iff.1 member)
  · obtain ⟨y, atMiddle, equal⟩ := same.right z member
    exact ⟨y, perm.mem_iff.2 atMiddle, Setoid.symm equal⟩

/-- Equality of types is an equivalence; it does not see the order of the members of a union, nor any position. -/
theorem Ty.equality_equivalence :
    Equivalence (fun a b : Ty => (a == b) = true) ∧
    (∀ (xs ys zs : List Ty) (p q : Position), xs.Perm ys → List.Forall₂ (fun y z => (y == z) = true) ys zs →
      (Ty.union xs p == .union zs q) = true) ∧
    ∀ a b : Ty, a.unplaced = b.unplaced → (a == b) = true := by
  refine ⟨Ty.equality.iseqv, fun xs ys zs p q perm related => union_equal_of_perm perm related p q, ?_⟩
  intro a b same
  have forgotten := EqualitySteps.unplaced.onType
  exact Setoid.trans (Setoid.symm (forgotten a)) (same ▸ forgotten b)

/-- The type `int | None` as it is written in a third line, and the same the other way round. -/
def intOrNone : Ty := .union [.named (.of "int" []), .noneType ⟨3, 6⟩] ⟨3, 0⟩

def noneOrInt : Ty := .union [.noneType .unknown, .named (.of "int" [])] .unknown

theorem Ty.equality_equivalence_swapped : (intOrNone == noneOrInt) = true ∧ (noneOrInt == intOrNone) = true ∧
    (intOrNone == .union [.named (.of "int" []), .noneType .unknown] .unknown) = true := by
  obtain ⟨equivalence, permuted, moved⟩ := Ty.equality_equivalence
  have swapped : (intOrNone == noneOrInt) = true := by
    refine permuted _ [.noneType ⟨3, 6⟩, .named (.of "int" [])] _ _ _ (.swap _ _ []) (.cons ?_ (.cons ?_ .nil))
    · exact moved _ _ rfl
    · exact equivalence.refl _
  exact ⟨swapped, equivalence.symm swapped, moved _ _ rfl⟩

end TypeResolution
