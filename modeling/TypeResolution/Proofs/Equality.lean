import Mathlib.Data.List.Forall2
import TypeResolution.Ty.Children
import TypeResolution.Ty.Equality

namespace TypeResolution

/-- The instances that equality looks at besides the children. -/
def Ty.carried : Ty → List Instance
  | .inst i => [i]
  | .tuple shape => [shape.fallback]
  | .record shape => [shape.fallback]
  | _ => []

/-- The steps of an induction along all that equality looks at. -/
structure EqualitySteps (P : Ty → Prop) (Q : Instance → Prop) (R : Literal → Prop) : Prop where
  type (t : Ty) : (∀ c ∈ t.children, P c) → (∀ i ∈ t.carried, Q i) → (∀ l, t = .literal l → R l) → P t
  inst (i : Instance) : (∀ a ∈ i.args, P a) → (∀ l, i.lastKnown = some l → R l) → Q i
  literal (l : Literal) : Q l.fallback → R l

namespace EqualitySteps

variable {P : Ty → Prop} {Q : Instance → Prop} {R : Literal → Prop}

mutual
theorem onType (steps : EqualitySteps P Q R) : ∀ t : Ty, P t
  | .inst ⟨head, args, invalid, lastKnown, pos⟩ =>
    steps.type _ (onList steps args)
      (fun _ member => List.mem_singleton.1 member ▸ onInstance steps ⟨head, args, invalid, lastKnown, pos⟩)
      (fun _ impossible => nomatch impossible)
  | .tuple ⟨items, fallback, _, _⟩ =>
    steps.type _ (onList steps items)
      (fun _ member => List.mem_singleton.1 member ▸ onInstance steps fallback)
      (fun _ impossible => nomatch impossible)
  | .record ⟨fields, _, fallback, _⟩ =>
    steps.type _ (onFields steps fields)
      (fun _ member => List.mem_singleton.1 member ▸ onInstance steps fallback)
      (fun _ impossible => nomatch impossible)
  | .callable ⟨args, _, _, ret, _, _, _, _⟩ =>
    steps.type _ (fun c member => (List.mem_append.1 member).elim (onList steps args c)
      fun member => List.mem_singleton.1 member ▸ onType steps ret)
      (fun _ member => nomatch member) (fun _ impossible => nomatch impossible)
  | .union members _ =>
    steps.type _ (onList steps members) (fun _ member => nomatch member) (fun _ impossible => nomatch impossible)
  | .classObject item _ =>
    steps.type _ (fun _ member => List.mem_singleton.1 member ▸ onType steps item)
      (fun _ member => nomatch member) (fun _ impossible => nomatch impossible)
  | .star item _ =>
    steps.type _ (fun _ member => List.mem_singleton.1 member ▸ onType steps item)
      (fun _ member => nomatch member) (fun _ impossible => nomatch impossible)
  | .argument item _ _ _ =>
    steps.type _ (fun _ member => List.mem_singleton.1 member ▸ onType steps item)
      (fun _ member => nomatch member) (fun _ impossible => nomatch impossible)
  | .forward _ args _ =>
    steps.type _ (onList steps args) (fun _ member => nomatch member) (fun _ impossible => nomatch impossible)
  | .named ⟨_, args, _, _, _, _, _⟩ =>
    steps.type _ (onList steps args) (fun _ member => nomatch member) (fun _ impossible => nomatch impossible)
  | .bracketed items _ =>
    steps.type _ (onList steps items) (fun _ member => nomatch member) (fun _ impossible => nomatch impossible)
  | .literal l =>
    steps.type _ (fun _ member => nomatch member) (fun _ member => nomatch member)
      (fun _ same => Ty.literal.inj same ▸ onLiteral steps l)
  | .any .. | .noneType _ | .never .. | .deleted .. | .typeVar .. | .ellipsis _ | .scalar .. =>
    steps.type _ (fun _ member => nomatch member) (fun _ member => nomatch member) (fun _ impossible => nomatch impossible)
termination_by structural t => t

theorem onInstance (steps : EqualitySteps P Q R) : ∀ i : Instance, Q i
  | ⟨_, args, _, lastKnown, _⟩ => steps.inst _ (onList steps args) (onOption steps lastKnown)
termination_by structural i => i

theorem onLiteral (steps : EqualitySteps P Q R) : ∀ l : Literal, R l
  | ⟨_, fallback, _⟩ => steps.literal _ (onInstance steps fallback)
termination_by structural l => l

theorem onOption (steps : EqualitySteps P Q R) : ∀ known : Option Literal, ∀ l, known = some l → R l
  | none => fun _ impossible => nomatch impossible
  | some l => fun _ same => Option.some.inj same ▸ onLiteral steps l
termination_by structural known => known

theorem onList (steps : EqualitySteps P Q R) : ∀ ts : List Ty, ∀ t ∈ ts, P t
  | [] => fun _ member => nomatch member
  | t :: ts => by
    have atHead := onType steps t
    have inTail := onList steps ts
    intro c member
    rcases List.mem_cons.1 member with rfl | member
    · exact atHead
    · exact inTail c member
termination_by structural ts => ts

theorem onFields (steps : EqualitySteps P Q R) : ∀ fields : List (String × Ty), ∀ t ∈ fields.map Prod.snd, P t
  | [] => fun _ member => nomatch member
  | (_, t) :: fields => by
    have atHead := onType steps t
    have inTail := onFields steps fields
    intro c member
    rcases List.mem_cons.1 member with rfl | member
    · exact atHead
    · exact inTail c member
termination_by structural fields => fields
end

end EqualitySteps

namespace Ty

theorem beqList_iff {xs ys : List Ty} : beqList xs ys = true ↔ List.Forall₂ (fun x y => x.beq y = true) xs ys := by
  induction xs generalizing ys with
  | nil => cases ys <;> simp [beqList]
  | cons x xs ih => cases ys <;> simp [beqList, ih]

theorem beq_union_iff {xs ys : List Ty} {p q : Position} :
    (Ty.union xs p).beq (.union ys q) = true ↔ xs.length = ys.length ∧
      (∀ x ∈ xs, ∃ y ∈ ys, x.beq y = true) ∧ ∀ y ∈ ys, ∃ x ∈ xs, x.beq y = true := by
  rw [beq]
  simp only [within_eq, funext (among_eq xs), Bool.and_eq_true, beq_iff_eq, List.all_eq_true, List.any_eq_true, and_assoc]
  rfl

theorem fieldsWithin_iff {xs ys : List (String × Ty)} :
    fieldsWithin xs ys = true ↔ ∀ x ∈ xs, ∃ y ∈ ys, x.1 = y.1 ∧ x.2.beq y.2 = true := by
  induction xs with
  | nil => simp [fieldsWithin]
  | cons x xs ih => simp [fieldsWithin, ih]

theorem fieldAmong_iff {xs : List (String × Ty)} {y : String × Ty} :
    fieldAmong xs y = true ↔ ∃ x ∈ xs, x.1 = y.1 ∧ x.2.beq y.2 = true := by
  induction xs with
  | nil => simp [fieldAmong]
  | cons x xs ih => simp [fieldAmong, ih]

theorem beq_record_iff {xs ys : List (String × Ty)} {k l : KeySet} {f g : Instance} {p q : Position} :
    (Ty.record ⟨xs, k, f, p⟩).beq (.record ⟨ys, l, g, q⟩) = true ↔ xs.length = ys.length ∧
      (∀ x ∈ xs, ∃ y ∈ ys, x.1 = y.1 ∧ x.2.beq y.2 = true) ∧
      (∀ y ∈ ys, ∃ x ∈ xs, x.1 = y.1 ∧ x.2.beq y.2 = true) ∧ k = l ∧ f.beq g = true := by
  rw [beq]
  simp only [Bool.and_eq_true, beq_iff_eq, List.all_eq_true, fieldsWithin_iff, fieldAmong_iff, and_assoc]

/-- What makes two types equal: they have the same form and say the same, and their parts are equal. -/
inductive Matches : Ty → Ty → Prop
  | any {o o' m m' p p'} : Matches (.any o m p) (.any o' m' p')
  | noneType {p p'} : Matches (.noneType p) (.noneType p')
  | never {n n' p p'} : Matches (.never n p) (.never n' p')
  | deleted {source p p'} : Matches (.deleted source p) (.deleted source p')
  | typeVar {a b : TypeVarBinding} {p p'} : a.id = b.id → a.fullname = b.fullname →
      Matches (.typeVar a p) (.typeVar b p')
  | inst {i j : Instance} : i.beq j = true → Matches (.inst i) (.inst j)
  | tuple {a b : TupleShape} : List.Forall₂ (fun x y => x.beq y = true) a.items b.items →
      a.fallback.beq b.fallback = true → Matches (.tuple a) (.tuple b)
  | record {a b : RecordShape} : a.fields.length = b.fields.length →
      (∀ x ∈ a.fields, ∃ y ∈ b.fields, x.1 = y.1 ∧ x.2.beq y.2 = true) →
      (∀ y ∈ b.fields, ∃ x ∈ a.fields, x.1 = y.1 ∧ x.2.beq y.2 = true) → a.required = b.required →
      a.fallback.beq b.fallback = true → Matches (.record a) (.record b)
  | callable {a b : Signature} : List.Forall₂ (fun x y => x.beq y = true) a.args b.args → a.kinds = b.kinds →
      a.names = b.names → a.ret.beq b.ret = true → a.anyArgs = b.anyArgs → Matches (.callable a) (.callable b)
  | union {xs ys p p'} : xs.length = ys.length → (∀ x ∈ xs, ∃ y ∈ ys, x.beq y = true) →
      (∀ y ∈ ys, ∃ x ∈ xs, x.beq y = true) → Matches (.union xs p) (.union ys p')
  | literal {a b : Literal} : a.beq b = true → Matches (.literal a) (.literal b)
  | classObject {a b : Ty} {p p'} : a.beq b = true → Matches (.classObject a p) (.classObject b p')
  | star {a b : Ty} {p p'} : a.beq b = true → Matches (.star a p) (.star b p')
  | forward {fullname xs ys p p'} : List.Forall₂ (fun x y => x.beq y = true) xs ys →
      Matches (.forward fullname xs p) (.forward fullname ys p')
  | named {a b : Reference} : a.name = b.name → List.Forall₂ (fun x y => x.beq y = true) a.args b.args →
      a.optional = b.optional → a.emptyTuple = b.emptyTuple → a.quoted = b.quoted → a.quotedClass = b.quotedClass →
      Matches (.named a) (.named b)
  | bracketed {xs ys p p'} : List.Forall₂ (fun x y => x.beq y = true) xs ys →
      Matches (.bracketed xs p) (.bracketed ys p')
  | argument {a b : Ty} {name form p p'} : a.beq b = true → Matches (.argument a name form p) (.argument b name form p')
  | ellipsis {p p'} : Matches (.ellipsis p) (.ellipsis p')
  | scalar {value className note p p'} : Matches (.scalar value className note p) (.scalar value className note p')

/-- Equal types have the same form. -/
theorem form_of_beq {a b : Ty} (equal : a.beq b = true) : a.ctorIdx = b.ctorIdx := by
  cases a with
  | tuple shape => cases shape; cases b <;> first | rfl | cases equal
  | record shape => cases shape; cases b <;> first | rfl | cases equal
  | callable signature => cases signature; cases b <;> first | rfl | cases equal
  | named reference => cases reference; cases b <;> first | rfl | cases equal
  | _ => cases b <;> first | rfl | cases equal

theorem matches_of_beq {a b : Ty} (equal : a.beq b = true) : Matches a b := by
  have sameForm := form_of_beq equal
  cases a with
  | tuple shape =>
    cases b <;> cases sameForm
    rename_i other
    cases shape; cases other
    simp only [beq, Bool.and_eq_true, beqList_iff] at equal
    exact .tuple equal.1 equal.2
  | record shape =>
    cases b <;> cases sameForm
    rename_i other
    cases shape; cases other
    obtain ⟨sameLength, within, among, required, fallback⟩ := beq_record_iff.1 equal
    exact .record sameLength within among required fallback
  | callable signature =>
    cases b <;> cases sameForm
    rename_i other
    cases signature; cases other
    simp only [beq, Bool.and_eq_true, beqList_iff, beq_iff_eq] at equal
    obtain ⟨⟨⟨⟨args, kinds⟩, names⟩, ret⟩, anyArgs⟩ := equal
    exact .callable args kinds names ret anyArgs
  | named reference =>
    cases b <;> cases sameForm
    rename_i other
    cases reference; cases other
    simp only [beq, Bool.and_eq_true, beqList_iff, beq_iff_eq] at equal
    obtain ⟨⟨⟨⟨⟨name, args⟩, optional⟩, emptyTuple⟩, quoted⟩, quotedClass⟩ := equal
    exact .named name args optional emptyTuple quoted quotedClass
  | union xs p =>
    cases b <;> cases sameForm
    obtain ⟨sameLength, within, among⟩ := beq_union_iff.1 equal
    exact .union sameLength within among
  | deleted source p =>
    cases b <;> cases sameForm
    rw [beq_iff_eq.1 (show (source == _) = true from equal)]
    exact .deleted
  | typeVar binding p =>
    cases b <;> cases sameForm
    obtain ⟨id, fullname⟩ := Bool.and_eq_true_iff.1 equal
    exact .typeVar (beq_iff_eq.1 id) (beq_iff_eq.1 fullname)
  | forward fullname args p =>
    cases b <;> cases sameForm
    obtain ⟨sameName, args⟩ := Bool.and_eq_true_iff.1 equal
    rw [beq_iff_eq.1 sameName]
    exact .forward (beqList_iff.1 args)
  | bracketed items p =>
    cases b <;> cases sameForm
    exact .bracketed (beqList_iff.1 equal)
  | argument item name form p =>
    cases b <;> cases sameForm
    simp only [beq, Bool.and_eq_true, beq_iff_eq] at equal
    obtain ⟨⟨item, rfl⟩, rfl⟩ := equal
    exact .argument item
  | scalar value className note p =>
    cases b <;> cases sameForm
    simp only [beq, Bool.and_eq_true, beq_iff_eq] at equal
    obtain ⟨⟨rfl, rfl⟩, rfl⟩ := equal
    exact .scalar
  | inst i =>
    cases b <;> cases sameForm
    exact .inst equal
  | literal l =>
    cases b <;> cases sameForm
    exact .literal equal
  | classObject item p =>
    cases b <;> cases sameForm
    exact .classObject equal
  | star item p =>
    cases b <;> cases sameForm
    exact .star equal
  | any | noneType | never | ellipsis =>
    cases b <;> cases sameForm
    constructor

theorem Matches.beq {a b : Ty} (same : Matches a b) : a.beq b = true := by
  cases same with
  | @tuple a b items fallback =>
    cases a; cases b
    exact Bool.and_eq_true_iff.2 ⟨beqList_iff.2 items, fallback⟩
  | @record a b sameLength within among required fallback =>
    cases a; cases b
    exact beq_record_iff.2 ⟨sameLength, within, among, required, fallback⟩
  | @callable a b args kinds names ret anyArgs =>
    cases a; cases b
    dsimp only at args kinds names ret anyArgs
    simp [Ty.beq, beqList_iff.2 args, kinds, names, ret, anyArgs]
  | union sameLength within among => exact beq_union_iff.2 ⟨sameLength, within, among⟩
  | @named a b name args optional emptyTuple quoted quotedClass =>
    cases a; cases b
    dsimp only at name args optional emptyTuple quoted quotedClass
    simp [Ty.beq, beqList_iff.2 args, name, optional, emptyTuple, quoted, quotedClass]
  | typeVar id fullname => simp [Ty.beq, id, fullname]
  | forward args => simp [Ty.beq, beqList_iff.2 args]
  | bracketed items => exact beqList_iff.2 items
  | argument item => simp [Ty.beq, item]
  | inst equal | literal equal | classObject equal | star equal => exact equal
  | any | noneType | never | ellipsis => rfl
  | deleted | scalar => simp [Ty.beq]

theorem beq_iff_matches {a b : Ty} : a.beq b = true ↔ Matches a b := ⟨matches_of_beq, Matches.beq⟩

end Ty

theorem Literal.beqOption_iff {a b : Option Literal} :
    Literal.beqOption a b = true ↔ Option.Rel (fun l m => l.beq m = true) a b := by
  cases a <;> cases b <;> simp [Literal.beqOption]

theorem Instance.beq_iff {i j : Instance} :
    i.beq j = true ↔ i.head.fullname = j.head.fullname ∧
      List.Forall₂ (fun x y => x.beq y = true) i.args j.args ∧
      Option.Rel (fun l m => l.beq m = true) i.lastKnown j.lastKnown := by
  cases i; cases j
  simp only [Instance.beq, Bool.and_eq_true, beq_iff_eq, Ty.beqList_iff, Literal.beqOption_iff, and_assoc]

theorem Literal.beq_iff {a b : Literal} : a.beq b = true ↔ a.value = b.value ∧ a.fallback.beq b.fallback = true := by
  cases a; cases b
  simp only [Literal.beq, Bool.and_eq_true, beq_iff_eq]

section Pointwise

variable {α β γ : Type}

theorem forall₂_refl_of {R : α → α → Prop} {xs : List α} (each : ∀ x ∈ xs, R x x) : List.Forall₂ R xs xs := by
  induction xs with
  | nil => exact .nil
  | cons x xs ih => exact .cons (each x (by simp)) (ih fun y member => each y (by simp [member]))

theorem forall₂_symm_of {R : α → β → Prop} {S : β → α → Prop} {xs : List α} {ys : List β}
    (turn : ∀ x ∈ xs, ∀ y, R x y → S y x) (related : List.Forall₂ R xs ys) : List.Forall₂ S ys xs := by
  induction related with
  | nil => exact .nil
  | cons here _ ih => exact .cons (turn _ (by simp) _ here) (ih fun x member => turn x (by simp [member]))

theorem forall₂_trans_of {R : α → β → Prop} {S : β → γ → Prop} {T : α → γ → Prop} {xs : List α} {ys : List β}
    {zs : List γ} (join : ∀ x ∈ xs, ∀ y z, R x y → S y z → T x z) (first : List.Forall₂ R xs ys)
    (second : List.Forall₂ S ys zs) : List.Forall₂ T xs zs := by
  induction first generalizing zs with
  | nil =>
    cases second
    exact .nil
  | cons here _ ih =>
    cases second with
    | cons there rest => exact .cons (join _ (by simp) _ _ here there) (ih (fun x member => join x (by simp [member])) rest)

theorem exists_trans_of {R : α → β → Prop} {S : β → γ → Prop} {T : α → γ → Prop} {xs : List α} {ys : List β} {zs : List γ}
    (join : ∀ x ∈ xs, ∀ y z, R x y → S y z → T x z) (first : ∀ x ∈ xs, ∃ y ∈ ys, R x y) (second : ∀ y ∈ ys, ∃ z ∈ zs, S y z) :
    ∀ x ∈ xs, ∃ z ∈ zs, T x z := by
  intro x member
  obtain ⟨y, atMiddle, here⟩ := first x member
  obtain ⟨z, atTarget, there⟩ := second y atMiddle
  exact ⟨z, atTarget, join x member y z here there⟩

theorem exists_back_trans_of {R : α → β → Prop} {S : β → γ → Prop} {T : α → γ → Prop} {xs : List α} {ys : List β} {zs : List γ}
    (join : ∀ x ∈ xs, ∀ y z, R x y → S y z → T x z) (first : ∀ y ∈ ys, ∃ x ∈ xs, R x y) (second : ∀ z ∈ zs, ∃ y ∈ ys, S y z) :
    ∀ z ∈ zs, ∃ x ∈ xs, T x z := by
  intro z member
  obtain ⟨y, atMiddle, there⟩ := second z member
  obtain ⟨x, atSource, here⟩ := first y atMiddle
  exact ⟨x, atSource, join x atSource y z here there⟩

end Pointwise

namespace EqualitySteps

theorem refl : EqualitySteps (fun t => t.beq t = true) (fun i => i.beq i = true) fun l => l.beq l = true where
  type t below carried literal := by
    refine Ty.Matches.beq ?_
    cases t with
    | tuple shape => exact .tuple (forall₂_refl_of below) (carried _ (by simp [Ty.carried]))
    | record shape =>
      refine .record rfl ?_ ?_ rfl (carried _ (by simp [Ty.carried]))
      · exact fun x member => ⟨x, member, rfl, below x.2 (List.mem_map_of_mem member)⟩
      · exact fun x member => ⟨x, member, rfl, below x.2 (List.mem_map_of_mem member)⟩
    | callable signature =>
      exact .callable (forall₂_refl_of fun x member => below x (List.mem_append_left _ member)) rfl rfl
        (below _ (List.mem_append_right _ (List.mem_singleton_self _))) rfl
    | union => exact .union rfl (fun x member => ⟨x, member, below x member⟩) fun x member => ⟨x, member, below x member⟩
    | inst i => exact .inst (carried i (by simp [Ty.carried]))
    | literal l => exact .literal (literal l rfl)
    | classObject item => exact .classObject (below item (by simp [Ty.children]))
    | star item => exact .star (below item (by simp [Ty.children]))
    | argument item => exact .argument (below item (by simp [Ty.children]))
    | forward => exact .forward (forall₂_refl_of below)
    | bracketed => exact .bracketed (forall₂_refl_of below)
    | named => exact .named rfl (forall₂_refl_of below) rfl rfl rfl rfl
    | typeVar => exact .typeVar rfl rfl
    | any | noneType | never | deleted | ellipsis | scalar => constructor
  inst i args known := by
    refine Instance.beq_iff.2 ⟨rfl, forall₂_refl_of args, ?_⟩
    cases atKnown : i.lastKnown with
    | none => exact .none
    | some l => exact .some (known l atKnown)
  literal l fallback := Literal.beq_iff.2 ⟨rfl, fallback⟩

theorem symm : EqualitySteps (fun a => ∀ b : Ty, a.beq b = true → b.beq a = true)
    (fun i => ∀ j : Instance, i.beq j = true → j.beq i = true)
    fun l => ∀ k : Literal, l.beq k = true → k.beq l = true where
  type a below carried literal b equal := by
    refine Ty.Matches.beq ?_
    cases Ty.matches_of_beq equal with
    | tuple items fallback => exact .tuple (forall₂_symm_of below items) (carried _ (by simp [Ty.carried]) _ fallback)
    | record sameLength within among required fallback =>
      refine .record sameLength.symm ?_ ?_ required.symm (carried _ (by simp [Ty.carried]) _ fallback)
      · intro y member
        obtain ⟨x, atSource, key, equal⟩ := among y member
        exact ⟨x, atSource, key.symm, below x.2 (List.mem_map_of_mem atSource) y.2 equal⟩
      · intro x member
        obtain ⟨y, atTarget, key, equal⟩ := within x member
        exact ⟨y, atTarget, key.symm, below x.2 (List.mem_map_of_mem member) y.2 equal⟩
    | callable args kinds names ret anyArgs =>
      exact .callable (forall₂_symm_of (fun x member => below x (List.mem_append_left _ member)) args) kinds.symm
        names.symm (below _ (List.mem_append_right _ (List.mem_singleton_self _)) _ ret) anyArgs.symm
    | union sameLength within among =>
      refine .union sameLength.symm ?_ ?_
      · intro y member
        obtain ⟨x, atSource, equal⟩ := among y member
        exact ⟨x, atSource, below x atSource y equal⟩
      · intro x member
        obtain ⟨y, atTarget, equal⟩ := within x member
        exact ⟨y, atTarget, below x member y equal⟩
    | inst equal => exact .inst (carried _ (by simp [Ty.carried]) _ equal)
    | literal equal => exact .literal (literal _ rfl _ equal)
    | classObject equal => exact .classObject (below _ (by simp [Ty.children]) _ equal)
    | star equal => exact .star (below _ (by simp [Ty.children]) _ equal)
    | argument item => exact .argument (below _ (by simp [Ty.children]) _ item)
    | forward args => exact .forward (forall₂_symm_of below args)
    | bracketed items => exact .bracketed (forall₂_symm_of below items)
    | named name args optional emptyTuple quoted quotedClass =>
      exact .named name.symm (forall₂_symm_of below args) optional.symm emptyTuple.symm quoted.symm quotedClass.symm
    | typeVar id fullname => exact .typeVar id.symm fullname.symm
    | any | noneType | never | deleted | ellipsis | scalar => constructor
  inst i args known j equal := by
    obtain ⟨head, equalArgs, equalKnown⟩ := Instance.beq_iff.1 equal
    refine Instance.beq_iff.2 ⟨head.symm, forall₂_symm_of args equalArgs, ?_⟩
    generalize i.lastKnown = source, j.lastKnown = target at known equalKnown
    cases equalKnown with
    | none => exact .none
    | some equal => exact .some (known _ rfl _ equal)
  literal l fallback k equal := by
    obtain ⟨value, equalFallback⟩ := Literal.beq_iff.1 equal
    exact Literal.beq_iff.2 ⟨value.symm, fallback _ equalFallback⟩

theorem trans : EqualitySteps (fun a => ∀ b c : Ty, a.beq b = true → b.beq c = true → a.beq c = true)
    (fun i => ∀ j k : Instance, i.beq j = true → j.beq k = true → i.beq k = true)
    fun l => ∀ m n : Literal, l.beq m = true → m.beq n = true → l.beq n = true where
  type a below carried literal b c first second := by
    have second := Ty.matches_of_beq second
    refine Ty.Matches.beq ?_
    cases Ty.matches_of_beq first with
    | tuple items fallback =>
      cases second with
      | tuple items' fallback' =>
        exact .tuple (forall₂_trans_of below items items') (carried _ (by simp [Ty.carried]) _ _ fallback fallback')
    | record sameLength within among required fallback =>
      cases second with
      | record sameLength' within' among' required' fallback' =>
        refine .record (sameLength.trans sameLength') (exists_trans_of ?_ within within') (exists_back_trans_of ?_ among among')
          (required.trans required') (carried _ (by simp [Ty.carried]) _ _ fallback fallback')
        · exact fun x member y z first second =>
            ⟨first.1.trans second.1, below x.2 (List.mem_map_of_mem member) _ _ first.2 second.2⟩
        · exact fun x member y z first second =>
            ⟨first.1.trans second.1, below x.2 (List.mem_map_of_mem member) _ _ first.2 second.2⟩
    | callable args kinds names ret anyArgs =>
      cases second with
      | callable args' kinds' names' ret' anyArgs' =>
        exact .callable (forall₂_trans_of (fun x member => below x (List.mem_append_left _ member)) args args')
          (kinds.trans kinds') (names.trans names')
          (below _ (List.mem_append_right _ (List.mem_singleton_self _)) _ _ ret ret') (anyArgs.trans anyArgs')
    | union sameLength within among =>
      cases second with
      | union sameLength' within' among' =>
        exact .union (sameLength.trans sameLength') (exists_trans_of below within within')
          (exists_back_trans_of below among among')
    | inst equal =>
      cases second with
      | inst equal' => exact .inst (carried _ (by simp [Ty.carried]) _ _ equal equal')
    | literal equal =>
      cases second with
      | literal equal' => exact .literal (literal _ rfl _ _ equal equal')
    | classObject equal =>
      cases second with
      | classObject equal' => exact .classObject (below _ (by simp [Ty.children]) _ _ equal equal')
    | star equal =>
      cases second with
      | star equal' => exact .star (below _ (by simp [Ty.children]) _ _ equal equal')
    | argument equal =>
      cases second with
      | argument equal' => exact .argument (below _ (by simp [Ty.children]) _ _ equal equal')
    | forward args =>
      cases second with
      | forward args' => exact .forward (forall₂_trans_of below args args')
    | bracketed items =>
      cases second with
      | bracketed items' => exact .bracketed (forall₂_trans_of below items items')
    | named name args optional emptyTuple quoted quotedClass =>
      cases second with
      | named name' args' optional' emptyTuple' quoted' quotedClass' =>
        exact .named (name.trans name') (forall₂_trans_of below args args') (optional.trans optional')
          (emptyTuple.trans emptyTuple') (quoted.trans quoted') (quotedClass.trans quotedClass')
    | typeVar id fullname =>
      cases second with
      | typeVar id' fullname' => exact .typeVar (id.trans id') (fullname.trans fullname')
    | any | noneType | never | deleted | ellipsis | scalar =>
      cases second
      constructor
  inst i args known j k first second := by
    obtain ⟨head, equalArgs, equalKnown⟩ := Instance.beq_iff.1 first
    obtain ⟨head', equalArgs', equalKnown'⟩ := Instance.beq_iff.1 second
    refine Instance.beq_iff.2 ⟨head.trans head', forall₂_trans_of args equalArgs equalArgs', ?_⟩
    generalize i.lastKnown = source, j.lastKnown = middle, k.lastKnown = target at known equalKnown equalKnown'
    cases equalKnown with
    | none =>
      cases equalKnown'
      exact .none
    | some equal =>
      cases equalKnown' with
      | some equal' => exact .some (known _ rfl _ _ equal equal')
  literal l fallback m n first second := by
    obtain ⟨value, equalFallback⟩ := Literal.beq_iff.1 first
    obtain ⟨value', equalFallback'⟩ := Literal.beq_iff.1 second
    exact Literal.beq_iff.2 ⟨value.trans value', fallback _ _ equalFallback equalFallback'⟩

end EqualitySteps

/-- Equality of types is an equivalence. -/
instance : EquivBEq Ty where
  rfl {t} := EqualitySteps.refl.onType t
  symm {a b} equal := EqualitySteps.symm.onType a b equal
  trans {a b c} first second := EqualitySteps.trans.onType a b c first second

/-- Each child of a type equals a child of any type that equals it. -/
theorem Ty.child_of_beq {a b : Ty} (equal : a.beq b = true) {d : Ty} (member : d ∈ b.children) :
    ∃ c ∈ a.children, c.beq d = true := by
  have source {xs ys : List Ty} (related : List.Forall₂ (fun x y => x.beq y = true) xs ys) (atTarget : d ∈ ys) :
      ∃ c ∈ xs, c.beq d = true := by
    induction related with
    | nil => cases atTarget
    | @cons x y xs ys here _ ih =>
      rcases List.mem_cons.1 atTarget with rfl | atTarget
      · exact ⟨x, List.mem_cons_self, here⟩
      · obtain ⟨c, atSource, equal⟩ := ih atTarget
        exact ⟨c, List.mem_cons_of_mem x atSource, equal⟩
  cases Ty.matches_of_beq equal with
  | inst equal => exact source (Instance.beq_iff.1 equal).2.1 member
  | tuple items => exact source items member
  | record _ _ among =>
    obtain ⟨y, atField, rfl⟩ := List.mem_map.1 member
    obtain ⟨x, atSource, _, equal⟩ := among y atField
    exact ⟨x.2, List.mem_map_of_mem atSource, equal⟩
  | callable args _ _ ret =>
    rcases List.mem_append.1 member with member | member
    · obtain ⟨c, atSource, equal⟩ := source args member
      exact ⟨c, List.mem_append_left _ atSource, equal⟩
    · rw [List.mem_singleton.1 member]
      exact ⟨_, List.mem_append_right _ (List.mem_singleton_self _), ret⟩
  | union _ _ among => exact among d member
  | classObject item | star item | argument item =>
    rw [List.mem_singleton.1 member]
    exact ⟨_, List.mem_singleton_self _, item⟩
  | forward args => exact source args member
  | named _ args => exact source args member
  | bracketed items => exact source items member
  | any | noneType | never | deleted | typeVar | literal | ellipsis | scalar => cases member

end TypeResolution
