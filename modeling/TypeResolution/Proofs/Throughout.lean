import TypeResolution.Proofs.Inside
import TypeResolution.Ty.Weight

namespace TypeResolution

namespace Ty

/-- The variables that a type declares for the types inside it. -/
def declared : Ty → List TypeVarBinding
  | .callable s => s.bindings
  | _ => []

theorem declared_withPos (t : Ty) (pos : Position) : (t.withPos pos).declared = t.declared := by
  cases t <;> rfl

theorem declared_withChildren (t : Ty) (cs : List Ty) : (t.withChildren cs).declared = t.declared := by
  cases t <;> rfl

/-- The types that resolving a type goes into: its children, and the values and bounds of the variables that it
declares. -/
def parts (t : Ty) : List Ty := t.children ++ t.declared.flatMap fun binding => binding.values ++ [binding.upperBound]

theorem part_of_child {t c : Ty} (member : c ∈ t.children) : c ∈ t.parts := List.mem_append_left _ member

theorem part_of_value {t v : Ty} {binding : TypeVarBinding} (declares : binding ∈ t.declared)
    (member : v ∈ binding.values) : v ∈ t.parts :=
  List.mem_append_right _ (List.mem_flatMap.2 ⟨binding, declares, List.mem_append_left _ member⟩)

theorem part_of_upperBound {t : Ty} {binding : TypeVarBinding} (declares : binding ∈ t.declared) :
    binding.upperBound ∈ t.parts :=
  List.mem_append_right _ (List.mem_flatMap.2 ⟨binding, declares, List.mem_append_right _ (List.mem_singleton_self _)⟩)

/-! A type weighs more than its parts. -/

theorem weight_le_weightAll {ts : List Ty} {t : Ty} (member : t ∈ ts) : t.weight ≤ weightAll ts := by
  induction ts with
  | nil => cases member
  | cons t' ts ih =>
    rw [weightAll]
    rcases List.mem_cons.1 member with rfl | member
    · omega
    · have below := ih member
      omega

theorem weight_le_weightAll_bindings {bindings : List TypeVarBinding} {binding : TypeVarBinding}
    (member : binding ∈ bindings) : binding.weight ≤ TypeVarBinding.weightAll bindings := by
  induction bindings with
  | nil => cases member
  | cons binding' bindings ih =>
    rw [TypeVarBinding.weightAll]
    rcases List.mem_cons.1 member with rfl | member
    · omega
    · have below := ih member
      omega

theorem weightAll_append (ts us : List Ty) : weightAll (ts ++ us) = weightAll ts + weightAll us := by
  induction ts with
  | nil => simp [weightAll]
  | cons t ts ih =>
    simp only [List.cons_append, weightAll, ih]
    omega

theorem weightFields_eq (fields : List (String × Ty)) : weightFields fields = weightAll (fields.map Prod.snd) := by
  induction fields with
  | nil => rfl
  | cons field fields ih => simp [weightFields, weightAll, ih]

theorem weight_parts_lt (t : Ty) : weightAll t.children + TypeVarBinding.weightAll t.declared < t.weight := by
  cases t with
  | inst i =>
    cases i
    simp only [children, declared, weight, Instance.weight, TypeVarBinding.weightAll]
    omega
  | tuple shape =>
    cases shape
    simp only [children, declared, weight, TypeVarBinding.weightAll]
    omega
  | record shape =>
    cases shape
    simp only [children, declared, weight, weightFields_eq, TypeVarBinding.weightAll]
    omega
  | callable s =>
    cases s
    simp only [children, declared, weight, weightAll_append, weightAll]
    omega
  | named ref =>
    cases ref
    simp only [children, declared, weight, TypeVarBinding.weightAll]
    omega
  | literal l =>
    obtain ⟨value, ⟨head, args, invalid, lastKnown, at_⟩, pos⟩ := l
    simp only [children, declared, weight, Literal.weight, weightAll, TypeVarBinding.weightAll]
    omega
  | _ =>
    simp only [children, declared, weight, weightAll, TypeVarBinding.weightAll]
    omega

theorem weight_child_lt {t c : Ty} (member : c ∈ t.children) : c.weight < t.weight := by
  have below := weight_le_weightAll member
  have all := weight_parts_lt t
  omega

theorem weight_value_lt {t v : Ty} {binding : TypeVarBinding} (declares : binding ∈ t.declared)
    (member : v ∈ binding.values) : v.weight < t.weight := by
  have inBinding := weight_le_weightAll member
  have below := weight_le_weightAll_bindings declares
  have all := weight_parts_lt t
  obtain ⟨name, fullname, id, values, upperBound, variance, pos⟩ := binding
  rw [TypeVarBinding.weight] at below
  dsimp only at inBinding
  omega

theorem weight_upperBound_lt {t : Ty} {binding : TypeVarBinding} (declares : binding ∈ t.declared) :
    binding.upperBound.weight < t.weight := by
  have below := weight_le_weightAll_bindings declares
  have all := weight_parts_lt t
  obtain ⟨name, fullname, id, values, upperBound, variance, pos⟩ := binding
  rw [TypeVarBinding.weight] at below
  dsimp only
  omega

/-- `P` holds of a type and, again and again, of its parts. -/
inductive Throughout (P : Ty → Prop) : Ty → Prop
  | of {t : Ty} : P t → (∀ c ∈ t.parts, Throughout P c) → Throughout P t

variable {P : Ty → Prop} {t : Ty}

theorem Throughout.root (all : t.Throughout P) : P t := by
  cases all with
  | of atRoot _ => exact atRoot

theorem Throughout.part (all : t.Throughout P) {c : Ty} (member : c ∈ t.parts) : c.Throughout P := by
  cases all with
  | of _ below => exact below c member

theorem Throughout.child (all : t.Throughout P) {c : Ty} (member : c ∈ t.children) : c.Throughout P :=
  all.part (part_of_child member)

theorem Throughout.imp {Q : Ty → Prop} (weaken : ∀ t, P t → Q t) (all : t.Throughout P) : t.Throughout Q := by
  induction all with
  | of here _ ih => exact .of (weaken _ here) ih

end Ty

end TypeResolution
