import Mathlib.Data.ENat.Basic
import TypeResolution.Proofs.LiteralForms

namespace TypeResolution

theorem SymbolTable.weight_le_of_holds {table : SymbolTable} {d : Definition} (holds : table.Holds d) :
    d.weight ≤ table.weight := by
  obtain ⟨fullname, symbol, found, defined⟩ := holds
  obtain ⟨entry, atName, rfl⟩ := Option.map_eq_some_iff.1 found
  have member : entry.2 ∈ table.symbols.values := List.mem_map_of_mem (List.mem_of_find?_eq_some atName)
  unfold weight
  generalize table.symbols.values = symbols at member ⊢
  induction symbols with
  | nil => cases member
  | cons s rest ih =>
    rw [List.foldr_cons]
    rcases List.mem_cons.1 member with same | member
    · rw [← same, defined]
      exact Nat.le_add_right _ _
    · exact Nat.le_trans (ih member) (Nat.le_add_left _ _)

theorem ClassDecl.weight_tupleBase_le {decl : ClassDecl} {base : TupleShape} (atBase : decl.tupleBase = some base) {t : Ty}
    (member : t ∈ base.items) : t.weight ≤ decl.weight := by
  have lighter : t.weight < (Ty.tuple base).weight := Ty.weight_child_lt member
  rw [weight, atBase, Option.map_some, Option.getD_some]
  omega

theorem ClassDecl.weight_recordBase_le {decl : ClassDecl} {base : RecordShape} (atBase : decl.recordBase = some base)
    {field : String × Ty} (member : field ∈ base.fields) : field.2.weight ≤ decl.weight := by
  have lighter : field.2.weight < (Ty.record base).weight := Ty.weight_child_lt (List.mem_map_of_mem member)
  rw [weight, atBase, Option.map_some, Option.getD_some]
  omega

namespace Resolver

variable {r : Resolver} {heaviest : ℕ∞}

/-- A name of what is no type has no arguments, if there is to be a heaviest type: resolution keeps such a name with what
its arguments are resolved to, which may be heavier than they are. -/
def BareName (r : Resolver) (heaviest : ℕ∞) : Ty → Prop
  | .named ref => heaviest ≠ ⊤ → r.NamesNoType ref → ref.args = []
  | _ => True

/-- What stands in a literal form. -/
structure InLiteral (r : Resolver) (heaviest : ℕ∞) (t : Ty) : Prop where
  notOptional : t.NotOptional
  bare : r.BareName heaviest t

/-- If a type is a literal form, then what stands in it fits. -/
def LiteralFits (r : Resolver) (heaviest : ℕ∞) : Ty → Prop
  | .named ref => r.isLiteralForm ref → ∀ c ∈ ref.args, c.Everywhere (r.InLiteral heaviest)
  | _ => True

/-- A type that is not too heavy, with nothing but what fits inside of any literal form that resolving it may come to. -/
structure Light (r : Resolver) (heaviest : ℕ∞) (t : Ty) : Prop where
  fits : t.Throughout (r.LiteralFits heaviest)
  weight : t.weight ≤ heaviest

/-- What is asked of a table so that all that is read in it is light. -/
structure LightTable (r : Resolver) (heaviest : ℕ∞) : Prop where
  fits : r.TableThroughout (fun t => ∀ ref, t ≠ .named ref) (r.LiteralFits heaviest)
  weight : r.table.weight ≤ heaviest

theorem literalFits_asks (r : Resolver) (heaviest : ℕ∞) :
    r.AsksOfReferences (fun t => ∀ ref, t ≠ .named ref) (r.LiteralFits heaviest) where
  other notNamed := notNamed
  enough {t} notNamed := by
    cases t <;> first | trivial | exact absurd rfl (notNamed _)
  rebuilt {t} cs notNamed ref same := by
    cases t <;> first | exact notNamed _ rfl | cases same
  move {t} pos here := by
    cases t <;> exact here
  name {ref symbol} args _ found plain literal := by
    have notLiteral : r.isLiteralForm (ref.withArgs args) = false := isLiteralForm_eq_false found plain
    rw [notLiteral] at literal
    cases literal

/-- What is resolved fits where what it is resolved from does. -/
theorem rule_fits (table : r.LightTable heaviest) :
    r.Rule (fun _ t => t.Throughout (r.LiteralFits heaviest)) fun _ _ t => t.Throughout (r.LiteralFits heaviest) :=
  rule_throughout (literalFits_asks r heaviest) table.fits

/-! Where no limit is set to the weight of types, every type that may be resolved is light. -/

theorem inLiteral_of_notOptional {t : Ty} (plain : t.Everywhere Ty.NotOptional) : t.Everywhere (r.InLiteral ⊤) := by
  refine plain.imp fun x notOptional => ⟨notOptional, ?_⟩
  cases x with
  | named => exact fun limited => absurd rfl limited
  | _ => trivial

theorem literalFits_of_safe (t : Ty) (safe : r.LiteralSafe t) : r.LiteralFits ⊤ t := by
  cases t with
  | named ref => exact fun isForm c member => inLiteral_of_notOptional (safe isForm c member)
  | _ => trivial

theorem light_of_safe {t : Ty} (safe : r.Safe t) : r.Light ⊤ t := ⟨safe.imp literalFits_of_safe, le_top⟩

theorem SafeTable.light (table : r.SafeTable) : r.LightTable ⊤ := ⟨table.throughout.imp literalFits_of_safe, le_top⟩

namespace Light

variable {t : Ty}

theorem of_lighter {u : Ty} (light : r.Light heaviest t) (lighter : u.weight < t.weight)
    (fits : u.Throughout (r.LiteralFits heaviest)) : r.Light heaviest u :=
  ⟨fits, (Nat.cast_le.2 (Nat.le_of_lt lighter)).trans light.weight⟩

theorem child (light : r.Light heaviest t) {c : Ty} (member : c ∈ t.children) : r.Light heaviest c :=
  light.of_lighter (Ty.weight_child_lt member) (light.fits.child member)

theorem value (light : r.Light heaviest t) {binding : TypeVarBinding} (declares : binding ∈ t.declared) {v : Ty}
    (member : v ∈ binding.values) : r.Light heaviest v :=
  light.of_lighter (Ty.weight_value_lt declares member) (light.fits.part (Ty.part_of_value declares member))

theorem upperBound (light : r.Light heaviest t) {binding : TypeVarBinding} (declares : binding ∈ t.declared) :
    r.Light heaviest binding.upperBound :=
  light.of_lighter (Ty.weight_upperBound_lt declares) (light.fits.part (Ty.part_of_upperBound declares))

/-- The arguments and the result of a callable that is written as `Callable` are as light as it is. -/
theorem form {ref : Reference} (light : r.Light heaviest (.named ref)) {signature : Signature}
    (read : r.formSignature? ref = some signature) : ∀ c ∈ (Ty.callable signature).children, r.Light heaviest c := by
  have any (t : Ty) (isAny : t.isAny) : r.Light heaviest t := by
    refine ⟨throughout_of_leaf (Ty.children_of_isAny isAny) ?_ ?_, le_trans (Nat.cast_le.2 ?_) light.weight⟩
    · cases t <;> first | rfl | cases isAny
    · cases t <;> trivial
    · have atLeast : 0 < (Ty.named ref).weight := Nat.zero_lt_of_lt (Ty.weight_parts_lt _)
      cases t <;> first | exact atLeast | cases isAny
  exact formSignature?_parts read any (fun _ _ atList _ member => atList.child member)
    (fun _ _ _ _ atArgument => atArgument.child (List.mem_singleton_self _)) fun _ member => light.child member

end Light

namespace LightTable

variable (table : r.LightTable heaviest)

include table

theorem light {d : Definition} (holds : r.table.Holds d) {t : Ty} (lighter : t.weight ≤ d.weight)
    (fits : t.Throughout (r.LiteralFits heaviest)) : r.Light heaviest t :=
  ⟨fits, (Nat.cast_le.2 (lighter.trans (SymbolTable.weight_le_of_holds holds))).trans table.weight⟩

theorem tupleBase {decl : ClassDecl} {base : TupleShape} (holds : r.table.Holds (.classDef decl))
    (atBase : decl.tupleBase = some base) : ∀ t ∈ base.items, r.Light heaviest t := fun t member =>
  table.light holds ((decl.weight_tupleBase_le atBase member).trans (Nat.le_succ _)) (table.fits.tupleBase holds atBase t member)

theorem recordBase {decl : ClassDecl} {base : RecordShape} (holds : r.table.Holds (.classDef decl))
    (atBase : decl.recordBase = some base) : ∀ field ∈ base.fields, r.Light heaviest field.2 := fun field member =>
  table.light holds ((decl.weight_recordBase_le atBase member).trans (Nat.le_succ _))
    (table.fits.recordBase holds atBase field member)

/-- The variables of a signature, declared or inferred, have light values and bounds. -/
theorem innerBindings {s : Scope} {signature : Signature}
    (declares : ∀ binding ∈ signature.bindings, (∀ v ∈ binding.values, r.Light heaviest v) ∧ r.Light heaviest binding.upperBound)
    {binding : TypeVarBinding} (member : binding ∈ r.innerBindings s signature) :
    (∀ v ∈ binding.values, r.Light heaviest v) ∧ r.Light heaviest binding.upperBound := by
  rcases innerBindings_source member with declared | ⟨decl, holds, values, upperBound⟩
  · exact declares binding declared
  · have weight : (Definition.typeVarDef decl).weight = Ty.weightAll decl.values + decl.upperBound.weight + 1 := rfl
    rw [values, upperBound]
    refine ⟨fun v atValue => table.light holds ?_ (table.fits.values holds v atValue),
      table.light holds ?_ (table.fits.upperBound holds)⟩
    · have lighter := Ty.weight_le_weightAll atValue
      omega
    · omega

end LightTable

end Resolver

end TypeResolution
