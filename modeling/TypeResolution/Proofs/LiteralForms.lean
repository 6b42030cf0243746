import TypeResolution.Proofs.ThroughoutRule

namespace TypeResolution

/-- A type is no reference with the suffix `?`. -/
def Ty.NotOptional : Ty → Prop
  | .named ref => ref.optional = false
  | _ => True

namespace Resolver

variable {r : Resolver}

/-- The name stands for the form whose arguments are read as literals. -/
def isLiteralForm (r : Resolver) (ref : Reference) : Bool :=
  (r.table.lookup ref.name).any fun symbol => literalNames.contains symbol.fullname

/-- If a type is a literal form, then nothing inside it has the suffix `?`. -/
def LiteralSafe (r : Resolver) : Ty → Prop
  | .named ref => r.isLiteralForm ref → ∀ c ∈ ref.args, c.Everywhere Ty.NotOptional
  | _ => True

/-- Nothing has the suffix `?` inside of any literal form that resolving the type may come to. -/
abbrev Safe (r : Resolver) : Ty → Prop := Ty.Throughout r.LiteralSafe

/-- A type that is no reference, and whose variables have values and bounds that may be resolved. -/
structure Filled (r : Resolver) (t : Ty) : Prop where
  notNamed (ref : Reference) : t ≠ .named ref
  values {binding : TypeVarBinding} : binding ∈ t.declared → ∀ v ∈ binding.values, r.Safe v
  upperBound {binding : TypeVarBinding} : binding ∈ t.declared → r.Safe binding.upperBound

/-- What is asked of a table: there are no references in the targets of aliases, those to the formals apart, and nothing
has the suffix `?` inside of a literal form in the base of a class or in the values or the bound of a type variable. -/
structure SafeTable (r : Resolver) : Prop where
  target {decl : AliasDecl} : r.table.Holds (.aliasDef decl) → decl.TargetAllows r.Filled
  tupleBase {decl : ClassDecl} {base : TupleShape} : r.table.Holds (.classDef decl) → decl.tupleBase = some base →
    ∀ t ∈ base.items, r.Safe t
  recordBase {decl : ClassDecl} {base : RecordShape} : r.table.Holds (.classDef decl) → decl.recordBase = some base →
    ∀ field ∈ base.fields, r.Safe field.2
  values {decl : TypeVarDecl} : r.table.Holds (.typeVarDef decl) → ∀ v ∈ decl.values, r.Safe v
  upperBound {decl : TypeVarDecl} : r.table.Holds (.typeVarDef decl) → r.Safe decl.upperBound

/-- A reference, without the suffix `?`, to something that is no type. -/
structure NamesNoType (r : Resolver) (ref : Reference) : Prop where
  plain : ref.optional = false
  noType : ∃ symbol d, r.table.lookup ref.name = some symbol ∧ SpecialForm.ofName? symbol.fullname = none ∧
    symbol.definition = some d ∧ d.isNoType

theorem isLiteralForm_eq_false {ref : Reference} {symbol : Symbol} (found : r.table.lookup ref.name = some symbol)
    (plain : SpecialForm.ofName? symbol.fullname = none) : r.isLiteralForm ref = false := by
  unfold isLiteralForm
  rw [found, Option.any_some]
  by_contra literal
  have member : symbol.fullname ∈ literalNames := by simpa using literal
  have forms : ∀ name ∈ literalNames, SpecialForm.ofName? name ≠ none := by decide
  exact forms _ member plain

theorem isLiteralForm_of_form {ref : Reference} {symbol : Symbol} (found : r.table.lookup ref.name = some symbol)
    (isForm : SpecialForm.ofName? symbol.fullname = some .literal) : r.isLiteralForm ref := by
  obtain ⟨entry, atName, isLiteral⟩ := Option.map_eq_some_iff.1 isForm
  have named : entry.1 = symbol.fullname := by simpa using List.find?_some atName
  have forms : ∀ entry ∈ SpecialForm.names, entry.2 = .literal → literalNames.contains entry.1 := by decide
  unfold isLiteralForm
  rw [found, Option.any_some, ← named]
  exact forms entry (List.mem_of_find?_eq_some atName) isLiteral

theorem SafeTable.throughout (table : r.SafeTable) :
    r.TableThroughout (fun t => ∀ ref, t ≠ .named ref) r.LiteralSafe where
  target holds x reached :=
    (table.target holds x reached).imp_left fun filled => ⟨filled.notNamed, ⟨filled.values, filled.upperBound⟩⟩
  tupleBase := table.tupleBase
  recordBase := table.recordBase
  values := table.values
  upperBound := table.upperBound

end Resolver

end TypeResolution
