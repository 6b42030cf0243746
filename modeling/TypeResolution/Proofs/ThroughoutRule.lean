import TypeResolution.Proofs.Inherited
import TypeResolution.Proofs.InferredVariables
import TypeResolution.Proofs.Throughout

namespace TypeResolution

namespace Resolver

variable {r : Resolver} {Q P : Ty → Prop}

/-- `P` asks something of references only, and `Q` as much or more, whatever their arguments are. -/
structure AsksOfReferences (r : Resolver) (Q P : Ty → Prop) : Prop where
  other {t : Ty} : (∀ ref, t ≠ .named ref) → Q t
  enough {t : Ty} : Q t → P t
  rebuilt {t : Ty} (cs : List Ty) : Q t → Q (t.withChildren cs)
  move {t : Ty} (pos : Position) : P t → P (t.withPos pos)
  name {ref : Reference} {symbol : Symbol} (args : List Ty) : P (.named ref) → r.table.lookup ref.name = some symbol →
    SpecialForm.ofName? symbol.fullname = none → P (.named (ref.withArgs args))

/-- `P` holds throughout the values and the bounds of the variables that a type declares. -/
structure DeclaresThroughout (P : Ty → Prop) (t : Ty) : Prop where
  values {binding : TypeVarBinding} : binding ∈ t.declared → ∀ v ∈ binding.values, v.Throughout P
  upperBound {binding : TypeVarBinding} : binding ∈ t.declared → binding.upperBound.Throughout P

/-- `P` holds throughout all that resolution reads in a table, and the targets of aliases are as `Q` asks, formals apart. -/
structure TableThroughout (r : Resolver) (Q P : Ty → Prop) : Prop where
  target {decl : AliasDecl} : r.table.Holds (.aliasDef decl) → decl.TargetAllows fun t => Q t ∧ DeclaresThroughout P t
  tupleBase {decl : ClassDecl} {base : TupleShape} : r.table.Holds (.classDef decl) → decl.tupleBase = some base →
    ∀ t ∈ base.items, t.Throughout P
  recordBase {decl : ClassDecl} {base : RecordShape} : r.table.Holds (.classDef decl) → decl.recordBase = some base →
    ∀ field ∈ base.fields, field.2.Throughout P
  values {decl : TypeVarDecl} : r.table.Holds (.typeVarDef decl) → ∀ v ∈ decl.values, v.Throughout P
  upperBound {decl : TypeVarDecl} : r.table.Holds (.typeVarDef decl) → decl.upperBound.Throughout P

theorem DeclaresThroughout.imp {P' : Ty → Prop} (weaken : ∀ t, P t → P' t) {t : Ty} (all : DeclaresThroughout P t) :
    DeclaresThroughout P' t :=
  ⟨fun declared v member => (all.values declared v member).imp weaken, fun declared => (all.upperBound declared).imp weaken⟩

theorem TableThroughout.imp {P' : Ty → Prop} (weaken : ∀ t, P t → P' t) (table : r.TableThroughout Q P) :
    r.TableThroughout Q P' where
  target holds := (table.target holds).imp fun _ allows => allows.imp_left fun all => ⟨all.1, all.2.imp weaken⟩
  tupleBase holds atBase t member := (table.tupleBase holds atBase t member).imp weaken
  recordBase holds atBase field member := (table.recordBase holds atBase field member).imp weaken
  values holds v member := (table.values holds v member).imp weaken
  upperBound holds := (table.upperBound holds).imp weaken

theorem declaresThroughout_of_undeclared {t : Ty} (undeclared : t.declared = []) : DeclaresThroughout P t := by
  constructor
  · intro binding declares
    rw [undeclared] at declares
    cases declares
  · intro binding declares
    rw [undeclared] at declares
    cases declares

theorem throughout_of_node {t : Ty} (here : P t) (declares : DeclaresThroughout P t)
    (all : ∀ c ∈ t.children, c.Throughout P) : t.Throughout P := by
  refine .of here fun c member => ?_
  rcases List.mem_append.1 member with atChild | atDeclared
  · exact all c atChild
  · obtain ⟨binding, atBinding, member⟩ := List.mem_flatMap.1 atDeclared
    rcases List.mem_append.1 member with atValue | atBound
    · exact declares.values atBinding c atValue
    · rw [List.mem_singleton.1 atBound]
      exact declares.upperBound atBinding

theorem throughout_of_leaf {t : Ty} (leaf : t.children = []) (undeclared : t.declared = []) (here : P t) : t.Throughout P :=
  throughout_of_node here (declaresThroughout_of_undeclared undeclared) (by simp [leaf])

theorem declaresThroughout_of_throughout {t : Ty} (all : t.Throughout P) : DeclaresThroughout P t :=
  ⟨fun declared _ atValue => all.part (Ty.part_of_value declared atValue),
    fun declared => all.part (Ty.part_of_upperBound declared)⟩

/-- The variables of a signature, inside of it, are those that it declares, or those that it uses, as the table has them. -/
theorem innerBindings_source {s : Scope} {signature : Signature} {binding : TypeVarBinding}
    (member : binding ∈ r.innerBindings s signature) :
    binding ∈ signature.bindings ∨
      ∃ decl, r.table.Holds (.typeVarDef decl) ∧ binding.values = decl.values ∧ binding.upperBound = decl.upperBound := by
  unfold innerBindings at member
  split at member
  · exact .inl member
  · unfold Scope.bindSignature at member
    split at member
    · obtain ⟨use, atUse, s', rfl⟩ := Scope.mem_bindings_bindUses member
      exact .inr ⟨use.2, SymbolTable.holds_of_lookupTypeVar? (freeUse_of_mem_inferTypeVariables atUse).named, rfl, rfl⟩
    · exact .inl member

section Rule

variable (asks : r.AsksOfReferences Q P) (table : r.TableThroughout Q P)

include table

theorem innerBindings_throughout {s : Scope} {signature : Signature} (declares : DeclaresThroughout P (.callable signature))
    {binding : TypeVarBinding} (member : binding ∈ r.innerBindings s signature) :
    (∀ v ∈ binding.values, v.Throughout P) ∧ binding.upperBound.Throughout P := by
  rcases innerBindings_source member with declared | ⟨decl, holds, values, upperBound⟩
  · exact ⟨declares.values declared, declares.upperBound declared⟩
  · rw [values, upperBound]
    exact ⟨table.values holds, table.upperBound holds⟩

omit table

include asks

theorem throughout_inherited : Ty.Inherited (fun t => Q t ∧ DeclaresThroughout P t) (Ty.Throughout P) where
  composed {t} composed := by
    refine ⟨asks.other ?_, declaresThroughout_of_undeclared ?_⟩
    · rintro ref rfl
      cases composed
    · cases t <;> first | rfl | cases composed
  rebuilt {t} cs _ here := by
    refine ⟨asks.rebuilt cs here.1, ⟨fun declares => ?_, fun declares => ?_⟩⟩
    · rw [Ty.declared_withChildren] at declares
      exact here.2.values declares
    · rw [Ty.declared_withChildren] at declares
      exact here.2.upperBound declares
  node here all := throughout_of_node (asks.enough here.1) here.2 all
  part _ all member := all.child member
  move {t} pos all := by
    have sameParts : (t.withPos pos).parts = t.parts := by
      rw [Ty.parts, Ty.children_withPos, Ty.declared_withPos, Ty.parts]
    refine .of (asks.move pos all.root) fun c member => ?_
    rw [sameParts] at member
    exact all.part member

include table

theorem reads_throughout : r.ReadsBases fun _ t => t.Throughout P where
  children _ all _ member := all.child member
  signature all _ member := all.child member
  form {s ref symbol signature} all found isForm read := by
    have inArgs : ∀ c ∈ (Ty.callable signature).children, c.Throughout P :=
      formSignature?_parts read (fun t isAny => (throughout_inherited asks).any isAny)
        (fun _ _ atList _ member => atList.child member)
        (fun _ _ _ _ atArgument => atArgument.child (List.mem_singleton_self _)) fun _ member => all.child member
    have undeclared : (Ty.callable signature).declared = [] := formSignature?_bindings read
    exact throughout_of_node (asks.enough (asks.other nofun)) (declaresThroughout_of_undeclared undeclared) inArgs
  args all _ _ _ member := all.child member
  forward all _ _ member := all.child member
  tupleBase holds _ atBase := table.tupleBase holds atBase
  recordBase holds _ atBase := table.recordBase holds atBase

/-- What is asked throughout an expression holds throughout what it is resolved to. -/
theorem rule_throughout : r.Rule (fun _ t => t.Throughout P) fun _ _ t => t.Throughout P := by
  have other {t : Ty} (notNamed : ∀ ref, t ≠ .named ref) : P t := asks.enough (asks.other notNamed)
  refine .ofInherited (fun _ _ => throughout_inherited asks) (reads_throughout asks table)
    (fun _ uses => table.target uses.holds) ?_ ?_ ?_ ?_ ?_ ?_ ?_ ?_
  · intro p p' q q' t _ _ _ all
    exact all
  · intro p q t _ all
    exact all
  · intro p q fullname args pos all _ _ _
    exact all
  · intro p q ref symbol decl all _ _ _ _ _
    exact all
  · intro p q fullname binding pos _
    exact throughout_of_leaf rfl rfl (other nofun)
  · intro p q signature args ret bindings fallback given made all
    have declares : DeclaresThroughout P (.callable signature) := declaresThroughout_of_throughout given
    refine throughout_of_node (other nofun) ⟨fun {made_} declared => ?_, fun declared => ?_⟩ all
    · obtain ⟨binding, atInner, was⟩ := forall₂_source made declared
      exact was.values (innerBindings_throughout table declares atInner).1
    · obtain ⟨binding, atInner, was⟩ := forall₂_source made declared
      exact was.upperBound (innerBindings_throughout table declares atInner).2
  · intro p q args fullname pos _ _ all
    exact throughout_of_node (other nofun) (declaresThroughout_of_undeclared rfl) all
  · intro p q ref symbol d args given found plain _ _ _ all
    exact throughout_of_node (asks.name args given.root found plain) (declaresThroughout_of_undeclared rfl) all

end Rule

end Resolver

end TypeResolution
