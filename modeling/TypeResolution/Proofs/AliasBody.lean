import TypeResolution.Proofs.FilledTypes
import TypeResolution.Proofs.LiteralForms
import TypeResolution.Proofs.MetVariables
import TypeResolution.Proofs.ScopesAlike
import TypeResolution.Proofs.LaterTable

namespace TypeResolution

open Resolve

/-- The type is of a form that resolution makes, no type variable, and declares none. -/
structure Ty.IsFinished (t : Ty) : Prop where
  resolved : t.isResolved
  notVariable : t.NotVariable
  declaresNone : t.declared = []

theorem Ty.IsFinished.nameless {t : Ty} (finished : t.IsFinished) : t.formalName? = none := by
  cases t with
  | typeVar => exact finished.notVariable.elim
  | named => cases finished.resolved
  | _ => rfl

namespace SymbolTable

/-- What is asked of a table: its aliases and the bases of its classes are finished, and they are in the form in which
resolution makes types. In an alias the formals may stand by name. -/
structure Finished (table : SymbolTable) : Prop where
  flat : table.FlatUnions
  right : table.RightCounts
  names {decl : AliasDecl} : table.Holds (.aliasDef decl) →
    decl.target.Everywhere fun x => ∀ name, x.formalName? = some name → name ∈ decl.formals
  root {decl : AliasDecl} : table.Holds (.aliasDef decl) → decl.IsBareClass ∨ decl.target.RightCount
  tuple {decl : ClassDecl} : table.findClass? "builtins.tuple" = some decl → decl.fullname ≠ flexibleAlias
  tupleBase {decl : ClassDecl} {base : TupleShape} : table.Holds (.classDef decl) → decl.tupleBase = some base →
    ∀ t ∈ base.items, t.Everywhere Ty.IsFinished
  recordBase {decl : ClassDecl} {base : RecordShape} : table.Holds (.classDef decl) → decl.recordBase = some base →
    ∀ field ∈ base.fields, field.2.Everywhere Ty.IsFinished

/-- The tables have the same classes, and the same modules are analysed. -/
structure SameClasses (table after : SymbolTable) : Prop where
  findClass (fullname : String) : after.findClass? fullname = table.findClass? fullname
  isIncomplete (module : String) : after.isIncomplete module = table.isIncomplete module

end SymbolTable

/-- When the expression is resolved at `level`, the reference `ref` in it is at the level `inner`. The arguments of a name are one
level deeper than it is, and what stands in a list of parameters is at the level of the list. -/
inductive Ty.Meets (ref : Reference) (inner : Nesting) : Ty → Nesting → Prop
  | here : Meets ref inner (.named ref) inner
  | arg {name : Reference} {t : Ty} {level : Nesting} : t ∈ name.args → Meets ref inner t level.deeper →
      Meets ref inner (.named name) level
  | item {items : List Ty} {t : Ty} {pos : Position} {level : Nesting} : t ∈ items → Meets ref inner t level →
      Meets ref inner (.bracketed items pos) level
  | argument {item : Ty} {name form : Option String} {pos : Position} {level : Nesting} : Meets ref inner item level →
      Meets ref inner (.argument item name form pos) level

namespace Resolver

/-- The expression with `args` written in the places of the variables. What stands in a literal are values, and they stay. -/
def writeOut (r : Resolver) (vars : List String) (args : List Ty) : Ty → Ty := Ty.fold fun t parts =>
  match t with
  | .named ref => if r.isLiteralForm ref then t else (substitute? vars args t).getD (.named (ref.withArgs parts))
  | t => t.withChildren parts

/-- A reference that is no type variable and no `ClassVar` or `Type[C]`, that means no class whose instances stand for one of
their arguments, neither itself nor through an alias, and that has all the arguments of the class that it means. -/
structure InFull (r : Resolver) (ref : Reference) : Prop where
  noVariable : r.table.lookupTypeVar? ref.name = none
  form {symbol : Symbol} {form : SpecialForm} : r.table.lookup ref.name = some symbol →
    SpecialForm.ofName? symbol.fullname = some form → form ≠ .classVar ∧ (form = .classObject → ref.args = [])
  ofClass {symbol : Symbol} {decl : ClassDecl} : r.table.lookup ref.name = some symbol →
    SpecialForm.ofName? symbol.fullname = none → symbol.definition = some (.classDef decl) →
    decl.fullname ≠ flexibleAlias ∧
      ((decl.fullname = "builtins.tuple" ∧ ref.args ≠ []) ∨ decl.head.arity = ref.args.length)
  ofAlias {symbol : Symbol} {decl : AliasDecl} : r.table.lookup ref.name = some symbol →
    SpecialForm.ofName? symbol.fullname = none → symbol.definition = some (.aliasDef decl) →
    AliasDecl.NoneFlexible decl.target ∧
      ∀ head, decl.IsBareClass → decl.targetClass? = some head → head.arity = ref.args.length

/-- An expression as it is written for an alias, with type variables `vars`. None of its other names means something else in
the table `after`. -/
inductive AliasBody (r : Resolver) (after : SymbolTable) : List String → Ty → Prop
  | formal {vars : List String} {ref : Reference} : ref.name ∈ vars → ref.args = [] → ref.optional = false →
      AliasBody r after vars (.named ref)
  | name {vars : List String} {ref : Reference} : after.lookup ref.name = r.table.lookup ref.name → r.InFull ref →
      r.isLiteralForm ref = false → (∀ t ∈ ref.args, AliasBody r after vars t) → AliasBody r after vars (.named ref)
  | literal {vars : List String} {ref : Reference} : after.lookup ref.name = r.table.lookup ref.name →
      r.table.lookupTypeVar? ref.name = none → r.isLiteralForm ref = true → (∀ t ∈ ref.args, t.isSyntactic) →
      (∀ inner, .named inner ∈ ref.args → inner.quoted = none → AliasBody r after [] (.named inner)) →
      AliasBody r after vars (.named ref)
  | bracketed {vars : List String} {items : List Ty} {pos : Position} : (∀ t ∈ items, AliasBody r after vars t) →
      AliasBody r after vars (.bracketed items pos)
  | argument {vars : List String} {item : Ty} {name form : Option String} {pos : Position} : AliasBody r after vars item →
      (∀ f, form = some f → after.lookup f = r.table.lookup f) → AliasBody r after vars (.argument item name form pos)
  | ellipsis {vars : List String} {pos : Position} : AliasBody r after vars (.ellipsis pos)
  | scalar {vars : List String} {value : Option LiteralValue} {className : String} {note : Option String} {pos : Position} :
      AliasBody r after vars (.scalar value className note pos)

section WriteOut

variable {r : Resolver} {vars : List String} {args : List Ty}

theorem writeOut_eq (t : Ty) : r.writeOut vars args t =
    match t with
    | .named ref => if r.isLiteralForm ref then t else
        (substitute? vars args t).getD (.named (ref.withArgs (ref.args.map (r.writeOut vars args))))
    | t => t.withChildren (t.children.map (r.writeOut vars args)) := by
  rw [writeOut, Ty.fold_eq]
  cases t <;> rfl

theorem writeOut_literal {ref : Reference} (literal : r.isLiteralForm ref = true) :
    r.writeOut vars args (.named ref) = .named ref := by
  rw [writeOut_eq]
  dsimp only
  rw [if_pos literal]

theorem writeOut_variable {ref : Reference} (notLiteral : r.isLiteralForm ref = false) {arg : Ty}
    (found : substitute? vars args (.named ref) = some arg) : r.writeOut vars args (.named ref) = arg := by
  rw [writeOut_eq]
  dsimp only
  rw [if_neg (by simp [notLiteral]), found]
  rfl

theorem writeOut_name {ref : Reference} (notLiteral : r.isLiteralForm ref = false) (other : ref.name ∉ vars) :
    r.writeOut vars args (.named ref) = .named (ref.withArgs (ref.args.map (r.writeOut vars args))) := by
  have notFormal : substitute? vars args (.named ref) = none :=
    substitute?_of_not_named fun name named => by
      cases named
      exact other
  rw [writeOut_eq]
  dsimp only
  rw [if_neg (by simp [notLiteral]), notFormal]
  rfl

end WriteOut

/-- A change of expressions for an alias that only writes something else for their variables: what comes to the values for
these in the scope `s₀`, in which none of the variables is bound. If variables are quantified here, nothing is left of them in
it, so that it means the same wherever it stands. -/
structure Writes (r : Resolver) (after : SymbolTable) (s₀ : Scope) (vars : List String) (values : List Ty)
    (change : Ty → Ty) : Prop where
  formal {name : String} : name ∈ vars → ∃ symbol decl, r.table.lookup name = some symbol ∧
    SpecialForm.ofName? symbol.fullname = none ∧ symbol.definition = some (.typeVarDef decl) ∧
    s₀.find? symbol.fullname = none
  given {ref : Reference} : ref.name ∈ vars → ref.args = [] → ref.optional = false → ∃ bound value,
    Quiet (((r.withTable after).recursion bound).arg (change (.named ref)) .top) s₀ value ∧
      value ≈ replaceFormals vars values .unknown (.named ref) ∧ value.FlatUnion ∧ r.Firm value
  noUse {ref : Reference} : r.flags.definingAlias = false → ref.name ∈ vars → ref.args = [] →
    (VariableSearch.of after s₀).run (change (.named ref)) = []
  name {ref : Reference} : r.isLiteralForm ref = false → ref.name ∉ vars → change (.named ref) = .named (ref.mapArgs change)
  literal {ref : Reference} : r.isLiteralForm ref = true → change (.named ref) = .named ref
  other {t : Ty} : (∀ ref, t ≠ .named ref) → change t = t.withChildren (t.children.map change)
  flat : ∀ value ∈ values, value.FlatUnion

/-- With so much recursion, what is written for the variables of an expression is resolved in their places, and nothing is
reported of it, when the expression is resolved at `level`. -/
def Fits (r : Resolver) (s : Scope) (bound : Nat) (vars : List String) (change : Ty → Ty) (t : Ty) (level : Nesting) : Prop :=
  ∀ ref inner, t.Meets ref inner level → ref.name ∈ vars →
    ∃ value, Quiet ((r.recursion bound).expr (change (.named ref)) inner) s value

namespace Fits

variable {r : Resolver} {s : Scope} {bound : Nat} {vars : List String} {change : Ty → Ty} {level : Nesting}

theorem args {ref : Reference} (fits : r.Fits s bound vars change (.named ref) level) :
    ∀ t ∈ ref.args, r.Fits s bound vars change t level.deeper :=
  fun _ member found inner meets => fits found inner (.arg member meets)

theorem items {items : List Ty} {pos : Position} (fits : r.Fits s bound vars change (.bracketed items pos) level) :
    ∀ t ∈ items, r.Fits s bound vars change t level :=
  fun _ member found inner meets => fits found inner (.item member meets)

theorem argument {item : Ty} {name form : Option String} {pos : Position}
    (fits : r.Fits s bound vars change (.argument item name form pos) level) : r.Fits s bound vars change item level :=
  fun found inner meets => fits found inner (.argument meets)

/-- Without variables there is nothing to write. -/
theorem nothing (t : Ty) : r.Fits s bound [] change t level := fun _ _ _ member => absurd member List.not_mem_nil

end Fits

namespace Writes

variable {r : Resolver} {after : SymbolTable} {s₀ s : Scope} {vars : List String} {values : List Ty} {change : Ty → Ty}

/-- Without variables there is nothing to write. -/
theorem nothing (r : Resolver) (after : SymbolTable) (s₀ : Scope) : r.Writes after s₀ [] [] id where
  formal member := absurd member List.not_mem_nil
  given member := absurd member List.not_mem_nil
  noUse _ member := absurd member List.not_mem_nil
  name {ref} _ _ := congrArg Ty.named ref.mapArgs_id.symm
  literal _ := rfl
  other {t} _ := by rw [List.map_id, Ty.withChildren_children, id]
  flat := List.forall_mem_nil _

variable (writes : r.Writes after s₀ vars values change)

include writes

theorem not_variable {name : String} (other : r.table.lookupTypeVar? name = none) : name ∉ vars := by
  intro member
  obtain ⟨symbol, decl, found, _, defined, _⟩ := writes.formal member
  rw [SymbolTable.lookupTypeVar?_eq_some_iff.2 ⟨symbol, found, defined⟩] at other
  cases other

theorem bracketed (items : List Ty) (pos : Position) : change (.bracketed items pos) = .bracketed (items.map change) pos :=
  writes.other nofun

theorem argument (item : Ty) (name form : Option String) (pos : Position) :
    change (.argument item name form pos) = .argument (change item) name form pos :=
  writes.other nofun

theorem ellipsis (pos : Position) : change (.ellipsis pos) = .ellipsis pos := writes.other nofun

theorem scalar (value : Option LiteralValue) (className : String) (note : Option String) (pos : Position) :
    change (.scalar value className note pos) = .scalar value className note pos :=
  writes.other nofun

theorem any {t : Ty} (isAny : t.isAny) : change t = t := by
  cases t with
  | any => exact writes.other nofun
  | _ => cases isAny

/-- Where variables are quantified, none is found in what is written. -/
theorem noUse_change (using_ : r.flags.definingAlias = false) {t : Ty} (body : r.AliasBody after vars t)
    (alike : s₀.LooksLike s) (inside : Bool) : (⟨after, s, inside, false⟩ : VariableSearch).run (change t) = [] := by
  have noParts {ts : List Ty} (all : ∀ t ∈ ts, (⟨after, s, inside, false⟩ : VariableSearch).run (change t) = []) :
      firstOccurrences ((ts.map change).map (⟨after, s, inside, false⟩ : VariableSearch).run).flatten = [] := by
    rw [List.flatten_eq_nil_iff.2 (List.forall_mem_map.2 (List.forall_mem_map.2 all))]
    rfl
  have unbound {ref : Reference} (sameLookup : after.lookup ref.name = r.table.lookup ref.name)
      (noVariable : r.table.lookupTypeVar? ref.name = none) :
      (⟨after, s, inside, false⟩ : VariableSearch).found? ref = none := by
    have none : after.lookupTypeVar? ref.name = none := by
      rw [← noVariable]
      unfold SymbolTable.lookupTypeVar?
      rw [sameLookup]
    simp [VariableSearch.found?, none]
  induction body with
  | @formal vars ref member bare =>
    refine VariableSearch.run_eq_nil ?_ inside
    rw [← VariableSearch.run_congr alike.found]
    exact writes.noUse using_ member bare
  | @name vars ref sameLookup inFull notLiteral parts ih =>
    have notFound : (⟨after, s, inside, false⟩ : VariableSearch).found? (ref.mapArgs change) = none :=
      unbound sameLookup inFull.noVariable
    rw [writes.name notLiteral (writes.not_variable inFull.noVariable), VariableSearch.run_eq]
    dsimp only
    rw [notFound]
    dsimp only
    split
    · exact noParts fun t member => ih t member writes
    · rfl
  | @literal vars ref sameLookup noVariable literal =>
    rw [writes.literal literal, VariableSearch.run_eq]
    dsimp only
    rw [unbound sameLookup noVariable]
    refine if_neg fun entered => ?_
    rw [VariableSearch.entersReference, sameLookup, show (r.table.lookup ref.name).any _ = true from literal] at entered
    simp at entered
  | @bracketed vars items pos parts ih =>
    rw [writes.bracketed, VariableSearch.run_eq]
    exact noParts fun t member => ih t member writes
  | @argument vars item name form pos part sameLookup ih =>
    rw [writes.argument, VariableSearch.run_eq]
    exact noParts (List.forall_mem_singleton.2 (ih writes))
  | ellipsis =>
    rw [writes.ellipsis, VariableSearch.run_eq]
    exact noParts (List.forall_mem_nil _)
  | scalar =>
    rw [writes.scalar, VariableSearch.run_eq]
    exact noParts (List.forall_mem_nil _)

omit writes in
/-- What resolves without a report is no ellipsis, and nothing in the form of a call. -/
theorem isType_of_quiet {bound : Nat} {t a : Ty} {level : Nesting} (quiet : Quiet ((r.recursion bound).expr t level) s a) :
    (∀ pos, t ≠ .ellipsis pos) ∧ ∀ item name form pos, t ≠ .argument item name form pos := by
  obtain ⟨n, rfl, yields⟩ := yields_form not_false quiet.yields
  constructor
  · rintro pos rfl
    obtain ⟨_, reported⟩ := yields.andThen.1
    exact reported.report
  · rintro item name form pos rfl
    obtain ⟨_, reported⟩ := yields.andThen.1
    exact reported.report

theorem isType {ref : Reference} (member : ref.name ∈ vars) (bare : ref.args = []) (plainSuffix : ref.optional = false) :
    (∀ pos, change (.named ref) ≠ .ellipsis pos) ∧
      ∀ item name form pos, change (.named ref) ≠ .argument item name form pos := by
  obtain ⟨_, _, quiet, _⟩ := writes.given member bare plainSuffix
  exact isType_of_quiet quiet

theorem eq_ellipsis {t : Ty} (body : r.AliasBody after vars t) {pos : Position} (written : change t = .ellipsis pos) :
    t = .ellipsis pos := by
  cases body with
  | formal member bare plainSuffix => exact ((writes.isType member bare plainSuffix).1 pos written).elim
  | name _ inFull notLiteral =>
    rw [writes.name notLiteral (writes.not_variable inFull.noVariable)] at written
    cases written
  | literal _ _ literal =>
    rw [writes.literal literal] at written
    cases written
  | bracketed => cases writes.bracketed _ _ ▸ written
  | argument => cases writes.argument _ _ _ _ ▸ written
  | scalar => cases writes.scalar _ _ _ _ ▸ written
  | ellipsis => exact writes.ellipsis _ ▸ written

/-- The items of a list of parameters are read alike when they are changed. -/
theorem ofItem_change {t : Ty} (body : r.AliasBody after vars t) :
    Parameter.ofItem after (change t) = (Parameter.ofItem r.table t).map (Parameter.mapType change) := by
  have positional {t : Ty} (notArgument : ∀ item name form pos, t ≠ .argument item name form pos) (table : SymbolTable) :
      Parameter.ofItem table t = .ok ⟨t, .positional, none⟩ := by
    unfold Parameter.ofItem
    split
    · exact absurd rfl (notArgument _ _ _ _)
    · rfl
  have asType (here : ∀ item name form pos, t ≠ .argument item name form pos)
      (there : ∀ item name form pos, change t ≠ .argument item name form pos) :
      Parameter.ofItem after (change t) = (Parameter.ofItem r.table t).map (Parameter.mapType change) := by
    rw [positional here, positional there]
    rfl
  cases body with
  | formal member bare plainSuffix => exact asType (by rintro _ _ _ _ ⟨⟩) (writes.isType member bare plainSuffix).2
  | name _ inFull notLiteral =>
    refine asType (by rintro _ _ _ _ ⟨⟩) ?_
    rw [writes.name notLiteral (writes.not_variable inFull.noVariable)]
    rintro _ _ _ _ ⟨⟩
  | literal _ _ literal =>
    refine asType (by rintro _ _ _ _ ⟨⟩) ?_
    rw [writes.literal literal]
    rintro _ _ _ _ ⟨⟩
  | @argument _ item name form pos _ sameLookup =>
    rw [writes.argument]
    simp only [Parameter.ofItem]
    cases form with
    | none => rfl
    | some form =>
      dsimp only
      rw [sameLookup form rfl]
      repeat' split
      all_goals rfl
  | bracketed =>
    refine asType (by rintro _ _ _ _ ⟨⟩) ?_
    rw [writes.bracketed]
    rintro _ _ _ _ ⟨⟩
  | ellipsis =>
    refine asType (by rintro _ _ _ _ ⟨⟩) ?_
    rw [writes.ellipsis]
    rintro _ _ _ _ ⟨⟩
  | scalar =>
    refine asType (by rintro _ _ _ _ ⟨⟩) ?_
    rw [writes.scalar]
    rintro _ _ _ _ ⟨⟩

end Writes

end Resolver

end TypeResolution
