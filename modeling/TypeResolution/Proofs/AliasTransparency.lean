import TypeResolution.Proofs.AliasBodyForms

namespace TypeResolution

open Resolve

namespace Resolver

variable {r : Resolver} {after : SymbolTable} {s₀ s : Scope} {ends : Prop}

/-- A variable of an expression for an alias stays, and comes to what that comes to which is written for it. -/
theorem mirrors_formal (noHooks : r.hooks = .empty) {vars : List String} {values : List Ty} {change : Ty → Ty}
    (writes : r.Writes after s₀ vars values change) (alike : s₀.LooksLike s) {ref : Reference} (member : ref.name ∈ vars)
    (bare : ref.args = []) (plainSuffix : ref.optional = false) (n : Nat) {m spare : Nat} {level : Nesting}
    (enough : ends → spare ≤ m) (fits : ends → (r.withTable after).Fits s₀ spare vars change (.named ref) level) :
    Mirrors ends s ((r.forAliases.recursion n).expr (.named ref) level)
      (((r.withTable after).recursion m).expr (change (.named ref)) level) (r.Becomes vars values) := by
  obtain ⟨bound, value, quietHere, equal, flat, firm⟩ := writes.given member bare plainSuffix
  obtain ⟨symbol, decl, found, plain, defined, free⟩ := writes.formal member
  intro a quiet
  have stays : a = .named ref := by
    obtain ⟨n, rfl, form⟩ := yields_form not_false quiet.yields
    have reference : Yields Problem.Never (r.forAliases.reference (r.forAliases.recursion n) ref level false) s a := form
    obtain ⟨made, atPlain, rfl⟩ := reference.map
    rw [plainSuffix]
    exact yields_freeVariable (r := r.forAliases) noHooks found plain defined ((alike.found _).symm.trans free)
      (by simp [forAliases]) atPlain
  constructor
  · intro b yields
    obtain ⟨quiet', same⟩ := quiet_anywhere (r := r.withTable after) noHooks alike quietHere yields
    rw [stays, same]
    refine ⟨same ▸ quiet', ?_⟩
    exact {
      equal := equal
      same none := by
        rw [none] at member
        cases member
      made := ⟨Ty.everywhere_of_leaf bare trivial, Ty.everywhere_of_leaf bare member, Ty.everywhere_of_leaf bare trivial⟩
      plain := (AliasDecl.noneFlexible_iff rfl).2 trivial
      flat' := flat
      firm := firm }
  · intro holds
    obtain ⟨value, there⟩ := fits holds ref level .here member
    exact ⟨value, quiet_of_more (r := r.withTable after) noHooks alike (enough holds) there⟩

theorem literalBodies {ts : List Ty} (syntactic : ∀ t ∈ ts, t.isSyntactic)
    (inner : ∀ ref, .named ref ∈ ts → ref.quoted = none → r.AliasBody after [] (.named ref)) :
    ∀ t ∈ ts, r.LiteralBody after t := by
  refine fun t member => .inr ⟨syntactic t member, ?_⟩
  rintro ref rfl unquoted
  exact inner ref member unquoted

theorem mirrors_scalarType {vars : List String} {values : List Ty} (value : Option LiteralValue) (className : String)
    (note : Option String) (pos : Position) :
    Mirrors ends s (r.forAliases.scalarType value className note pos) ((r.withTable after).scalarType value className note pos)
      (r.Becomes vars values) := by
  unfold scalarType
  rw [show (r.withTable after).flags.reportInvalidTypes = r.forAliases.flags.reportInvalidTypes from rfl]
  split
  · exact .of_report (List.cons_ne_nil _ _)
  · exact .pure (.leaf rfl rfl rfl rfl)

/-- Whatever is resolved for an alias, with however much recursion, is mirrored by what is resolved with the arguments written
in it. -/
theorem mirrorsBodies (noHooks : r.hooks = .empty) (same : r.table.SameClasses after) (finished : r.table.Finished)
    (s₀ : Scope) (spare n : Nat) : r.MirrorsBodies after s₀ spare n := by
  -- on the recursion of the first run: the second may be given any, since it is only asked about where it comes to an end, or
  -- as much as is left of it for the arguments after each call of the first
  induction n with
  | zero =>
    exact {
      expr _ _ _ _ _ := .of_loud fun _ quiet => quiet.yields.stuck
      literalName _ _ _ _ := .of_loud fun _ quiet => quiet.yields.stuck
      literals _ _ _ _ _ _ := .of_loud fun _ quiet => quiet.yields.stuck }
  | succ n ih =>
    have below {ends : Prop} {k : Nat} (enough : ends → n + 1 + spare ≤ k + 1) (holds : ends) : n + spare ≤ k := by
      have := enough holds
      omega
    constructor
    · intro ends vars values change s t m level enough fits writes alike body
      have some (holds : ends) : 0 < m := Nat.lt_of_lt_of_le (by omega) (enough holds)
      cases body with
      | formal member bare plainSuffix =>
        exact mirrors_formal noHooks writes alike member bare plainSuffix (n + 1)
          (fun holds => Nat.le_of_add_left_le (enough holds)) fits
      | name sameLookup inFull notLiteral parts =>
        rw [writes.name notLiteral (writes.not_variable inFull.noVariable)]
        refine mirrors_expr some ?_
        rintro k rfl
        exact mirrors_name noHooks same ih (below enough) alike finished writes fits sameLookup inFull notLiteral parts false
      | literal sameLookup noVariable literal syntactic inner =>
        rw [writes.literal literal]
        refine mirrors_expr some ?_
        rintro k rfl
        exact mirrors_literalReference noHooks same ih (below enough) alike writes.flat sameLookup noVariable literal
          (literalBodies syntactic inner) false
      | bracketed | argument | ellipsis => exact mirrors_expr some fun _ _ => .of_report (List.cons_ne_nil _ _)
      | scalar =>
        rw [writes.scalar]
        exact mirrors_expr some fun _ _ => mirrors_scalarType _ _ _ _
    · intro ends ref s m level enough alike body
      cases m with
      | zero => exact .of_stuck fun holds => absurd (enough holds) (by omega)
      | succ m =>
        cases body with
        | formal member => cases member
        | name sameLookup inFull notLiteral parts =>
          have made : Mirrors ends s (r.forAliases.reference (r.forAliases.recursion n) ref level true) _ (r.Becomes [] []) :=
            mirrors_name noHooks same ih (below enough) alike finished (.nothing r after s₀) (fun _ => .nothing _) sameLookup
              inFull notLiteral parts true
          rw [ref.mapArgs_id] at made
          exact made
        | literal sameLookup noVariable literal syntactic inner =>
          exact mirrors_literalReference noHooks same ih (below enough) alike (List.forall_mem_nil _) sameLookup noVariable
            literal (literalBodies syntactic inner) true
    · intro ends t s m index pos level enough alike body
      cases m with
      | zero => exact .of_stuck fun holds => absurd (enough holds) (by omega)
      | succ m => exact mirrors_literals same ih (below enough) alike index pos body

/-! The definition of an alias -/

/-- The name is that of a type variable that the scope does not bind. -/
def NamesFree (r : Resolver) (s : Scope) (name : String) : Prop :=
  ∃ symbol decl, r.table.lookup name = some symbol ∧ SpecialForm.ofName? symbol.fullname = none ∧
    symbol.definition = some (.typeVarDef decl) ∧ s.find? symbol.fullname = none

/-- A reference without the suffix `?` is quiet if what its name stands for is. -/
theorem quiet_reference (noHooks : r.hooks = .empty) {ref : Reference} {symbol : Symbol} {d : Definition}
    (found : r.table.lookup ref.name = some symbol) (defined : symbol.definition = some d)
    (notPending : symbol.isPending = false) (silent : r.subscriptReports symbol.fullname ref = [])
    (plainSuffix : ref.optional = false) {again : Recursion} [again.Steady] {level : Nesting} {inLiteral : Bool} {t : Ty}
    (inScope : Quiet (r.formOrDefined again d symbol.fullname ref level inLiteral s) s t) :
    Quiet (r.reference again ref level inLiteral) s t := by
  unfold reference
  refine Quiet.bind_iff.2 ⟨t, ?_, ?_⟩
  · rw [plainReference_of_symbol found defined notPending, symbolType_subscripted noHooks, silent, reportAll_nil_bind]
    exact inScope
  · rw [plainSuffix]
    exact .pure t

/-- For an alias a free variable without arguments stays. -/
theorem quiet_variable (noHooks : r.hooks = .empty) (defining : r.flags.definingAlias = true) {ref : Reference}
    (free : r.NamesFree s ref.name) (bare : ref.args = []) (plainSuffix : ref.optional = false) (n : Nat) (level : Nesting) :
    Quiet (r.reference (r.recursion n) ref level false) s (.named ref) := by
  obtain ⟨symbol, decl, found, plain, defined, unbound⟩ := free
  have notPending : symbol.isPending = false := by rw [Symbol.isPending, defined]
  have silent : r.subscriptReports symbol.fullname ref = [] := by simp [subscriptReports, bare]
  refine quiet_reference noHooks found defined notPending silent plainSuffix ?_
  unfold formOrDefined
  rw [plain]
  change Quiet (r.typeVarType (r.recursion n) symbol.fullname ref level) s (.named ref)
  rw [typeVarType_eq]
  change Quiet (r.variableFound (r.recursion n) symbol.fullname ref level (s.find? symbol.fullname)) s (.named ref)
  rw [unbound, variableFound, if_pos (by simp [defining])]
  exact .pure _

/-- For an alias the free variables stay as they are written. -/
theorem writes_itself (noHooks : r.hooks = .empty) {vars : List String} (free : ∀ name ∈ vars, r.NamesFree s name) :
    r.forAliases.Writes r.table s vars [] id where
  formal {name} member := free name member
  given {ref} member bare plainSuffix := by
    have noValue : substitute? vars [] (.named ref) = none := by
      unfold substitute?
      cases vars.idxOf? ref.name <;> simp
    have stays := quiet_variable (r := r.forAliases) noHooks rfl (free ref.name member) bare plainSuffix 0 (.deeper .top)
    refine ⟨1, .named ref, stays, ?_, trivial, firm_of_not_instance rfl⟩
    rw [replaced_of_leaf noValue bare]
  noUse using_ := by cases using_
  name _ _ := congrArg Ty.named (Reference.mapArgs_id _).symm
  literal _ := rfl
  other {t} _ := by rw [List.map_id, Ty.withChildren_children, id]
  flat := List.forall_mem_nil _

theorem AliasBody.itself {vars : List String} {t : Ty} (body : r.AliasBody after vars t) :
    r.forAliases.AliasBody r.table vars t := by
  induction body with
  | formal member bare plainSuffix => exact .formal member bare plainSuffix
  | name _ inFull notLiteral _ ih =>
    exact .name rfl ⟨inFull.noVariable, inFull.form, inFull.ofClass, inFull.ofAlias⟩ notLiteral ih
  | literal _ noVariable literal syntactic _ ih => exact .literal rfl noVariable literal syntactic ih
  | bracketed _ ih => exact .bracketed ih
  | argument _ _ ih => exact .argument ih fun _ _ => rfl
  | ellipsis => exact .ellipsis
  | scalar => exact .scalar

/-- What an alias stands for is as resolution makes types, with the variables in it by name. -/
theorem target_wellMade (noHooks : r.hooks = .empty) (finished : r.table.Finished) {vars : List String}
    (free : ∀ name ∈ vars, r.NamesFree s name) {n : Nat} {t a : Ty} {level : Nesting} (body : r.AliasBody after vars t)
    (quiet : Quiet ((r.forAliases.recursion n).expr t level) s a) : a.WellMade vars ∧ AliasDecl.NoneFlexible a := by
  have same : r.forAliases.table.SameClasses r.table := ⟨fun _ => rfl, fun _ => rfl⟩
  have mirrors : Mirrors False s ((r.forAliases.recursion n).expr t level) ((r.forAliases.recursion n).expr t level)
      (r.forAliases.Becomes vars []) :=
    (mirrorsBodies (r := r.forAliases) noHooks same finished s 0 n).expr False.elim False.elim (writes_itself noHooks free)
      (.refl s) body.itself
  have becomes := ((mirrors a quiet).1 a quiet.shallow).2
  exact ⟨becomes.made, becomes.plain⟩

/-- The alias `decl` is defined as the expression `written` with the type variables `vars`, and nothing is reported of that. Its
name is that of no class, and none that resolution knows by itself, and in what it stands for nothing stands too deep for a
substitution. -/
structure Defines (r : Resolver) (s : Scope) (vars : List String) (written : Ty) (decl : AliasDecl) : Prop where
  resolved : ∃ q, r.resolveAlias s written = some (⟨decl.target, .complete⟩, q) ∧ q.reports = []
  formals : decl.formals = vars
  generic : vars ≠ []
  notClass : r.table.findClass? decl.fullname = none
  notForm : SpecialForm.ofName? decl.fullname = none
  notBuiltin : builtinReplacement? decl.fullname = none
  shallow : ¬ decl.Buries decl.target 0

/-- The expression is resolved to `value` as an argument, and nothing is reported of it. There is no variable in it to quantify,
and `value` is, at its root, in the form in which resolution makes types, and does not stand for one of its own arguments. -/
structure IsArgument (r : Resolver) (s : Scope) (arg value : Ty) : Prop where
  resolved : Quiet (r.resolveArgument arg) s value
  noVariable : (VariableSearch.of r.table s).run arg = []
  flat : value.FlatUnion
  firm : r.Firm value

/-- The root of the value is in that form if the instances and unions that are written in the argument are. -/
theorem isArgument_of_written (noHooks : r.hooks = .empty) (flat : r.table.FlatUnions) (right : r.table.RightCounts)
    {arg value : Ty} (resolved : Quiet (r.resolveArgument arg) s value) (noVariable : (VariableSearch.of r.table s).run arg = [])
    (unions : r.RawUnionsRead s arg) (counts : arg.Everywhere Ty.RightCount) (notFlexible : value.NotFlexible) :
    r.IsArgument s arg value := by
  have ⟨q, ran, _⟩ := resolved
  refine ⟨resolved, noVariable, ?_, notFlexible, fun using_ => ?_⟩
  · have made := ((recursion_obeys (rule_flatUnion flat) noHooks _).expr arg _ (.start s) value q ran).2.2
    exact (made unions).root
  · have made := ((recursion_obeys (rule_rightCount using_ right) noHooks _).expr arg _ (.start s) value q ran).2.2
    exact (made counts).root

/-- To write arguments for the variables of an expression is to write what comes to their values. -/
theorem writes_writeOut {vars : List String} (free : ∀ name ∈ vars, r.NamesFree s name) {args values : List Ty}
    (given : List.Forall₂ ((r.withTable after).IsArgument s) args values) (sameNumber : args.length = vars.length) :
    r.Writes after s vars values (r.writeOut vars args) := by
  have notLiteral {ref : Reference} (member : ref.name ∈ vars) : r.isLiteralForm ref = false := by
    obtain ⟨symbol, _, found, plain, _⟩ := free ref.name member
    exact isLiteralForm_eq_false found plain
  have argument {ref : Reference} (member : ref.name ∈ vars) : ∃ arg value, r.writeOut vars args (.named ref) = arg ∧
      replaceFormals vars values .unknown (.named ref) = value ∧ (r.withTable after).IsArgument s arg value := by
    obtain ⟨_, found⟩ := Option.isSome_iff_exists.1 (substitute?_isSome (t := .named ref) sameNumber rfl member)
    rcases substitute?_forall₂ vars given (.named ref) with ⟨none, _⟩ | ⟨arg, value, atArg, atValue, isArgument⟩
    · rw [found] at none
      cases none
    · exact ⟨arg, value, writeOut_variable (notLiteral member) atArg, replaced_of_formal atValue, isArgument⟩
  exact {
    formal := fun {name} member => free name member
    given := fun {ref} member _ _ => by
      obtain ⟨arg, value, atArg, atValue, isArgument⟩ := argument member
      refine ⟨(r.withTable after).allowance arg, value, ?_, ?_, isArgument.flat, isArgument.firm.notFlexible,
        isArgument.firm.right⟩
      · rw [atArg]
        exact isArgument.resolved
      · rw [atValue]
    noUse := fun {ref} _ member _ => by
      obtain ⟨arg, value, atArg, _, isArgument⟩ := argument member
      rw [atArg]
      exact isArgument.noVariable
    name := writeOut_name
    literal := writeOut_literal
    other := fun {t} other => by
      rw [writeOut_eq]
      cases t with
      | named ref => exact absurd rfl (other ref)
      | _ => rfl
    flat := fun value member => by
      obtain ⟨arg, _, isArgument⟩ := forall₂_source given member
      exact isArgument.flat }

theorem find?_withAlias {decl : AliasDecl} {fullname : String} (other : fullname ≠ decl.fullname) :
    (r.withAlias decl).table.find? fullname = r.table.find? fullname :=
  NameMap.find?_insert_other r.table.symbols _ other

/-- A name that may not mean the alias means what it meant before. -/
theorem lookup_withAlias {decl : AliasDecl} {name : String} (other : decl.fullname ∉ r.table.candidates name) :
    (r.withAlias decl).table.lookup name = r.table.lookup name := by
  have sameNames : (r.withAlias decl).table.candidates name = r.table.candidates name := rfl
  unfold SymbolTable.lookup
  rw [sameNames]
  generalize r.table.candidates name = names at other
  induction names with
  | nil => rfl
  | cons first rest ih =>
    rw [List.mem_cons, not_or] at other
    rw [List.findSome?_cons, List.findSome?_cons, find?_withAlias (Ne.symm other.1), ih other.2]

theorem sameClasses_withAlias {decl : AliasDecl} (notClass : r.table.findClass? decl.fullname = none) :
    r.table.SameClasses (r.withAlias decl).table where
  findClass fullname := by
    by_cases same : fullname = decl.fullname
    · have added : (r.withAlias decl).table.find? decl.fullname = some (.of (.aliasDef decl)) :=
        NameMap.find?_insert_self r.table.symbols decl.fullname _
      rw [same, notClass, SymbolTable.findClass?, added]
      rfl
    · rw [SymbolTable.findClass?, find?_withAlias same, SymbolTable.findClass?]
  isIncomplete _ := rfl

theorem flatUnions_withAlias {decl : AliasDecl} (flat : r.table.FlatUnions) (target : decl.target.Everywhere Ty.FlatUnion) :
    (r.withAlias decl).table.FlatUnions where
  target holds := by
    rcases SymbolTable.holds_define holds with same | holds
    · cases same
      exact target
    · exact flat.target holds
  tupleBase holds := flat.tupleBase ((SymbolTable.holds_define holds).resolve_left nofun)
  recordBase holds := flat.recordBase ((SymbolTable.holds_define holds).resolve_left nofun)

theorem rightCounts_withAlias {decl : AliasDecl} (right : r.table.RightCounts)
    (notClass : r.table.findClass? decl.fullname = none) (target : decl.target.Everywhere Ty.RightCount) :
    (r.withAlias decl).table.RightCounts where
  tuple found := right.tuple (((sameClasses_withAlias notClass).findClass _).symm.trans found)
  target holds := by
    rcases SymbolTable.holds_define holds with same | holds
    · cases same
      exact fun c member => target.child member
    · exact right.target holds
  tupleBase holds := right.tupleBase ((SymbolTable.holds_define holds).resolve_left nofun)
  recordBase holds := right.recordBase ((SymbolTable.holds_define holds).resolve_left nofun)

/-- A generic alias in which nothing stands too deep stands for its target with the values for the formals. -/
theorem expand_of_shallow {decl : AliasDecl} (generic : decl.formals ≠ []) (shallow : ¬ decl.Buries decl.target 0)
    {values : List Ty} (sameNumber : values.length = decl.formals.length) (pos : Position) (written : Option String)
    (disallowAny : Bool) :
    decl.expand values pos written disallowAny =
      (AliasDecl.openFlexible (replaceFormals decl.formals values pos decl.target), []) := by
  have uncut : (substituteAt decl.formals values pos decl.target 0).2 = false :=
    Bool.eq_false_iff.2 fun cut => shallow ((AliasDecl.substituteAt_cut_iff sameNumber _ _).1 cut)
  have silent : (substitute decl.target decl.formals values pos).2 = [] := by simp [substitute, uncut]
  rw [AliasDecl.expand_applied generic sameNumber, silent, (substitute_of_silent silent).2]

/-- A use of an alias is quiet if its arguments are, and the alias stands for something with their values without more ado. -/
theorem quiet_aliasUse (noHooks : r.hooks = .empty) {ref : Reference} {symbol : Symbol} {decl : AliasDecl}
    (found : r.table.lookup ref.name = some symbol) (defined : symbol.definition = some (.aliasDef decl))
    (notForm : SpecialForm.ofName? symbol.fullname = none) (notBuiltin : builtinReplacement? symbol.fullname = none)
    (plainSuffix : ref.optional = false) {n : Nat} {level : Nesting} {values : List Ty} {t : Ty}
    (resolved : List.Forall₂ (fun arg value => Quiet ((r.recursion n).arg arg level) s value) ref.args values)
    (expanded : decl.expand values ref.pos (some ref.name) r.disallowsOmitted = (t, [])) (firm : r.Firm t) :
    Quiet (r.reference (r.recursion n) ref level false) s t := by
  have notPending : symbol.isPending = false := by rw [Symbol.isPending, defined]
  have silent : r.subscriptReports symbol.fullname ref = [] := by simp [subscriptReports, notBuiltin]
  refine quiet_reference noHooks found defined notPending silent plainSuffix ?_
  unfold formOrDefined
  rw [notForm]
  change Quiet (r.aliasType (r.recursion n) decl symbol.fullname ref level) s t
  rw [aliasType_eq]
  refine Quiet.bind_iff.2 ⟨(), ⟨_, rfl, rfl, rfl⟩, Quiet.bind_iff.2 ⟨values, Quiet.mapM_iff.2 resolved, ?_⟩⟩
  rw [expanded, reportAll_nil_bind, aliasResult_of_firm firm]
  exact .pure t

theorem quiet_of_resolve {t a : Ty} {q : Progress} (ran : r.resolve t (.start s) = some (⟨a, .complete⟩, q))
    (silent : q.reports = []) : Quiet ((r.recursion (r.allowance t)).expr t .top) s a := by
  obtain ⟨⟨resolved, q'⟩, ranFirst, ended⟩ := Option.bind_eq_some_iff.1 ran
  obtain ⟨rfl, status, rfl⟩ := settle_ensures resolved q' _ q ended
  exact ⟨q', ranFirst, status.symm, silent⟩

theorem complete_of_quiet {t a : Ty} {result : Resolution} {q : Progress} (ran : r.resolve t (.start s) = some (result, q))
    (quiet : Quiet ((r.recursion (r.allowance t)).expr t .top) s a) : result.status = .complete ∧ q.reports = [] := by
  obtain ⟨q', ran', complete, silent⟩ := quiet
  obtain ⟨⟨resolved, q''⟩, ranFirst, ended⟩ := Option.bind_eq_some_iff.1 ran
  rw [ran'] at ranFirst
  cases ranFirst
  cases ended
  exact ⟨complete, silent⟩

/-- An alias is transparent. A use of it, with arguments that are resolved without a report, is resolved without a report, and
to what the expression is resolved to that the alias is defined as when the arguments are written out in it. Neither is anything
reported of that, unless it is nested too deep. Where the arguments are resolved without a report in their places there as well,
although they may be nested deeper, it does come to that end. -/
theorem alias_transparent (noHooks : r.hooks = .empty) (finished : r.table.Finished) {vars : List String}
    (free : ∀ name ∈ vars, r.NamesFree s name) {written : Ty} {decl : AliasDecl} (defines : r.Defines s vars written decl)
    (body : r.AliasBody (r.withAlias decl).table vars written) {args values : List Ty}
    (given : List.Forall₂ ((r.withAlias decl).IsArgument s) args values) (sameNumber : args.length = vars.length)
    {ref : Reference} (found : (r.withAlias decl).table.lookup ref.name = some (.of (.aliasDef decl)))
    (applied : ref.args = args) (plainSuffix : ref.optional = false) :
    ∃ used q, (r.withAlias decl).resolve (.named ref) (.start s) = some (⟨used, .complete⟩, q) ∧ q.reports = [] ∧
      (∀ result p, (r.withAlias decl).resolve (r.writeOut vars args written) (.start s) = some (result, p) →
        (∀ report ∈ p.reports, report.problem ≠ .nestedTooDeep) →
        result.status = .complete ∧ p.reports = [] ∧ used ≈ result.type) ∧
      ∀ bound, (r.withAlias decl).Fits s bound vars (r.writeOut vars args) written .top →
        ∃ result enough, used ≈ result ∧ ∀ n, enough ≤ n →
          Quiet (((r.withAlias decl).recursion n).expr (r.writeOut vars args written) .top) s result := by
  obtain ⟨q, ranDefinition, silent⟩ := defines.resolved
  have definition : Quiet ((r.forAliases.recursion _).expr written .top) s decl.target := quiet_of_resolve ranDefinition silent
  obtain ⟨made, plain⟩ := target_wellMade noHooks finished free body definition
  have writes := writes_writeOut free given sameNumber
  have generic : decl.formals ≠ [] := defines.formals ▸ defines.generic
  have asMany : values.length = decl.formals.length := by rw [← given.length_eq, sameNumber, defines.formals]
  have firm : (r.withAlias decl).Firm (replaceFormals decl.formals values ref.pos decl.target) := by
    refine replaced_firm writes.flat (fun value member => ?_) made.flat.root plain made.right
    obtain ⟨arg, _, isArgument⟩ := forall₂_source given member
    exact isArgument.firm
  obtain ⟨bound, atBound⟩ := (r.withAlias decl).allowance_eq_add (.named ref)
  have resolved : List.Forall₂ (fun arg value => Quiet (((r.withAlias decl).recursion (bound + 1)).arg arg .top) s value)
      ref.args values := by
    have lighter (arg : Ty) (member : arg ∈ ref.args) :
        (r.withAlias decl).allowance arg < (r.withAlias decl).allowance (.named ref) :=
      allowance_lt (Ty.weight_child_lt member)
    refine ((List.forall₂_and_left _ _).2 ⟨lighter, applied ▸ given⟩).imp fun arg value both => ?_
    obtain ⟨lighter, isArgument⟩ := both
    obtain ⟨q, ran, complete, silent⟩ := isArgument.resolved
    exact ⟨q, argument_follows (r := r.withAlias decl) noHooks ran silent (by omega) (Nat.le_refl 1), complete, silent⟩
  obtain ⟨q, ranUse, complete, silentUse⟩ := quiet_aliasUse (r := r.withAlias decl) noHooks found rfl defines.notForm
    defines.notBuiltin plainSuffix resolved
    (by rw [expand_of_shallow generic defines.shallow asMany, firm.openFlexible]) firm
  have same := sameClasses_withAlias defines.notClass
  have mirrors {ends : Prop} (bound m : Nat) (enough : ends → r.forAliases.allowance written + bound ≤ m)
      (fits : ends → (r.withAlias decl).Fits s bound vars (r.writeOut vars args) written .top) :=
    (mirrorsBodies noHooks same finished s bound _).expr enough fits writes (.refl s) body _ definition
  have equal {result : Ty} (becomes : r.Becomes vars values decl.target result) :
      replaceFormals decl.formals values ref.pos decl.target ≈ result := by
    rw [defines.formals]
    exact Setoid.trans (replaced_moved _ _ _) (Setoid.symm becomes.equal)
  refine ⟨_, q, resolve_of_form atBound ranUse complete, silentUse, fun result p ran shallow => ?_, fun bound fits => ?_⟩
  · obtain ⟨quiet, becomes⟩ := (mirrors 0 _ False.elim False.elim).1 _ (yields_of_resolve ran shallow)
    obtain ⟨completeWritten, silentWritten⟩ := complete_of_quiet ran quiet
    exact ⟨completeWritten, silentWritten, equal becomes⟩
  · have mirrored := mirrors bound (r.forAliases.allowance written + bound) (fun _ : True => Nat.le_refl _) fun _ => fits
    obtain ⟨related, comes⟩ := mirrored
    obtain ⟨result, quiet⟩ := comes trivial
    refine ⟨result, r.forAliases.allowance written + bound, equal (related result quiet.shallow).2, fun n more => ?_⟩
    exact quiet_of_more (r := r.withAlias decl) noHooks (.refl s) more quiet

end Resolver

theorem SymbolTable.finished_withTypeVar : Resolver.withTypeVar.table.Finished := by
  have ofAlias {decl : AliasDecl} (holds : Resolver.withTypeVar.table.Holds (.aliasDef decl)) :
      decl.IsBareClass ∧ ∃ head, decl.target = .inst (.of head [] .unknown) := by
    obtain ⟨_, generic, _, rfl⟩ := Prelude.aliasDef_mem (holds_withPrelude ((holds_define holds).resolve_left nofun))
    exact ⟨⟨rfl, rfl, rfl⟩, generic.head, rfl⟩
  have everywhere {P : Ty → Prop} (instances : ∀ head, P (.inst (.of head [] .unknown))) {decl : AliasDecl}
      (holds : Resolver.withTypeVar.table.Holds (.aliasDef decl)) : decl.target.Everywhere P := by
    obtain ⟨_, head, target⟩ := ofAlias holds
    exact target ▸ Ty.everywhere_of_leaf rfl (instances head)
  have noTuple {decl : ClassDecl} {base : TupleShape} (holds : Resolver.withTypeVar.table.Holds (.classDef decl)) :
      decl.tupleBase ≠ some base := by
    rw [(Prelude.noBases (holds_withPrelude ((holds_define holds).resolve_left nofun))).1]
    exact nofun
  have noRecord {decl : ClassDecl} {base : RecordShape} (holds : Resolver.withTypeVar.table.Holds (.classDef decl)) :
      decl.recordBase ≠ some base := by
    rw [(Prelude.noBases (holds_withPrelude ((holds_define holds).resolve_left nofun))).2]
    exact nofun
  have tuple {decl : ClassDecl} (found : Resolver.withTypeVar.table.findClass? "builtins.tuple" = some decl) :
      decl = .generic "builtins.tuple" ["T_co"] := (Option.some.inj found).symm
  exact {
    flat.target := everywhere fun _ => trivial
    flat.tupleBase holds atBase := (noTuple holds atBase).elim
    flat.recordBase holds atBase := (noRecord holds atBase).elim
    right.tuple found := tuple found ▸ rfl
    right.target holds c member := by
      obtain ⟨_, head, target⟩ := ofAlias holds
      rw [target] at member
      cases member
    right.tupleBase holds atBase := (noTuple holds atBase).elim
    right.recordBase holds atBase := (noRecord holds atBase).elim
    names := everywhere fun _ => nofun
    root holds := .inl (ofAlias holds).1
    tuple found := by
      rw [tuple found]
      decide
    tupleBase holds atBase := (noTuple holds atBase).elim
    recordBase holds atBase := (noRecord holds atBase).elim }

namespace Resolver

/-- `Optional[List[t]]` -/
def optionalList (t : Ty) : Ty := .named (.of "typing.Optional" [.named (.of "typing.List" [t])])

/-- The alias `A = Optional[List[T]]` -/
def optionalListAlias : AliasDecl :=
  ⟨"m.A", .union [.inst (.of ⟨"builtins.list", ["T"], false⟩ [.named (.of "T" [])] .unknown), .noneType .unknown] .unknown,
    ["T"], false, ["typing.List"]⟩

theorem aliasBody_optionalList :
    withTypeVar.AliasBody (withTypeVar.withAlias optionalListAlias).table ["T"] (optionalList (.named (.of "T" []))) := by
  let list : Reference := .of "typing.List" [.named (.of "T" [])]
  let optional : Reference := .of "typing.Optional" [.named list]
  have foundList : withTypeVar.table.lookup list.name = some (.of (.aliasDef ⟨"typing.List",
      .inst (.of ⟨"builtins.list", ["T"], false⟩ [] .unknown), [], true, []⟩)) := rfl
  have foundOptional : withTypeVar.table.lookup optional.name = some (.of (.variableDef (.untyped "typing.Optional"))) := rfl
  have listInFull : withTypeVar.InFull list := by
    have plain : AliasDecl.NoneFlexible (.inst (.of ⟨"builtins.list", ["T"], false⟩ [] .unknown)) :=
      (AliasDecl.noneFlexible_iff rfl).2 (by simp [Ty.NotFlexible, Instance.of, flexibleAlias])
    constructor
    · rw [SymbolTable.lookupTypeVar?, foundList]
      rfl
    all_goals
      intro symbol _ found
      cases Option.some.inj (foundList.symm.trans found)
    · rintro ⟨⟩
    · rintro _ ⟨⟩
    · rintro _ ⟨⟩
      exact ⟨plain, fun head _ isClass => Option.some.inj isClass ▸ rfl⟩
  have optionalInFull : withTypeVar.InFull optional := by
    constructor
    · rw [SymbolTable.lookupTypeVar?, foundOptional]
      rfl
    all_goals
      intro symbol _ found
      cases Option.some.inj (foundOptional.symm.trans found)
    · rintro ⟨⟩
      exact ⟨by rintro ⟨⟩, by rintro ⟨⟩⟩
    · rintro ⟨⟩
    · rintro ⟨⟩
  have notLiteral : withTypeVar.isLiteralForm optional = false := by
    rw [isLiteralForm, foundOptional]
    decide
  refine .name (lookup_withAlias (by decide)) optionalInFull notLiteral (List.forall_mem_singleton.2 ?_)
  refine .name (lookup_withAlias (by decide)) listInFull (isLiteralForm_eq_false foundList rfl) (List.forall_mem_singleton.2 ?_)
  exact .formal (List.mem_singleton_self _) rfl rfl

/-- `A[int]` is `Optional[List[int]]`. -/
theorem alias_transparent_optionalList :
    ∃ used q result p,
      (withTypeVar.withAlias optionalListAlias).resolve (.named (.of "A" [.named (.of "int" [])])) (.start .root) =
        some (⟨used, .complete⟩, q) ∧ q.reports = [] ∧
      (withTypeVar.withAlias optionalListAlias).resolve (optionalList (.named (.of "int" []))) (.start .root) =
        some (result, p) ∧ result.status = .complete ∧ p.reports = [] ∧ used ≈ result.type ∧
      ∃ again enough, used ≈ again ∧ ∀ n, enough ≤ n →
        Quiet (((withTypeVar.withAlias optionalListAlias).recursion n).expr (optionalList (.named (.of "int" []))) .top) .root
          again := by
  have free : ∀ name ∈ ["T"], withTypeVar.NamesFree .root name :=
    List.forall_mem_singleton.2 ⟨_, .plain "m.T", rfl, rfl, rfl, rfl⟩
  have shallow : ¬ optionalListAlias.Buries optionalListAlias.target 0 := by
    intro buries
    have cut : (substituteAt ["T"] [.noneType .unknown] .unknown optionalListAlias.target 0).2 = true :=
      (AliasDecl.substituteAt_cut_iff (a := optionalListAlias) rfl _ _).2 buries
    cases cut
  have defines : withTypeVar.Defines .root ["T"] (optionalList (.named (.of "T" []))) optionalListAlias :=
    ⟨⟨_, rfl, rfl⟩, rfl, List.cons_ne_nil _ _, rfl, rfl, rfl, shallow⟩
  have definition : Quiet ((withTypeVar.forAliases.recursion _).expr (optionalList (.named (.of "T" []))) .top) .root
      optionalListAlias.target := quiet_of_resolve rfl rfl
  obtain ⟨made, _⟩ := target_wellMade rfl SymbolTable.finished_withTypeVar free aliasBody_optionalList definition
  have flat := flatUnions_withAlias SymbolTable.finished_withTypeVar.flat made.flat
  have right := rightCounts_withAlias SymbolTable.finished_withTypeVar.right rfl made.right
  have int : (withTypeVar.withAlias optionalListAlias).IsArgument .root (.named (.of "int" []))
      (.inst (.of (.plain "builtins.int") [] .unknown)) :=
    isArgument_of_written rfl flat right ⟨_, rfl, rfl, rfl⟩ rfl
      (rawUnionsRead_of_flat (Ty.everywhere_of_leaf rfl (Ty.flatUnion_of_not_union rfl)) _) (Ty.everywhere_of_leaf rfl trivial)
      (by simp [Ty.NotFlexible, Instance.of, ClassHead.plain, flexibleAlias])
  have found : (withTypeVar.withAlias optionalListAlias).table.lookup (Reference.of "A" [.named (.of "int" [])]).name =
      some (.of (.aliasDef optionalListAlias)) := rfl
  have fits : (withTypeVar.withAlias optionalListAlias).Fits .root 1 ["T"]
      (withTypeVar.writeOut ["T"] [.named (.of "int" [])]) (optionalList (.named (.of "T" []))) .top := by
    rintro ref inner meets member
    cases meets with
    | here => exact absurd member (by decide)
    | arg inOptional meets =>
      obtain rfl := List.mem_singleton.1 inOptional
      cases meets with
      | here => exact absurd member (by decide)
      | arg inList meets =>
        obtain rfl := List.mem_singleton.1 inList
        cases meets with
        | here => exact ⟨_, _, rfl, rfl, rfl⟩
        | arg bare => cases bare
  obtain ⟨used, q, ranUse, silent, agrees, comes⟩ := alias_transparent rfl SymbolTable.finished_withTypeVar free defines
    aliasBody_optionalList (.cons int .nil) rfl found rfl rfl
  have ran : ∃ result p, (withTypeVar.withAlias optionalListAlias).resolve (optionalList (.named (.of "int" [])))
      (.start .root) = some (result, p) ∧ p.reports = [] := ⟨_, _, rfl, rfl⟩
  obtain ⟨result, p, ran, none⟩ := ran
  obtain ⟨complete, silentWritten, equal⟩ := agrees result p ran (by simp [none])
  exact ⟨used, q, result, p, ranUse, silent, ran, complete, silentWritten, equal, comes 1 fits⟩

/-- A module with a type variable, and the class whose instances stand for one of their arguments. -/
def withFlexible : Resolver := withTypeVar.withTable (withTypeVar.table.define (.classDef (.generic flexibleAlias ["T", "S"])))

/-- `FlexibleAlias[int, str]` -/
def flexibleOfIntStr : Ty := .named (.of flexibleAlias [.named (.of "int" []), .named (.of "str" [])])

/-- `Dict[t, A]` -/
def dictToItself (t : Ty) : Ty := .named (.of "typing.Dict" [t, .named (.of "A" [])])

/-- `A` is defined as `written` with the formal `T`, and nothing is reported of that or of `A[arg]`. But that is not what
`written` is resolved to with `arg` in it, of which this is reported. -/
def SetsApart (r : Resolver) (written arg : Ty) (reports : List Diagnostic) : Prop :=
  ∃ target used apart q q' q'',
    r.resolveAlias .root written = some (⟨target, .complete⟩, q) ∧ q.reports = [] ∧
    (r.withAlias ⟨"m.A", target, ["T"], false, q.aliasesUsed⟩).resolve (.named (.of "A" [arg])) (.start .root) =
      some (⟨used, .complete⟩, q') ∧ q'.reports = [] ∧
    (r.withAlias ⟨"m.A", target, ["T"], false, q.aliasesUsed⟩).resolve (r.writeOut ["T"] [arg] written) (.start .root) =
      some (⟨apart, .complete⟩, q'') ∧ q''.reports = reports ∧ ¬ used ≈ apart

set_option maxRecDepth 2000 in
/-- 99 boxes in the two boxes of the alias `A = Box[Box[T]]` are as many as are allowed for an argument, but 101 written out are
too many. -/
theorem boxes_setApart :
    withBoxes.SetsApart (boxed (.named (.of "T" [])) 2) (boxed (.named (.of "int" [])) 99) [⟨.unknown, .nestedTooDeep⟩] := by
  let int : Ty := .inst (.of (.plain "builtins.int") [] .unknown)
  let twoBoxes : AliasDecl := ⟨"m.A", Boxes (.named (.of "T" [])) 2, ["T"], false, []⟩
  let r : Resolver := withBoxes.withAlias twoBoxes
  let arg : Ty := boxed (.named (.of "int" [])) 99
  let use : Reference := .of "A" [arg]
  have knows : r.KnowsBoxes := ⟨rfl, rfl⟩
  have defined : withBoxes.resolveAlias .root (boxed (.named (.of "T" [])) 2) =
      some (⟨twoBoxes.target, .complete⟩, .start .root) :=
    resolve_boxed (r := withBoxes.forAliases) ⟨rfl, rfl⟩ (by decide) (fun _ => rfl) rfl
  obtain ⟨bound, atBound⟩ := r.allowance_eq_add (.named use)
  have given : Quiet ((r.recursion (bound + 1)).arg arg .top) .root (Boxes int 99) := by
    have enough : 99 < r.allowance arg := r.lt_allowance (le_weight_boxed _ 99)
    have lighter : r.allowance arg < r.allowance (.named use) := allowance_lt (Ty.weight_child_lt (List.mem_singleton_self _))
    have ran : (r.recursion (1 + 99)).expr arg Nesting.top.deeper (.start .root) = some (Boxes int 99, .start .root) :=
      expr_boxed knows (by decide) rfl
    exact quiet_of_more (r := r) rfl (.refl _) (by omega) ⟨_, ran, rfl, rfl⟩
  have firm : r.Firm (Boxes int 101) := by
    refine ⟨?_, fun _ => rfl⟩
    change "m.Box" ≠ flexibleAlias
    decide
  have used : Quiet (r.reference (r.recursion (bound + 1)) use .top false) .root (Boxes int 101) :=
    quiet_aliasUse (r := r) rfl rfl rfl rfl rfl rfl (.cons given .nil) rfl firm
  obtain ⟨q, ranUse, complete, silent⟩ := used
  have written : r.resolve (boxed (.named (.of "int" [])) 101) (.start .root) = some (⟨Boxes (.anyAt .error .unknown) 101,
      .complete⟩, { Progress.start .root with reports := [⟨.unknown, .nestedTooDeep⟩] }) :=
    resolve_boxed knows (by decide) (fun _ => rfl) rfl
  exact ⟨_, _, _, _, q, _, defined, rfl, resolve_of_form atBound ranUse complete, silent, written, rfl, nofun⟩

/-- With `A = T` the type `A[FlexibleAlias[int, str]]` is `str`, and the argument alone is not. With `A = Dict[T, A]` the type
`A[int]` is that of a dictionary of anything, while in `Dict[int, A]` the name `A` has come to mean a dictionary. And boxes that
are not too many in an argument can be too many when they are written in other boxes. -/
theorem alias_opaque :
    withFlexible.SetsApart (.named (.of "T" [])) flexibleOfIntStr [] ∧
    withTypeVar.SetsApart (dictToItself (.named (.of "T" []))) (.named (.of "int" [])) [] ∧
    withBoxes.SetsApart (boxed (.named (.of "T" [])) 2) (boxed (.named (.of "int" [])) 99) [⟨.unknown, .nestedTooDeep⟩] :=
  ⟨⟨_, _, _, _, _, _, rfl, rfl, rfl, rfl, rfl, rfl, nofun⟩, ⟨_, _, _, _, _, _, rfl, rfl, rfl, rfl, rfl, rfl, nofun⟩,
    boxes_setApart⟩

end Resolver

end TypeResolution
