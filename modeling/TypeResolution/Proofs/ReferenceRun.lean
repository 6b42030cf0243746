import TypeResolution.Proofs.ResultRun

namespace TypeResolution

open Resolve

namespace Resolver

variable {r : Resolver} {In : Scope → Ty → Prop} {Out : Progress → Progress → Ty → Prop} {again : Recursion}

theorem symbolType_eq (noHooks : r.hooks = .empty) (again : Recursion) (d : Definition) (fullname : String)
    (ref : Reference) (level : Nesting) (inLiteral : Bool) :
    r.symbolType again d fullname ref level inLiteral =
      ((if (builtinReplacement? fullname).isSome && !ref.args.isEmpty && !r.flags.allowUnnormalized then
          report ref.pos (subscriptProblem fullname !r.flags.definingAlias)
        else pure ()) >>= fun _ => scope >>= fun s =>
          match SpecialForm.ofName? fullname, bindsTypeVar d s fullname with
          | some form, false => r.specialForm again form ref level
          | _, _ => r.definedType again d fullname ref level inLiteral) := by
  have noHook : r.hooks.find? fullname = none := by
    rw [noHooks]
    rfl
  unfold symbolType
  rw [noHook]
  dsimp only
  split <;> rfl

section References

variable (rule : r.Rule In Out) (obeys : again.Obeys r In Out)

include rule obeys

theorem aliasType_ensures {decl : AliasDecl} {ref : Reference} (uses : r.UsesAlias ref decl) (fullname : String)
    (level : Nesting) {p : Progress}
    (readable : In p.scope (.named ref) → ∀ t ∈ ref.args, In p.scope t) :
    r.Ensures p (r.aliasType again decl fullname ref level) fun a q =>
      q.scope = p.scope ∧ (In p.scope (.named ref) → Out p q a) := by
  rw [aliasType_eq]
  refine (Ensures.useAliases _).bind fun _ q₀ before used => ?_
  have opened : q₀.scope = p.scope := by rw [used]
  refine (args_ensures rule obeys ref.args level q₀).bind fun args q₁ _ made => ?_
  refine (Ensures.reportAll _).bind fun _ q₂ between reported => ?_
  refine (aliasResult_ensures _ _ q₂).mono fun a q₃ after result => ⟨?_, fun given => ?_⟩
  · rw [result.1, reported]
    exact made.1.trans opened
  · rw [result.2]
    refine rule.makeAlias uses given made.2.1 fun t member => ?_
    exact rule.widen before opened.symm (between.trans after) (made.2.2 (opened ▸ readable given) t member)

theorem pendingType_ensures (decl : PendingDecl) (ref : Reference) (level : Nesting) {p : Progress}
    (readable : In p.scope (.named ref) → ∀ t ∈ ref.args, In p.scope t) :
    r.Ensures p (r.pendingType again decl ref level) fun a q =>
      q.scope = p.scope ∧ (In p.scope (.named ref) → Out p q a) := by
  unfold pendingType
  split
  · exact .failAt ⟨rfl, fun _ => rule.makeAny _ _ _⟩
  · rename_i notFinal
    split
    · refine (Ensures.raise (.inl (by simpa using notFinal))).bind fun _ q₀ before raised => ?_
      have unfinished : q₀.status ≠ .complete := by
        subst raised
        cases r.flags.allowForward <;> cases p.status <;> simp [PassStatus.merge]
      subst raised
      refine (args_ensures rule obeys ref.args level _).bind fun args q after made => .pure ⟨made.1, fun given => ?_⟩
      refine rule.makeForward _ _ (by simpa using notFinal) ?_ fun t member => ?_
      · intro finished
        have status := after.status
        rw [finished] at status
        exact unfinished (PassStatus.eq_complete_of_merge status)
      · exact rule.widen before rfl (.refl q) (made.2.2 (readable given) t member)
    · refine (Ensures.raise (.inr (by simp))).bind fun _ q _ raised => ?_
      subst raised
      exact .pure ⟨rfl, fun _ => rule.makeAny _ _ _⟩

theorem noType_ensures {ref : Reference} {symbol : Symbol} {d : Definition}
    (found : r.table.lookup ref.name = some symbol) (plain : SpecialForm.ofName? symbol.fullname = none)
    (defined : symbol.definition = some d) (isNoType : d.isNoType) (level : Nesting) {problem : Problem}
    (rejects : problem.RejectsName) (notes : List Problem) {p : Progress}
    (readable : In p.scope (.named ref) → ∀ t ∈ ref.args, In p.scope t) :
    r.Ensures p (noType again ref level problem notes) fun a q =>
      q.scope = p.scope ∧ (In p.scope (.named ref) → Out p q a) := by
  refine (args_ensures rule obeys ref.args level p).bind fun args q₀ before made => ?_
  refine (Ensures.report _ _).bind fun _ q₁ between reported => ?_
  refine (Ensures.reportAll _).bind fun _ q₂ after noted => .pure ⟨?_, fun given => ?_⟩
  · rw [noted, reported]
    exact made.1
  · refine rule.makeName given found plain defined isNoType ⟨problem, rejects, ?_⟩ made.2.1 fun t member => ?_
    · subst noted reported
      obtain ⟨more, atMore⟩ := before.reports
      simp [Progress.newReports, ← atMore]
    · exact rule.widen (.refl p) rfl (between.trans after) (made.2.2 (readable given) t member)

theorem variableType_ensures (decl : VariableDecl) (fullname : String) {ref : Reference} {symbol : Symbol}
    (found : r.table.lookup ref.name = some symbol) (plain : SpecialForm.ofName? symbol.fullname = none)
    (defined : symbol.definition = some (.variableDef decl)) (level : Nesting) (inLiteral : Bool) {p : Progress}
    (readable : In p.scope (.named ref) → ∀ t ∈ ref.args, In p.scope t) :
    r.Ensures p (variableType again decl fullname ref level inLiteral) fun a q =>
      q.scope = p.scope ∧ (In p.scope (.named ref) → Out p q a) := by
  unfold variableType
  split
  · exact .pure ⟨rfl, fun _ => rule.makeAny _ _ _⟩
  · split
    · exact .pure ⟨rfl, fun _ => rule.makeLiteral _⟩
    · exact .failAt ⟨rfl, fun _ => rule.makeAny _ _ _⟩
  · exact noType_ensures rule obeys found plain defined rfl level ⟨rfl, rfl⟩ _ readable

theorem typeVarType_ensures {ref : Reference} {symbol : Symbol} {decl : TypeVarDecl}
    (found : r.table.lookup ref.name = some symbol) (defined : symbol.definition = some (.typeVarDef decl))
    (level : Nesting) {p : Progress}
    (readable : p.scope.find? symbol.fullname = none → In p.scope (.named ref) → ∀ t ∈ ref.args, In p.scope t)
    (plain : p.scope.find? symbol.fullname = none → SpecialForm.ofName? symbol.fullname = none) :
    r.Ensures p (r.typeVarType again symbol.fullname ref level) fun a q =>
      q.scope = p.scope ∧ (In p.scope (.named ref) → Out p q a) := by
  refine Ensures.scope.bind fun s q _ started => ?_
  obtain ⟨rfl, rfl⟩ := started
  split
  · rename_i binding bound
    split
    · exact .failAt ⟨rfl, fun _ => rule.makeAny _ _ _⟩
    · have finish {p' : Progress} (before : q.Precedes p') (kept : p'.scope = q.scope) :
          r.Ensures p' (pure (.typeVar binding ref.pos)) fun a q' =>
            q'.scope = q.scope ∧ (In q.scope (.named ref) → Out q q' a) :=
        .pure ⟨kept, fun _ => rule.widen before kept.symm (.refl p') (rule.makeVariable ref.pos (kept ▸ bound))⟩
      split
      · refine (Ensures.report _ _).bind fun _ q' before reported => ?_
        subst reported
        exact finish before rfl
      · exact finish (.refl q) rfl
  · rename_i free
    split
    · rename_i allowed
      exact .pure ⟨rfl, fun given => rule.keepVariable given found (plain free) defined free allowed⟩
    · exact noType_ensures rule obeys found (plain free) defined rfl level ⟨rfl, rfl⟩ _ (readable free)

theorem definedType_ensures {ref : Reference} {symbol : Symbol} {d : Definition}
    (found : r.table.lookup ref.name = some symbol) (defined : symbol.definition = some d)
    (level : Nesting) (inLiteral : Bool) {p : Progress}
    (plain : bindsTypeVar d p.scope symbol.fullname = false → SpecialForm.ofName? symbol.fullname = none) :
    r.Ensures p (r.definedType again d symbol.fullname ref level inLiteral) fun a q =>
      q.scope = p.scope ∧ (In p.scope (.named ref) → Out p q a) := by
  have parts (other : bindsTypeVar d p.scope symbol.fullname = false) (given : In p.scope (.named ref)) :
      ∀ t ∈ ref.args, In p.scope t :=
    rule.reads.args given found (by simp [Symbol.isCallableForm, plain other])
  cases d with
  | classDef decl =>
    refine classType_ensures rule obeys (SymbolTable.holds_of_lookup found defined) ref.pos level (fun given => ?_) (parts rfl)
    exact .named given found defined (by simp [Symbol.isCallableForm, plain rfl])
  | aliasDef decl => exact aliasType_ensures rule obeys ⟨symbol, found, defined⟩ _ level (parts rfl)
  | variableDef decl => exact variableType_ensures rule obeys decl _ found (plain rfl) defined level inLiteral (parts rfl)
  | typeVarDef decl =>
    have unbound (free : p.scope.find? symbol.fullname = none) :
        bindsTypeVar (.typeVarDef decl) p.scope symbol.fullname = false := by simp [bindsTypeVar, free]
    exact typeVarType_ensures rule obeys found defined level (fun free => parts (unbound free))
      fun free => plain (unbound free)
  | pendingDef decl => exact pendingType_ensures rule obeys decl ref level (parts rfl)
  | moduleDef _ => exact noType_ensures rule obeys found (plain rfl) defined rfl level ⟨rfl, rfl⟩ _ (parts rfl)
  | functionDef _ | decoratorDef _ => exact noType_ensures rule obeys found (plain rfl) defined rfl level ⟨rfl, rfl⟩ _ (parts rfl)

theorem symbolType_ensures (noHooks : r.hooks = .empty) {ref : Reference} {symbol : Symbol} {d : Definition}
    (found : r.table.lookup ref.name = some symbol) (defined : symbol.definition = some d)
    (settled : symbol.isPending = false) (level : Nesting) (inLiteral : Bool) (p : Progress) :
    r.Ensures p (r.symbolType again d symbol.fullname ref level inLiteral) fun a q =>
      q.scope = p.scope ∧ (In p.scope (.named ref) → Out p q a) := by
  rw [symbolType_eq noHooks]
  refine Ensures.bind (P := fun _ q => q.scope = p.scope) ?_ fun _ q before kept => ?_
  · split
    · refine (Ensures.report _ _).mono fun _ q _ reported => ?_
      rw [reported]
    · exact .pure rfl
  refine Ensures.scope.bind fun s q' _ started => ?_
  obtain ⟨rfl, rfl⟩ := started
  refine made_since rule before kept ?_
  rw [← kept]
  split
  · rename_i form isForm _
    exact specialForm_ensures rule obeys found settled isForm level q'
  · rename_i notForm
    refine definedType_ensures rule obeys found defined level inLiteral ?_
    intro unbound
    cases isForm : SpecialForm.ofName? symbol.fullname with
    | none => rfl
    | some form => exact absurd unbound (notForm form isForm)

theorem plainReference_ensures (noHooks : r.hooks = .empty) (ref : Reference) (level : Nesting) (inLiteral : Bool)
    (p : Progress) :
    r.Ensures p (r.plainReference again ref level inLiteral) fun a q =>
      q.scope = p.scope ∧ (In p.scope (.named ref) → Out p q a) := by
  unfold plainReference
  split
  · exact .pure ⟨rfl, fun _ => rule.makeAny _ _ _⟩
  · rename_i symbol found
    split
    · refine (Ensures.report _ _).bind fun _ q _ reported => ?_
      subst reported
      exact .pure ⟨rfl, fun _ => rule.makeAny _ _ _⟩
    · rename_i decl defined
      exact pendingType_ensures rule obeys decl ref level fun given =>
        rule.reads.args given found (by simp [Symbol.isCallableForm, Symbol.isPending, defined])
    · rename_i d notPending defined
      refine symbolType_ensures rule obeys noHooks found defined ?_ level inLiteral p
      cases d <;> simp_all [Symbol.isPending]

theorem reference_ensures (noHooks : r.hooks = .empty) (ref : Reference) (level : Nesting) (inLiteral : Bool)
    (p : Progress) :
    r.Ensures p (r.reference again ref level inLiteral) fun a q =>
      q.scope = p.scope ∧ (In p.scope (.named ref) → Out p q a) := by
  refine (plainReference_ensures rule obeys noHooks ref level inLiteral p).bind fun a q _ made => .pure ⟨made.1, fun given => ?_⟩
  split
  · exact rule.makeOptional (made.2 given)
  · exact made.2 given

end References

section Expressions

variable (rule : r.Rule In Out) (obeys : again.Obeys r In Out)

include rule obeys

theorem tupleType_ensures (shape : TupleShape) (level : Nesting) (p : Progress) :
    r.Ensures p (r.tupleType again shape level) fun a q =>
      q.scope = p.scope ∧ (In p.scope (.tuple shape) → Out p q a) := by
  unfold tupleType
  split
  · refine (Ensures.reportAll _).bind fun _ q _ reported => ?_
    subst reported
    exact .pure ⟨rfl, fun _ => rule.makeAny _ _ _⟩
  · split
    · refine (Ensures.report _ _).bind fun _ q _ reported => ?_
      subst reported
      split
      · refine .pure ⟨rfl, fun _ => rule.makeTuple _ _ _ fun t member => ?_⟩
        rw [(List.mem_replicate.1 member).2]
        exact rule.makeAny _ _ _
      · exact .pure ⟨rfl, fun _ => rule.makeAny _ _ _⟩
    · refine (args_ensures rule obeys shape.items level p).bind fun items q _ made => .pure ⟨made.1, fun given => ?_⟩
      exact rule.makeTuple _ _ _ (made.2.2 (rule.reads.children rfl given))

omit obeys in
theorem scalarType_ensures (value : Option LiteralValue) (className : String) (note : Option String)
    (pos : Position) (p : Progress) :
    r.Ensures p (r.scalarType value className note pos) fun a q => q.scope = p.scope ∧ Out p q a := by
  unfold scalarType
  split
  · refine (Ensures.report _ _).bind fun _ q _ reported => ?_
    subst reported
    refine (Ensures.reportAll _).bind fun _ q _ noted => ?_
    subst noted
    exact .pure ⟨rfl, rule.makeAny _ _ _⟩
  · exact .pure ⟨rfl, rule.makeAny _ _ _⟩

theorem forwardType_ensures (fullname : Option String) (args : List Ty) (pos : Position) (level : Nesting)
    (p : Progress) :
    r.Ensures p (r.forwardType again fullname args pos level) fun a q =>
      q.scope = p.scope ∧ (In p.scope (.forward fullname args pos) → Out p q a) := by
  have keep (notClass : ∀ decl, (fullname.bind r.table.find?).bind (·.definition) ≠ some (.classDef decl)) :
      r.Ensures p (if r.table.finalPass then failAt pos (.unresolvedCycle ((fullname.map shortName).getD "?"))
      else do
        raise .deferred
        pure (.forward fullname args pos)) fun a q =>
          q.scope = p.scope ∧ (In p.scope (.forward fullname args pos) → Out p q a) := by
    split
    · exact .failAt ⟨rfl, fun _ => rule.makeAny _ _ _⟩
    · rename_i notFinal
      refine (Ensures.raise (.inl (by simpa using notFinal))).bind fun _ q _ raised => .pure ⟨?_, fun given => ?_⟩
      · rw [raised]
      · refine rule.keepForward given ?_ (by simpa using notFinal) ?_
        · rintro name ⟨⟩
          unfold SymbolTable.findClass?
          split
          · rename_i decl defined
            exact absurd defined (notClass decl)
          · rfl
        rw [raised]
        cases p.status <;> simp [PassStatus.merge]
  unfold forwardType
  split
  · rename_i decl defined
    obtain ⟨name, rfl⟩ : ∃ name, fullname = some name := by
      cases fullname with
      | none => cases defined
      | some name => exact ⟨name, rfl⟩
    have found : r.table.findClass? name = some decl := by
      simp only [Option.bind_some] at defined
      simp [SymbolTable.findClass?, defined]
    obtain ⟨symbol, atName, atSymbol⟩ := Option.bind_eq_some_iff.1 defined
    have holds : r.table.Holds (.classDef decl) := ⟨name, symbol, atName, atSymbol⟩
    exact classType_ensures rule obeys holds pos level (.forward · found) fun given => rule.reads.forward given found
  · rename_i undefined
    exact keep fun decl defined => by cases undefined.symm.trans defined
  · rename_i pending
    exact keep fun decl defined => by cases pending.symm.trans defined
  · exact .failAt ⟨rfl, fun _ => rule.makeAny _ _ _⟩

theorem expr_ensures (noHooks : r.hooks = .empty) (t : Ty) (level : Nesting) (p : Progress) :
    r.Ensures p (r.expr again t level) fun a q => q.scope = p.scope ∧ (In p.scope t → Out p q a) := by
  have reject (reports : List Diagnostic) : r.Ensures p (do
      reportAll reports
      pure Ty.error) fun a q => q.scope = p.scope ∧ (In p.scope t → Out p q a) := by
    refine (Ensures.reportAll _).bind fun _ q _ reported => ?_
    subst reported
    exact .pure ⟨rfl, fun _ => rule.makeAny _ _ _⟩
  unfold expr
  split
  · exact .failAt ⟨rfl, fun _ => rule.makeAny _ _ _⟩
  cases t with
  | named ref => exact reference_ensures rule obeys noHooks ref level false p
  | any | noneType | never | deleted | inst | typeVar | literal => exact .pure ⟨rfl, rule.keepSettled rfl⟩
  | bracketed | argument | ellipsis => exact reject _
  | callable s => exact signature_ensures rule obeys s level level.deeper p
  | tuple shape => exact tupleType_ensures rule obeys shape level p
  | record shape =>
    refine (fields_ensures rule obeys shape.fields level p).bind fun fields q _ made => .pure ⟨made.1, fun given => ?_⟩
    refine rule.makeRecord _ _ _ (made.2 fun field member => ?_)
    exact rule.reads.children rfl given _ (List.mem_map_of_mem member)
  | scalar value className note pos =>
    exact (scalarType_ensures rule value className note pos p).mono fun _ _ _ made => ⟨made.1, fun _ => made.2⟩
  | star item pos =>
    refine (arg_ensures obeys item level p).bind fun item q _ made => .pure ⟨made.1, fun given => ?_⟩
    exact rule.makeStar pos (made.2 (rule.reads.children rfl given _ (by simp [Ty.children])))
  | union members pos =>
    refine (args_ensures rule obeys members level p).bind fun items q _ made => .pure ⟨made.1, fun given => ?_⟩
    exact rule.makeUnion pos (made.2.2 (rule.reads.children rfl given))
  | classObject item pos =>
    refine (arg_ensures obeys item level p).bind fun item q _ made => .pure ⟨made.1, fun given => ?_⟩
    exact rule.makeClassObject pos (made.2 (rule.reads.children rfl given _ (by simp [Ty.children])))
  | forward fullname args pos => exact forwardType_ensures rule obeys fullname args pos level p

end Expressions

/-- What is true of parts is true of whole results, however deep the recursion goes. -/
theorem recursion_obeys (rule : r.Rule In Out) (noHooks : r.hooks = .empty) (bound : Nat) :
    (r.recursion bound).Obeys r In Out := by
  induction bound with
  | zero => exact ⟨fun _ _ _ => .stuck, fun _ _ _ => .stuck, fun _ _ _ _ _ => .stuck⟩
  | succ bound ih =>
    refine ⟨fun t level p => expr_ensures rule ih noHooks t level p, fun ref level p => ?_,
      fun index t pos level p => literals_ensures ih index t pos level p⟩
    exact (reference_ensures rule ih noHooks ref level true p).mono fun _ _ _ made => made.1

theorem settle_ensures (t : Ty) (p : Progress) :
    ∀ result q, settle t p = some (result, q) → result.type = t ∧ result.status = p.status ∧ q = { p with status := .complete } := by
  rintro result q ⟨⟩
  exact ⟨rfl, rfl, rfl⟩

/-- Each type that an expression is resolved to is one that the rule allows. -/
theorem resolve_made (rule : r.Rule In Out) (noHooks : r.hooks = .empty) {t : Ty} {p q : Progress}
    {result : Resolution} (ran : r.resolve t p = some (result, q)) (given : In p.scope t) :
    ∃ q', r.Leads p q' ∧ q'.scope = p.scope ∧ q = { q' with status := .complete } ∧
      result.status = q'.status ∧ Out p q' result.type := by
  obtain ⟨⟨resolved, q'⟩, ranFirst, ended⟩ := Option.bind_eq_some_iff.1 ran
  obtain ⟨before, kept, made⟩ := (recursion_obeys rule noHooks _).expr t .top p resolved q' ranFirst
  obtain ⟨type, status, rfl⟩ := settle_ensures resolved q' result q ended
  exact ⟨q', before, kept, rfl, status, type ▸ made given⟩

/-- Each type that a signature is resolved to is one that the rule allows. -/
theorem resolveSignature_made (rule : r.Rule In Out) (noHooks : r.hooks = .empty) {s : Signature}
    {p q : Progress} {result : Resolution} (ran : r.resolveSignature s p = some (result, q))
    (given : In p.scope (.callable s)) :
    ∃ q', r.Leads p q' ∧ q'.scope = p.scope ∧ q = { q' with status := .complete } ∧
      result.status = q'.status ∧ Out p q' result.type := by
  obtain ⟨⟨resolved, q'⟩, ranFirst, ended⟩ := Option.bind_eq_some_iff.1 ran
  obtain ⟨before, kept, made⟩ :=
    signature_ensures rule (recursion_obeys rule noHooks _) s .top .top p resolved q' ranFirst
  obtain ⟨type, status, rfl⟩ := settle_ensures resolved q' result q ended
  exact ⟨q', before, kept, rfl, status, type ▸ made given⟩

end Resolver
end TypeResolution
