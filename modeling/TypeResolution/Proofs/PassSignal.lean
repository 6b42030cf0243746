import TypeResolution.Proofs.Inherited
import TypeResolution.Proofs.Parts
import TypeResolution.Proofs.Prelude
import TypeResolution.SemanticPass

namespace TypeResolution

/-- A type is no reference to a class to come. -/
def Ty.NotForward : Ty → Prop
  | .forward .. => False
  | _ => True

/-- A record of a run that is not the last one and is known not to be complete. -/
def Progress.Unsettled (r : Resolver) (q : Progress) : Prop := r.table.finalPass = false ∧ q.status ≠ .complete

theorem Progress.Unsettled.later {r : Resolver} {q q' : Progress} (unsettled : q.Unsettled r) (after : q.Precedes q') :
    q'.Unsettled r := by
  refine ⟨unsettled.1, fun finished => unsettled.2 ?_⟩
  have status := after.status
  rw [finished] at status
  exact PassStatus.eq_complete_of_merge status

theorem Ty.notForward_inherited (unsettled : Prop) :
    Inherited NotForward fun t => unsettled ∨ t.Everywhere NotForward where
  composed {t} _ := by
    cases t <;> trivial
  rebuilt {t} cs _ atRoot := by
    cases t <;> trivial
  node {t} atRoot parts := by
    by_cases excused : unsettled
    · exact .inl excused
    · exact .inr (everywhere_iff.2 ⟨atRoot, fun c member => (parts c member).resolve_left excused⟩)
  part _ holds member := holds.imp_right fun all => all.child member
  move {t} pos holds := by
    refine holds.imp_right fun all => all.moved ?_
    have atRoot := all.root
    cases t <;> trivial

namespace Resolver

variable {r : Resolver}

/-- The expressions that are kept with whatever stands inside: instances, and references to type variables that are
free where they stand. -/
def KeepsWhole (r : Resolver) (s : Scope) : Ty → Prop
  | .inst _ => True
  | .named ref => r.IsFreeVariable ref s
  | _ => False

/-- References to classes to come stand only where they are looked up again, not inside of what is kept. -/
abbrev ForwardsRead (r : Resolver) : Scope → Ty → Prop := r.HoldsInKept r.KeepsWhole Ty.NotForward

/-- What is asked of a table: no reference to a class to come stands in the target of an alias, or inside of what is
kept of the base of a class, wherever in the scope `s₀` the class is used. -/
structure ForwardsApart (r : Resolver) (s₀ : Scope) : Prop where
  target {decl : AliasDecl} : r.table.Holds (.aliasDef decl) → decl.target.Everywhere Ty.NotForward
  tupleBase {s : Scope} {decl : ClassDecl} {base : TupleShape} : s.BindsAllOf s₀ → r.table.Holds (.classDef decl) →
    decl.tupleBase = some base → ∀ t ∈ base.items, r.ForwardsRead s t
  recordBase {s : Scope} {decl : ClassDecl} {base : RecordShape} : s.BindsAllOf s₀ → r.table.Holds (.classDef decl) →
    decl.recordBase = some base → ∀ field ∈ base.fields, r.ForwardsRead s field.2

/-- A reference to a class to come is made only where more passes follow, and never silently, if none stands in what is
kept. -/
theorem rule_signal_of_kept {In : Scope → Ty → Prop} (reads : r.ReadsBases In)
    (target : ∀ {s ref decl}, In s (.named ref) → r.UsesAlias ref decl → decl.target.Everywhere Ty.NotForward)
    (kept : ∀ {s t}, In s t → r.KeepsWhole s t → ∀ c ∈ t.children, c.Everywhere Ty.NotForward) :
    r.Rule In fun _ q t => q.Unsettled r ∨ t.Everywhere Ty.NotForward := by
  refine .ofInherited (fun _ q => Ty.notForward_inherited (q.Unsettled r)) reads ?_ ?_ ?_ ?_ ?_ ?_ ?_ ?_ ?_
  · intro s ref decl given uses x reached
    exact .inl (target given uses x reached)
  · intro p p' q q' t _ _ after made
    exact made.imp_left fun unsettled => unsettled.later after
  · intro p q t settled given
    right
    cases t with
    | inst => exact Ty.everywhere_iff.2 ⟨trivial, kept given trivial⟩
    | any | noneType | never | deleted | typeVar | literal => exact Ty.everywhere_of_leaf rfl trivial
    | _ => cases settled
  · intro p q fullname args pos _ _ notFinal unfinished
    exact .inl ⟨notFinal, unfinished⟩
  · intro p q ref symbol decl given found _ defined free _
    exact .inr (Ty.everywhere_iff.2 ⟨trivial, kept given ⟨symbol, decl, found, defined, free⟩⟩)
  · intro p q fullname binding pos _
    exact .inr (Ty.everywhere_of_leaf rfl trivial)
  · intro p q signature args ret bindings fallback _ _ parts
    exact (Ty.notForward_inherited (q.Unsettled r)).node trivial parts
  · intro p q args fullname pos notFinal unfinished _
    exact .inl ⟨notFinal, unfinished⟩
  · intro p q ref symbol d args _ _ _ _ _ _ parts
    exact (Ty.notForward_inherited (q.Unsettled r)).node trivial parts

theorem reads_forwards {s₀ : Scope} (apart : r.ForwardsApart s₀) :
    r.ReadsBases fun s t => s.BindsAllOf s₀ ∧ r.ForwardsRead s t :=
  reads_holdsInKept (fun _ _ keeps => keeps) apart.tupleBase apart.recordBase

theorem rule_signal {s₀ : Scope} (apart : r.ForwardsApart s₀) :
    r.Rule (fun s t => s.BindsAllOf s₀ ∧ r.ForwardsRead s t) fun _ q t =>
      q.Unsettled r ∨ t.Everywhere Ty.NotForward :=
  rule_signal_of_kept (reads_forwards apart) (fun _ uses => apart.target uses.holds) fun given => given.2.kept

/-- A resolution from a record that is not deferred does not end deferred on the final pass. -/
theorem Leads.not_deferred {p q : Progress} (leads : r.Leads p q) (fresh : p.status ≠ .deferred)
    (final : r.table.finalPass = true) : q.status ≠ .deferred :=
  fun was => fresh (leads.settles final was)

/-- A status that a resolver answers when it is started afresh, be it for an expression or for a signature. -/
inductive Answers (r : Resolver) (status : PassStatus) : Prop
  | expr {t : Ty} {p q : Progress} {result : Resolution} : p.status = .complete →
      r.resolve t p = some (result, q) → result.status = status → r.Answers status
  | signature {s : Signature} {p q : Progress} {result : Resolution} : p.status = .complete →
      r.resolveSignature s p = some (result, q) → result.status = status → r.Answers status

/-- The rule that asks nothing and promises nothing. -/
theorem rule_nothing (r : Resolver) : r.Rule (fun _ _ => True) fun _ _ _ => True := by
  constructor <;> intros <;> first | trivial | constructor <;> intros <;> trivial

theorem Answers.not_deferred {status : PassStatus} (noHooks : r.hooks = .empty) (final : r.table.finalPass = true)
    (answers : r.Answers status) : status ≠ .deferred := by
  cases answers with
  | expr fresh ran answered =>
    obtain ⟨q', leads, _, _, same, _⟩ := resolve_made r.rule_nothing noHooks ran trivial
    rw [← answered, same]
    exact leads.not_deferred (by simp [fresh]) final
  | signature fresh ran answered =>
    obtain ⟨q', leads, _, _, same, _⟩ := resolveSignature_made r.rule_nothing noHooks ran trivial
    rw [← answered, same]
    exact leads.not_deferred (by simp [fresh]) final

end Resolver

namespace SemanticPass

/-- What a unit tells in each pass is the merge of the statuses of resolutions that were started afresh, without hooks,
on the pass that the loop is in. -/
def Pass.MergesAnswers {σ : Type} (unit : Pass σ) : Prop :=
  ∀ pass table state, ∃ statuses : List PassStatus,
    (unit pass table state).1 = statuses.foldr PassStatus.merge .complete ∧
    ∀ status ∈ statuses, ∃ r : Resolver, r.hooks = .empty ∧ r.table.finalPass = table.finalPass ∧ r.Answers status

theorem foldr_merge_not_deferred {statuses : List PassStatus} (each : ∀ status ∈ statuses, status ≠ .deferred) :
    statuses.foldr PassStatus.merge .complete ≠ .deferred := by
  induction statuses with
  | nil => simp
  | cons status statuses ih =>
    intro merged
    rcases PassStatus.deferred_of_merge merged with here | there
    · exact each status List.mem_cons_self here
    · exact ih (fun other member => each other (List.mem_cons_of_mem status member)) there

theorem Pass.MergesAnswers.final {σ : Type} {unit : Pass σ} (merges : unit.MergesAnswers) {table : SymbolTable}
    (final : table.finalPass = true) (pass : Nat) (state : σ) : (unit pass table state).1 ≠ .deferred := by
  obtain ⟨statuses, told, each⟩ := merges pass table state
  rw [told]
  refine foldr_merge_not_deferred fun status member => ?_
  obtain ⟨r, noHooks, same, answers⟩ := each status member
  exact answers.not_deferred noHooks (same.trans final)

/-- The loop ends early only when a pass is complete, and its last pass is the final one. -/
theorem runFrom_not_deferred {σ : Type} {unit : Pass σ} (merges : unit.MergesAnswers) (left pass : Nat)
    (table : SymbolTable) (state : σ) : (runFrom unit left pass table state).1.status ≠ .deferred := by
  induction left generalizing pass table state with
  | zero =>
    have isFinal : (table.withFinalPass (0 == 0)).finalPass = true := rfl
    have final := merges.final isFinal pass state
    rw [runFrom]
    generalize unit pass (table.withFinalPass (0 == 0)) state = told at final
    obtain ⟨status, table', state'⟩ := told
    cases status with
    | complete | incomplete => simp
    | deferred => exact absurd rfl final
  | succ left ih =>
    rw [runFrom]
    generalize unit pass (table.withFinalPass (left + 1 == 0)) state = told
    obtain ⟨status, table', state'⟩ := told
    cases status with
    | complete => simp
    | incomplete | deferred => exact ih _ _ _

end SemanticPass

/-- What a status tells of a result. On the final pass nothing is deferred and no reference to a class to come is left,
before it none is left in a complete result, and a loop of passes does not end deferred. -/
theorem Resolver.resolution_signal :
    (∀ {r : Resolver} {p q : Progress} {result : Resolution}, r.hooks = .empty → r.ForwardsApart p.scope →
      p.status ≠ .deferred →
      (∃ t, r.ForwardsRead p.scope t ∧ r.resolve t p = some (result, q)) ∨
        (∃ s, r.ForwardsRead p.scope (.callable s) ∧ r.resolveSignature s p = some (result, q)) →
      (r.table.finalPass = true → result.status ≠ .deferred ∧ result.type.Everywhere Ty.NotForward) ∧
      (r.table.finalPass = false → ¬ result.type.Everywhere Ty.NotForward → result.status ≠ .complete)) ∧
    (∀ {σ : Type} (loop : SemanticPass) (unit : SemanticPass.Pass σ) (table : SymbolTable) (state : σ),
      unit.MergesAnswers → (loop.run unit table state).1.status ≠ .deferred) := by
  refine ⟨fun {r p q result} noHooks apart fresh ran => ?_, fun loop unit table state merges => ?_⟩
  · obtain ⟨q', leads, answered, made⟩ : ∃ q', r.Leads p q' ∧ result.status = q'.status ∧
        (q'.Unsettled r ∨ result.type.Everywhere Ty.NotForward) := by
      have rule := rule_signal apart
      rcases ran with ⟨t, given, ran⟩ | ⟨s, given, ran⟩
      · obtain ⟨q', leads, _, _, answered, made⟩ := resolve_made rule noHooks ran ⟨.refl _, given⟩
        exact ⟨q', leads, answered, made⟩
      · obtain ⟨q', leads, _, _, answered, made⟩ := resolveSignature_made rule noHooks ran ⟨.refl _, given⟩
        exact ⟨q', leads, answered, made⟩
    rw [answered]
    constructor
    · intro final
      have settled : ¬ q'.Unsettled r := by
        rintro ⟨notFinal, _⟩
        rw [final] at notFinal
        cases notFinal
      exact ⟨leads.not_deferred fresh final, made.resolve_left settled⟩
    · intro _ left
      exact (made.resolve_right left).2
  · exact SemanticPass.runFrom_not_deferred merges _ _ _ _

/-- A module in which the class `Later` is known to come. -/
def SymbolTable.withPending : SymbolTable := (empty "m").define (.pendingDef ⟨"m.Later", true⟩)

/-- The resolver of one pass, which waits for classes to come. -/
def Resolver.ofPass (table : SymbolTable) : Resolver :=
  ⟨table, .empty, .default, { Flags.default with allowForward := true }⟩

/-- A unit that resolves the same expression in each pass. -/
def SemanticPass.resolving (t : Ty) : SemanticPass.Pass Unit := fun _ table state =>
  (((Resolver.ofPass table).resolve t (.start .root)).elim .complete fun ended => ended.1.status, table, state)

theorem SemanticPass.resolving_mergesAnswers (t : Ty) : (resolving t).MergesAnswers := by
  intro pass table state
  cases ran : (Resolver.ofPass table).resolve t (.start .root) with
  | none => exact ⟨[], by simp [resolving, ran], by simp⟩
  | some ended =>
    obtain ⟨result, q⟩ := ended
    have alone : result.status.merge .complete = result.status := by cases result.status <;> rfl
    refine ⟨[result.status], by simp [resolving, ran, alone], fun status member => ?_⟩
    rw [List.mem_singleton.1 member]
    exact ⟨.ofPass table, rfl, rfl, .expr rfl ran rfl⟩

/-- Before the final pass a class to come is deferred, and a loop that waits for it comes to an end all the same. -/
theorem Resolver.resolution_signal_pending :
    (∃ result q, (Resolver.mk SymbolTable.withPending .empty .default .default).resolve (.named (.of "Later" []))
        (.start .root) = some (result, q) ∧ ¬ result.type.Everywhere Ty.NotForward ∧ result.status ≠ .complete) ∧
      (SemanticPass.default.run (SemanticPass.resolving (.named (.of "Later" []))) SymbolTable.withPending ()).1.status ≠
        .deferred := by
  obtain ⟨ofResults, ofLoops⟩ := resolution_signal
  have noDefinition {d : Definition} (holds : SymbolTable.withPending.Holds d) : d = .pendingDef ⟨"m.Later", true⟩ :=
    (SymbolTable.holds_define holds).resolve_right SymbolTable.not_holds_empty
  have apart : (Resolver.mk SymbolTable.withPending .empty .default .default).ForwardsApart .root := by
    constructor
    · intro decl holds
      cases noDefinition holds
    · intro s decl base _ holds
      cases noDefinition holds
    · intro s decl base _ holds
      cases noDefinition holds
  refine ⟨?_, ofLoops _ _ _ _ (SemanticPass.resolving_mergesAnswers _)⟩
  let left : Ty := .forward (some "m.Later") [] .unknown
  have ran : (Resolver.mk SymbolTable.withPending .empty .default .default).resolve (.named (.of "Later" []))
      (.start .root) = some (⟨left, .incomplete⟩, ⟨.root, .complete, [], []⟩) := rfl
  have pending : ¬ left.Everywhere Ty.NotForward := fun all => all.root
  have given : (Resolver.mk SymbolTable.withPending .empty .default .default).ForwardsRead Scope.root
      (.named (.of "Later" [])) := .of_everywhere (Ty.everywhere_of_leaf rfl trivial) _
  exact ⟨_, _, ran, pending, (ofResults rfl apart (by simp [Progress.start]) (.inl ⟨_, given, ran⟩)).2 rfl pending⟩

/-- A class that derives from a tuple of `T[Later]`, where `T` is a type variable and `Later` a class to come. -/
def ClassDecl.ofForwardInVariable : ClassDecl :=
  ⟨.plain "m.NT", some ⟨[.named (.of "T" [.forward (some "m.Later") [] .unknown])],
    .of (.plain "builtins.tuple") [] .unknown, false, .unknown⟩, none⟩

/-- The last pass over a module with that class, with leave to use variables that nothing binds. -/
def Resolver.ofForwardInVariable : Resolver :=
  ⟨(((SymbolTable.empty "m").define (.typeVarDef (.plain "m.T"))).define (.classDef .ofForwardInVariable)).withFinalPass
    true, .empty, .default, { Flags.none with allowUnboundVariables := true }⟩

/-- References to classes to come that stand in the base of a class, though in no instance, may be left on the final
pass: a variable that nothing binds is kept with its arguments. -/
theorem Resolver.forward_left_in_variable :
    ofForwardInVariable.hooks = .empty ∧ ofForwardInVariable.table.finalPass = true ∧
      (∀ decl, ofForwardInVariable.table.Holds (.aliasDef decl) → decl.target.Everywhere Ty.NotForward) ∧
      (∀ decl, ofForwardInVariable.table.Holds (.classDef decl) → decl.recordBase = none ∧
        ∀ base, decl.tupleBase = some base → ∀ t ∈ base.items, ∀ i, Ty.Inside (.inst i) t →
          (Ty.inst i).Everywhere Ty.NotForward) ∧
      ofForwardInVariable.ForwardsRead .root (.named (.of "NT" [])) ∧
      ∃ result q, ofForwardInVariable.resolve (.named (.of "NT" [])) (.start .root) = some (result, q) ∧
        result.status = .complete ∧ ¬ result.type.Everywhere Ty.NotForward := by
  let item : Ty := .named (.of "T" [.forward (some "m.Later") [] .unknown])
  have definitions {d : Definition} (holds : ofForwardInVariable.table.Holds d) :
      d = .classDef .ofForwardInVariable ∨ d = .typeVarDef (.plain "m.T") := by
    rcases SymbolTable.holds_define holds with same | holds
    · exact .inl same
    · exact .inr ((SymbolTable.holds_define holds).resolve_right SymbolTable.not_holds_empty)
  have noInstance (i : Instance) : ¬ Ty.Inside (.inst i) (.named (.of "T" [.forward (some "m.Later") [] .unknown])) := by
    intro reached
    cases reached with
    | child member reached =>
      rw [List.mem_singleton.1 member] at reached
      cases reached with
      | child member _ => cases member
  refine ⟨rfl, rfl, fun decl holds => ?_, fun decl holds => ?_, ?_, ?_⟩
  · rcases definitions holds with impossible | impossible <;> cases impossible
  · rcases definitions holds with same | impossible
    · cases same
      refine ⟨rfl, fun base atBase t member i reached => ?_⟩
      cases atBase
      rw [List.mem_singleton.1 member] at reached
      exact absurd reached (noInstance i)
    · cases impossible
  · exact .of_everywhere (Ty.everywhere_of_leaf rfl trivial) _
  · refine ⟨⟨.tuple ⟨[item], .of (.plain "m.NT") [] .unknown, false, .unknown⟩, .complete⟩, ⟨.root, .complete, [], []⟩,
      rfl, rfl, fun all => ?_⟩
    have atItem : item.Everywhere Ty.NotForward := all.child List.mem_cons_self
    exact (atItem.child List.mem_cons_self).root

end TypeResolution
