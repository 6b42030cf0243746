import TypeResolution.Proofs.MetVariables

namespace TypeResolution

open Resolve

/-- The recursive calls report of no type variable that it is unbound, if none is met that is, and turn a name without type
variables into a type without. -/
structure Recursion.KeepsBound (again : Recursion) (r : Resolver) : Prop where
  expr {t : Ty} {s : Scope} (level : Nesting) : r.MeetsBound s t →
    ReportsOnly Problem.NotUnbound (again.expr t level) s
  literalName {ref : Reference} {s : Scope} (level : Nesting) : r.MeetsBound s (.named ref) →
    ReportsOnly Problem.NotUnbound (again.literalName ref level) s
  literals {t : Ty} (index : Nat) (pos : Position) (level : Nesting) (s : Scope) : t.Throughout r.table.NoVariable →
    ReportsOnly Problem.NotUnbound (again.literals index t pos level) s
  made {ref : Reference} {level : Nesting} {p q : Progress} {a : Ty} : again.literalName ref level p = some (a, q) →
    (Ty.named ref).Throughout r.table.NoVariable → a.Throughout r.table.NoVariable

namespace Resolver

variable {r : Resolver} {again : Recursion} [again.Steady] {s : Scope}

omit [again.Steady] in
theorem omittedArguments_reports (ref : Reference) : ReportsOnly Problem.NotUnbound (r.omittedArguments ref) s := by
  have run : ReportsOnly Problem.NotUnbound (reportAll (omittedAny r.disallowsOmitted ref.pos none ref.name).2 >>= fun _ =>
      pure (omittedAny r.disallowsOmitted ref.pos none ref.name).1) s :=
    (ReportsOnly.onTheSide (omittedAny_onTheSide _ _ _ _)).map
  exact run

omit [again.Steady] in
theorem fixArity_reports (i : Instance) (fromAlias : Bool) (written : Option String) :
    ReportsOnly Problem.NotUnbound (r.fixArity i fromAlias written) s := by
  unfold fixArity
  split
  · exact .pure _
  · exact (ReportsOnly.onTheSide (fixInstance_onTheSide _ _ _ _)).map

omit [again.Steady] in
theorem requiredInstance_reports (fullname : String) (pos : Position) :
    ReportsOnly Problem.NotUnbound (r.requiredInstance fullname pos) s := by
  unfold requiredInstance
  split
  · exact .pure _
  · split
    · exact (ReportsOnly.raise _).map
    · exact (ReportsOnly.report (Problem.notUnbound rfl)).map

omit [again.Steady] in
theorem literalOf_reports (value : LiteralValue) (className : String) (pos : Position) :
    ReportsOnly Problem.NotUnbound (r.literalOf value className pos) s := by
  rw [literalOf_eq]
  exact (requiredInstance_reports _ pos).map

omit [again.Steady] in
theorem noLiteral_reports {pos : Position} {problem : Problem} (other : problem.NotUnbound) :
    ReportsOnly Problem.NotUnbound (noLiteral pos problem) s :=
  (ReportsOnly.report other).map

omit [again.Steady] in
theorem scalarType_reports (value : Option LiteralValue) (className : String) (note : Option String) (pos : Position) :
    ReportsOnly Problem.NotUnbound (r.scalarType value className note pos) s := by
  have problem : (scalarProblem value className).NotUnbound := by
    unfold scalarProblem
    repeat' split
    all_goals exact rfl
  have noted : ∀ report ∈ note.toList.map (⟨pos, .remarked ·⟩ : String → Diagnostic), report.problem.NotUnbound := by
    intro report member
    obtain ⟨text, _, rfl⟩ := List.mem_map.1 member
    exact rfl
  unfold scalarType
  split
  · exact (ReportsOnly.report problem).andThen fun _ => (ReportsOnly.reportAll noted).map
  · exact .pure _

section Parts

variable (keeps : again.KeepsBound r)

include keeps

theorem args_reports {ts : List Ty} {level : Nesting} (meets : ∀ t ∈ ts, r.MeetsBound s t) :
    ReportsOnly Problem.NotUnbound (again.args ts level) s :=
  .mapM fun t member => keeps.expr level.deeper (meets t member)

theorem fields_reports {fields : List (String × Ty)} {level : Nesting} (meets : ∀ field ∈ fields, r.MeetsBound s field.2) :
    ReportsOnly Problem.NotUnbound (again.fields fields level) s :=
  .mapM fun field member => (keeps.expr level.deeper (meets field member)).map

theorem literalsOf_reports {t : Ty} (none : t.Throughout r.table.NoVariable) (index : Nat) (pos : Position) (level : Nesting) :
    ReportsOnly Problem.NotUnbound (r.literalsOf again index t pos level) s := by
  unfold literalsOf
  split
  · split
    · exact .pure _
    · exact noLiteral_reports rfl
  · exact literalOf_reports _ _ _
  · dsimp only
    split <;> exact noLiteral_reports rfl
  · exact .pure _
  · exact .pure _
  · exact .pure _
  · exact .collectWhile fun m member => keeps.literals index pos level s (none.child member)
  · exact noLiteral_reports rfl

theorem literals_reports {t : Ty} (none : t.Throughout r.table.NoVariable) (index : Nat) (pos : Position) (level : Nesting) :
    ReportsOnly Problem.NotUnbound (r.literals again index t pos level) s := by
  unfold literals
  split
  · split
    · exact literalOf_reports _ _ _
    · refine (keeps.literalName level.deeper (.of_none none s)).bind fun resolved q ran => ?_
      exact literalsOf_reports keeps (keeps.made ran none) index pos level
  · exact literalsOf_reports keeps none index pos level

theorem literalForm_reports {ref : Reference} (none : ∀ t ∈ ref.args, t.Throughout r.table.NoVariable) (level : Nesting) :
    ReportsOnly Problem.NotUnbound (r.literalForm again ref level) s := by
  rw [literalForm_eq]
  split
  · exact .failAt rfl
  · refine (ReportsOnly.collectWhile fun numbered member => ?_).map
    obtain ⟨t, index⟩ := numbered
    have atArg : t ∈ ref.args := List.fst_mem_of_mem_zipIdx member
    exact literals_reports keeps (none t atArg) index ref.pos level

theorem signature_reports (table : r.TableThroughout r.table.NoVariable r.table.NoVariable) {signature : Signature}
    (meets : r.MeetsBound s (.callable signature)) (level inner : Nesting) :
    ReportsOnly Problem.NotUnbound (r.signature again signature level inner) s := by
  obtain ⟨declares, parts⟩ : DeclaresThroughout r.table.NoVariable (.callable signature) ∧
      ∀ c ∈ (Ty.callable signature).children, r.MeetsBound (r.innerScope s signature) c := by
    cases meets with
    | signature declares parts => exact ⟨declares, parts⟩
    | other inPlace => cases inPlace
  have inner : ReportsOnly Problem.NotUnbound
      (r.signatureParts again signature (r.innerBindings s signature) level inner) (r.innerScope s signature) := by
    unfold signatureParts
    refine (ReportsOnly.mapM fun t member => keeps.expr inner (parts t (List.mem_append_left _ member))).andThen fun _ => ?_
    refine (keeps.expr inner (parts _ (List.mem_append_right _ (List.mem_singleton_self _)))).andThen fun _ => ?_
    refine (ReportsOnly.mapM fun binding member => ?_).map
    obtain ⟨values, upperBound⟩ := innerBindings_throughout table declares member
    refine (args_reports keeps fun v atValue => .of_none (values v atValue) _).andThen fun _ => ?_
    exact (keeps.expr level (.of_none upperBound _)).map
  rw [signature_within]
  refine .scope ?_
  exact (ReportsOnly.onTheSide (r.innerReports_onTheSide s signature)).andThen fun _ => .within inner

theorem noType_reports {ref : Reference} {level : Nesting} {problem : Problem} {notes : List Problem}
    (meets : ∀ t ∈ ref.args, r.MeetsBound s t) (other : problem.NotUnbound) (others : ∀ note ∈ notes, note.NotUnbound) :
    ReportsOnly Problem.NotUnbound (noType again ref level problem notes) s := by
  have noted : ∀ report ∈ notes.map (⟨ref.pos, ·⟩ : Problem → Diagnostic), report.problem.NotUnbound := by
    intro report member
    obtain ⟨note, atNote, rfl⟩ := List.mem_map.1 member
    exact others note atNote
  refine (args_reports keeps meets).andThen fun _ => ?_
  exact (ReportsOnly.report other).andThen fun _ => (ReportsOnly.reportAll noted).map

theorem classType_reports {decl : ClassDecl} {args : List Ty} {pos : Position} {level : Nesting}
    (meets : ∀ t ∈ args, r.MeetsBound s t)
    (tupleBase : ∀ {base}, decl.tupleBase = some base → ∀ t ∈ base.items, r.MeetsBound s t)
    (recordBase : ∀ {base}, decl.recordBase = some base → ∀ field ∈ base.fields, r.MeetsBound s field.2) :
    ReportsOnly Problem.NotUnbound (r.classType again decl args pos level) s := by
  rw [classType_eq]
  split
  · exact (args_reports keeps meets).map
  · rw [classInstance_eq]
    refine (args_reports keeps meets).andThen fun resolved => (fixArity_reports _ _ _).andThen fun i => ?_
    unfold classBase
    split
    · rename_i atBase
      split
      · exact .failAt rfl
      · exact (args_reports keeps (tupleBase atBase)).map
    · rename_i atBase
      split
      · exact .failAt rfl
      · exact (fields_reports keeps (recordBase atBase)).map
    · exact .pure _

theorem aliasType_reports (decl : AliasDecl) (fullname : String) {ref : Reference} {level : Nesting}
    (meets : ∀ t ∈ ref.args, r.MeetsBound s t) :
    ReportsOnly Problem.NotUnbound (r.aliasType again decl fullname ref level) s := by
  rw [aliasType_eq]
  refine (ReportsOnly.useAliases _).andThen fun _ => (args_reports keeps meets).andThen fun args => ?_
  refine (ReportsOnly.onTheSide (decl.expand_onTheSide _ _ _ _)).andThen fun _ => ?_
  unfold aliasResult
  split
  · exact (fixArity_reports _ _ _).map
  · exact .pure _

theorem pendingType_reports (decl : PendingDecl) {ref : Reference} {level : Nesting}
    (meets : r.table.finalPass = false ∧ decl.becomesClass = true → ∀ t ∈ ref.args, r.MeetsBound s t) :
    ReportsOnly Problem.NotUnbound (r.pendingType again decl ref level) s := by
  unfold pendingType
  split
  · exact .failAt rfl
  · rename_i notFinal
    split
    · rename_i becomes
      have inArgs := meets ⟨Bool.eq_false_iff.2 notFinal, becomes⟩
      exact (ReportsOnly.raise _).andThen fun _ => (args_reports keeps inArgs).map
    · exact (ReportsOnly.raise _).map

theorem variableType_reports (decl : VariableDecl) (fullname : String) {ref : Reference} {level : Nesting}
    (meets : ∀ t ∈ ref.args, r.MeetsBound s t) (inLiteral : Bool) :
    ReportsOnly Problem.NotUnbound (variableType again decl fullname ref level inLiteral) s := by
  unfold variableType
  split
  · exact .pure _
  · split
    · exact .pure _
    · exact .failAt rfl
  · exact noType_reports keeps meets rfl (List.forall_mem_nil _)

omit keeps [again.Steady] in
/-- A type variable that is bound is never reported to be unbound. -/
theorem typeVarType_reports [again.Steady] {fullname : String} {ref : Reference} {level : Nesting}
    (bound : (s.find? fullname).isSome) : ReportsOnly Problem.NotUnbound (r.typeVarType again fullname ref level) s := by
  obtain ⟨binding, atName⟩ := Option.isSome_iff_exists.1 bound
  rw [typeVarType_eq]
  refine .scope ?_
  rw [atName, variableFound]
  split
  · exact .failAt rfl
  · split
    · exact (ReportsOnly.pure _).map
    · exact (ReportsOnly.report (Problem.notUnbound rfl)).map

end Parts

omit [again.Steady] in
theorem not_pending {symbol : Symbol} (settled : symbol.isPending = false) {P : PendingDecl → Prop} :
    ∀ decl, symbol.definition = some (.pendingDef decl) → P decl := by
  intro decl defined
  simp [Symbol.isPending, defined] at settled

section Forms

variable (keeps : again.KeepsBound r) (table : r.TableThroughout r.table.NoVariable r.table.NoVariable)

include keeps table

theorem definedType_reports {ref : Reference} {symbol : Symbol} {d : Definition} {level : Nesting}
    (found : r.table.lookup ref.name = some symbol) (defined : symbol.definition = some d)
    (settled : symbol.isPending = false) (plain : bindsTypeVar d s symbol.fullname = false → symbol.isCallableForm = false)
    (meets : r.MeetsBound s (.named ref)) (inLiteral : Bool) :
    ReportsOnly Problem.NotUnbound (r.definedType again d symbol.fullname ref level inLiteral) s := by
  have args (other : bindsTypeVar d s symbol.fullname = false) : ∀ t ∈ ref.args, r.MeetsBound s t :=
    (meets.args (not_isBoundVariable found defined other) found (plain other) (not_pending settled)).2
  have holds := SymbolTable.holds_of_lookup found defined
  cases d with
  | classDef decl =>
    exact classType_reports keeps (args rfl) (fun atBase t member => .of_none (table.tupleBase holds atBase t member) s)
      fun atBase field member => .of_none (table.recordBase holds atBase field member) s
  | aliasDef decl => exact aliasType_reports keeps decl _ (args rfl)
  | variableDef decl => exact variableType_reports keeps decl _ (args rfl) inLiteral
  | typeVarDef decl => exact typeVarType_reports (meets.typeVar found defined)
  | pendingDef decl => simp [Symbol.isPending, defined] at settled
  | moduleDef _ => exact noType_reports keeps (args rfl) rfl (List.forall_mem_nil _)
  | functionDef _ | decoratorDef _ =>
    refine noType_reports keeps (args rfl) rfl fun note member => ?_
    rw [List.mem_singleton.1 member]
    exact rfl

theorem callableForm_reports {ref : Reference} {level : Nesting}
    (meets : ∀ signature, r.formSignature? ref = some signature → r.MeetsBound s (.callable signature)) :
    ReportsOnly Problem.NotUnbound (r.callableForm again ref level) s := by
  rw [callableForm_eq]
  refine (ReportsOnly.onTheSide (r.formReports_onTheSide ref)).andThen fun _ => ?_
  cases read : r.formSignature? ref with
  | none => exact .pure _
  | some signature => exact signature_reports keeps table (meets signature read) level level.deeper

omit table

theorem tupleForm_reports {ref : Reference} {level : Nesting} (meets : ∀ t ∈ ref.args, r.MeetsBound s t) :
    ReportsOnly Problem.NotUnbound (r.tupleForm again ref level) s := by
  unfold tupleForm
  split
  · split
    · exact (ReportsOnly.raise _).map
    · exact (ReportsOnly.report (Problem.notUnbound rfl)).map
  · split
    · exact (omittedArguments_reports ref).map
    · rename_i item _ atArgs
      exact (keeps.expr level.deeper (meets item (by simp [atArgs]))).map
    · exact (args_reports keeps meets).map

theorem classObjectForm_reports {ref : Reference} {level : Nesting} (meets : ∀ t ∈ ref.args, r.MeetsBound s t) :
    ReportsOnly Problem.NotUnbound (r.classObjectForm again ref level) s := by
  unfold classObjectForm
  split
  · exact (omittedArguments_reports ref).map
  · rename_i item others atArgs
    have atItem : ReportsOnly Problem.NotUnbound (again.arg item level) s :=
      keeps.expr level.deeper (meets item (by simp [atArgs]))
    split
    · exact (ReportsOnly.report (Problem.notUnbound rfl)).andThen fun _ => atItem.map
    · exact atItem.map

theorem classVarForm_reports {ref : Reference} {level : Nesting} (meets : ∀ t ∈ ref.args, r.MeetsBound s t) :
    ReportsOnly Problem.NotUnbound (classVarForm again ref level) s := by
  have place : ReportsOnly Problem.NotUnbound (if level.isTop then pure () else report ref.pos .nestedClassVar) s := by
    split
    · exact .pure _
    · exact .report rfl
  have argument : Steady (classVarArgument again ref level) ∧
      ReportsOnly Problem.NotUnbound (classVarArgument again ref level) s := by
    unfold classVarArgument
    split
    · exact ⟨inferInstance, .pure _⟩
    · rename_i item atArgs
      refine ⟨inferInstance, (keeps.expr level.deeper (meets item (by simp [atArgs]))).andThen fun item => ?_⟩
      split
      · exact .pure _
      · exact .failAt rfl
    · exact ⟨inferInstance, .failAt rfl⟩
  have steady := argument.1
  rw [classVarForm_eq]
  exact place.andThen fun _ => argument.2

include table

theorem specialForm_reports {form : SpecialForm} {ref : Reference} {level : Nesting}
    (args : form ≠ .callable → ∀ t ∈ ref.args, r.MeetsBound s t)
    (signature : form = .callable → ∀ signature, r.formSignature? ref = some signature →
      r.MeetsBound s (.callable signature))
    (literals : form = .literal → ∀ t ∈ ref.args, t.Throughout r.table.NoVariable) :
    ReportsOnly Problem.NotUnbound (r.specialForm again form ref level) s := by
  cases form with
  | noneType | any | noReturn => exact .pure _
  | final => exact .failAt rfl
  | tuple => exact tupleForm_reports keeps (args (by decide))
  | union => exact (args_reports keeps (args (by decide))).map
  | optional =>
    unfold specialForm
    dsimp only
    split
    · rename_i item atArgs
      exact (keeps.expr level.deeper (args (by decide) item (by simp [atArgs]))).map
    · exact .failAt rfl
  | callable => exact callableForm_reports keeps table (signature rfl)
  | classObject => exact classObjectForm_reports keeps (args (by decide))
  | classVar => exact classVarForm_reports keeps (args (by decide))
  | literal => exact literalForm_reports keeps (literals rfl) level
  | annotated =>
    unfold specialForm
    dsimp only
    split
    · rename_i item _ _ atArgs
      exact keeps.expr level.deeper (args (by decide) item (by simp [atArgs]))
    · exact .failAt rfl

theorem symbolType_reports (noHooks : r.hooks = .empty) {ref : Reference} {symbol : Symbol} {d : Definition}
    {level : Nesting} (found : r.table.lookup ref.name = some symbol) (defined : symbol.definition = some d)
    (settled : symbol.isPending = false) (meets : r.MeetsBound s (.named ref)) (inLiteral : Bool) :
    ReportsOnly Problem.NotUnbound (r.symbolType again d symbol.fullname ref level inLiteral) s := by
  have formOrDefined : ReportsOnly Problem.NotUnbound (r.formOrDefined again d symbol.fullname ref level inLiteral s) s := by
    unfold formOrDefined
    split
    · rename_i form isForm unbound
      have notVariable := not_isBoundVariable found defined unbound
      have args (other : form ≠ .callable) := meets.args notVariable found
        (by simpa [Symbol.isCallableForm, settled, isForm] using other) (not_pending settled)
      refine specialForm_reports keeps table (fun other => (args other).2) ?_ ?_
      · rintro rfl signature read
        exact meets.formSignature notVariable found (by simp [Symbol.isCallableForm, settled, isForm]) read
      · rintro rfl
        exact (args (by decide)).1 (isLiteralForm_of_form found isForm)
    · rename_i notForm
      refine definedType_reports keeps table found defined settled (fun unbound => ?_) meets inLiteral
      have plain : SpecialForm.ofName? symbol.fullname = none := by
        cases isForm : SpecialForm.ofName? symbol.fullname with
        | none => rfl
        | some form => exact absurd unbound (notForm form isForm)
      simp [Symbol.isCallableForm, plain]
  have unnormalized : ReportsOnly Problem.NotUnbound
      (if (builtinReplacement? symbol.fullname).isSome && !ref.args.isEmpty && !r.flags.allowUnnormalized then
        report ref.pos (subscriptProblem symbol.fullname !r.flags.definingAlias)
      else pure ()) s := by
    split
    · refine .report ?_
      unfold subscriptProblem
      split
      · split <;> exact rfl
      · exact rfl
    · exact .pure _
  rw [symbolType_eq noHooks]
  change ReportsOnly Problem.NotUnbound (_ >>= fun _ => scope >>= r.formOrDefined again d symbol.fullname ref level inLiteral) s
  exact unnormalized.andThen fun _ => .scope formOrDefined

theorem reference_reports (noHooks : r.hooks = .empty) {ref : Reference} {level : Nesting}
    (meets : r.MeetsBound s (.named ref)) (inLiteral : Bool) :
    ReportsOnly Problem.NotUnbound (r.reference again ref level inLiteral) s := by
  suffices plain : ReportsOnly Problem.NotUnbound (r.plainReference again ref level inLiteral) s from plain.map
  unfold plainReference
  split
  · exact .pure _
  · rename_i symbol found
    split
    · exact (ReportsOnly.report (Problem.notUnbound rfl)).map
    · rename_i decl defined
      have notVariable := not_isBoundVariable (s := s) found defined rfl
      refine pendingType_reports keeps decl fun read => ?_
      refine (meets.args notVariable found (by simp [Symbol.isCallableForm, Symbol.isPending, defined]) ?_).2
      intro decl' defined'
      rw [defined] at defined'
      cases defined'
      exact read
    · rename_i d notPending defined
      refine symbolType_reports keeps table noHooks found defined ?_ meets inLiteral
      cases d <;> simp_all [Symbol.isPending]

theorem forwardType_reports {fullname : Option String} {args : List Ty} {pos : Position} {level : Nesting}
    (meets : ∀ t ∈ args, r.MeetsBound s t) :
    ReportsOnly Problem.NotUnbound (r.forwardType again fullname args pos level) s := by
  have keep (problem : Problem) (other : problem.NotUnbound) : ReportsOnly Problem.NotUnbound
      (if r.table.finalPass then failAt pos problem
      else do
        raise .deferred
        pure (.forward fullname args pos)) s := by
    split
    · exact .failAt other
    · exact (ReportsOnly.raise _).map
  unfold forwardType
  split
  · rename_i decl defined
    obtain ⟨symbol, atName, atSymbol⟩ := Option.bind_eq_some_iff.1 defined
    obtain ⟨name, _, found⟩ := Option.bind_eq_some_iff.1 atName
    have holds : r.table.Holds (.classDef decl) := ⟨name, symbol, found, atSymbol⟩
    exact classType_reports keeps meets (fun atBase t member => .of_none (table.tupleBase holds atBase t member) s)
      fun atBase field member => .of_none (table.recordBase holds atBase field member) s
  · exact keep _ rfl
  · exact keep _ rfl
  · exact .failAt rfl

omit table in
theorem tupleType_reports {shape : TupleShape} {level : Nesting} (meets : ∀ t ∈ shape.items, r.MeetsBound s t) :
    ReportsOnly Problem.NotUnbound (r.tupleType again shape level) s := by
  unfold tupleType
  split
  · refine (ReportsOnly.reportAll ?_).map
    intro report member
    rcases List.mem_cons.1 member with rfl | member
    · exact rfl
    · rw [List.mem_singleton.1 member]
      dsimp only
      split <;> exact rfl
  · split
    · split
      · exact (ReportsOnly.report (Problem.notUnbound rfl)).map
      · exact (ReportsOnly.report (Problem.notUnbound rfl)).map
    · exact (args_reports keeps meets).map

theorem expr_reports (noHooks : r.hooks = .empty) {t : Ty} (meets : r.MeetsBound s t) (level : Nesting) :
    ReportsOnly Problem.NotUnbound (r.expr again t level) s := by
  have reject {reports : List Diagnostic} (others : ∀ report ∈ reports, report.problem.NotUnbound) :
      ReportsOnly Problem.NotUnbound (reportAll reports >>= fun _ => pure Ty.error) s :=
    (ReportsOnly.reportAll others).map
  have parts := meets.parts
  unfold expr
  split
  · exact .failAt rfl
  cases t with
  | named ref => exact reference_reports keeps table noHooks meets false
  | any | noneType | never | deleted | inst | typeVar | literal => exact .pure _
  | bracketed items pos =>
    refine reject fun report member => ?_
    rcases List.mem_cons.1 member with rfl | member
    · exact rfl
    · rw [List.mem_singleton.1 member]
      exact rfl
  | argument | ellipsis => exact (ReportsOnly.report (Problem.notUnbound rfl)).map
  | callable signature => exact signature_reports keeps table meets level level.deeper
  | tuple shape => exact tupleType_reports keeps (parts rfl)
  | record shape =>
    refine (fields_reports keeps fun field member => ?_).map
    exact parts rfl field.2 (List.mem_map_of_mem member)
  | scalar value className note pos => exact scalarType_reports value className note pos
  | star item pos => exact (keeps.expr level.deeper (parts rfl item (List.mem_singleton_self _))).map
  | union members pos => exact (args_reports keeps (parts rfl)).map
  | classObject item pos => exact (keeps.expr level.deeper (parts rfl item (List.mem_singleton_self _))).map
  | forward fullname args pos => exact forwardType_reports keeps table (parts rfl)

end Forms

theorem noVariable_asks (r : Resolver) : r.AsksOfReferences r.table.NoVariable r.table.NoVariable where
  other notNamed ref same := absurd same (notNamed ref)
  enough none := none
  rebuilt {t} cs none ref same := by
    cases t with
    | named given =>
      cases same
      exact none given rfl
    | _ => cases same
  move {t} pos none ref same := by
    cases t with
    | named given =>
      cases same
      exact none given rfl
    | _ => cases same
  name {ref symbol} args none _ _ := by
    rintro _ ⟨⟩
    exact none ref rfl

/-- However deep the recursion goes, no type variable is reported to be unbound where none is met that is. -/
theorem recursion_keepsBound (noHooks : r.hooks = .empty) (table : r.TableThroughout r.table.NoVariable r.table.NoVariable)
    (bound : Nat) : (r.recursion bound).KeepsBound r := by
  have rule := rule_throughout (noVariable_asks r) table
  induction bound with
  | zero => exact ⟨fun _ _ => .stuck, fun _ _ => .stuck, fun _ _ _ _ _ => .stuck, nofun⟩
  | succ bound ih =>
    refine ⟨fun level meets => expr_reports ih table noHooks meets level,
      fun level meets => reference_reports ih table noHooks meets true,
      fun index pos level s none => literals_reports ih none index pos level, fun {ref level p q a} ran none => ?_⟩
    have run := reference_ensures rule (recursion_obeys rule noHooks bound) noHooks ref level true p
    exact (run a q ran).2.2 none

end Resolver

end TypeResolution
