import TypeResolution.Proofs.SteadyForms

namespace TypeResolution

open Resolve

namespace Resolve

variable {α β : Type} {allowed : Problem → Prop} {s : Scope}

theorem Yields.mono {other : Problem → Prop} {m : Resolve α} {a : α} (weaken : ∀ problem, allowed problem → other problem)
    (yields : Yields allowed m s a) : Yields other m s a := by
  obtain ⟨q, ran, reported⟩ := yields
  exact ⟨q, ran, fun report member => weaken _ (reported report member)⟩

theorem Yields.stuck {a : α} (yields : Yields allowed (fun _ => none : Resolve α) s a) : False := by
  obtain ⟨q, ran, _⟩ := yields
  cases ran

theorem Yields.map {m : Resolve α} [Steady m] {f : α → β} {b : β} (yields : Yields allowed (m >>= fun a => Pure.pure (f a)) s b) :
    ∃ a, Yields allowed m s a ∧ b = f a := by
  obtain ⟨a, yields, made⟩ := yields.bind
  exact ⟨a, yields, made.pure.symm⟩

theorem Yields.andThen {m : Resolve α} {next : Resolve β} [Steady m] [Steady next] {b : β}
    (yields : Yields allowed (m >>= fun _ => next) s b) : (∃ a, Yields allowed m s a) ∧ Yields allowed next s b := by
  obtain ⟨a, first, second⟩ := yields.bind
  exact ⟨⟨a, first⟩, second⟩

end Resolve

namespace SymbolTable

/-- The name, if there is one, stands for nothing, or for nothing yet. -/
def StillToCome (table : SymbolTable) (fullname : Option String) : Prop :=
  ∀ d, (fullname.bind table.find?).bind (·.definition) = some d → ∃ decl, d = .pendingDef decl

theorem StillToCome.not_class {table : SymbolTable} {fullname : String} {decl : ClassDecl}
    (toCome : table.StillToCome (some fullname)) : table.findClass? fullname ≠ some decl := by
  intro found
  obtain ⟨_, impossible⟩ := toCome _ (findClass?_eq_some_iff.1 found)
  cases impossible

end SymbolTable

namespace Resolver

variable {r : Resolver} {again : Recursion} [again.Steady] {allowed : Problem → Prop} {s : Scope}

/-- What follows in an expression when its level is checked. -/
def form (r : Resolver) (again : Recursion) (t : Ty) (level : Nesting) : Resolve Ty :=
  match t with
  | .named ref => r.reference again ref level false
  | .any .. | .noneType _ | .never .. | .deleted .. | .inst _ | .typeVar .. | .literal _ => pure t
  | .bracketed _ pos => do
    reportAll [⟨pos, .bracketedAsType⟩, ⟨pos, .listHint⟩]
    pure .error
  | .argument _ _ _ pos => do
    report pos .invalidType
    pure .error
  | .ellipsis pos => do
    report pos .strayEllipsis
    pure .error
  | .callable s => r.signature again s level level.deeper
  | .tuple shape => r.tupleType again shape level
  | .record shape => do
    let fields ← again.fields shape.fields level
    pure (.record { shape with fields := fields })
  | .scalar value className note pos => r.scalarType value className note pos
  | .star item pos => do
    let item ← again.arg item level
    pure (.star item pos)
  | .union members pos => do
    let items ← again.args members level
    pure (.makeUnion items pos)
  | .classObject item pos => do
    let item ← again.arg item level
    pure (.makeClassObject item pos)
  | .forward fullname args pos => r.forwardType again fullname args pos level

theorem expr_eq (r : Resolver) (again : Recursion) (t : Ty) (level : Nesting) :
    r.expr again t level = if maxNesting < level.level then failAt t.pos .nestedTooDeep else r.form again t level := by
  cases t <;> rfl

omit [again.Steady] in
theorem form_of_settled {t : Ty} (settled : t.isSettled) (level : Nesting) : r.form again t level = pure t := by
  cases t <;> first | rfl | cases settled

/-- An expression that is not nested too deep is resolved by its form, with less recursion. -/
theorem yields_form (shallow : ¬ allowed .nestedTooDeep) {bound : Nat} {t a : Ty} {level : Nesting}
    (yields : Yields allowed ((r.recursion bound).expr t level) s a) :
    ∃ n, bound = n + 1 ∧ Yields allowed (r.form (r.recursion n) t level) s a := by
  cases bound with
  | zero => exact yields.stuck.elim
  | succ bound =>
    have yields : Yields allowed (r.expr (r.recursion bound) t level) s a := yields
    rw [expr_eq] at yields
    split at yields
    · exact absurd yields.failAt.1 shallow
    · exact ⟨bound, rfl, yields⟩

omit [again.Steady] in
theorem yields_of_resolve {t : Ty} {result : Resolution} {q : Progress} (ran : r.resolve t (.start s) = some (result, q))
    (reported : ∀ report ∈ q.reports, allowed report.problem) :
    Yields allowed ((r.recursion (r.allowance t)).expr t .top) s result.type := by
  obtain ⟨⟨resolved, q'⟩, ranFirst, ended⟩ := Option.bind_eq_some_iff.1 ran
  obtain ⟨type, _, rfl⟩ := settle_ensures resolved q' result q ended
  exact ⟨q', type ▸ ranFirst, reported⟩

theorem yields_args {ts as : List Ty} {level : Nesting} (yields : Yields allowed (again.args ts level) s as) :
    List.Forall₂ (fun t a => Yields allowed (again.arg t level) s a) ts as := Yields.mapM yields

theorem yields_fields {fields made : List (String × Ty)} {level : Nesting}
    (yields : Yields allowed (again.fields fields level) s made) :
    List.Forall₂ (fun field made => made.1 = field.1 ∧ Yields allowed (again.arg field.2 level) s made.2) fields made := by
  have each := Yields.mapM (f := fun (field : String × Ty) => do
    let t ← again.arg field.2 level
    pure (field.1, t)) yields
  refine each.imp fun field made yields => ?_
  obtain ⟨t, atField, rfl⟩ := yields.map
  exact ⟨rfl, atField⟩

theorem yields_omittedArguments {ref : Reference} {filler : Ty} (yields : Yields allowed (r.omittedArguments ref) s filler) :
    filler = (omittedAny r.disallowsOmitted ref.pos none ref.name).1 := by
  have yields : Yields allowed (reportAll (omittedAny r.disallowsOmitted ref.pos none ref.name).2 >>= fun _ =>
    pure (omittedAny r.disallowsOmitted ref.pos none ref.name).1) s filler := yields
  exact yields.andThen.2.pure.symm

theorem yields_fixArity {i j : Instance} {fromAlias : Bool} {written : Option String}
    (yields : Yields allowed (r.fixArity i fromAlias written) s j) : j = r.repaired i fromAlias written := by
  unfold fixArity at yields
  unfold repaired
  split at yields
  · rename_i definingAlias
    rw [if_pos definingAlias]
    exact yields.pure.symm
  · rename_i using_
    rw [if_neg using_]
    exact yields.andThen.2.pure.symm

theorem yields_signature {signature : Signature} {level inner : Nesting} {a : Ty}
    (yields : Yields allowed (r.signature again signature level inner) s a) :
    (∀ report ∈ r.innerReports s signature, allowed report.problem) ∧ ∃ args ret fallback bindings,
      List.Forall₂ (fun t a => Yields allowed (again.expr t inner) (r.innerScope s signature) a) signature.args args ∧
      Yields allowed (again.expr signature.ret inner) (r.innerScope s signature) ret ∧
      a = .callable { signature with args := args, ret := ret, fallback := fallback, bindings := bindings } := by
  rw [signature_within] at yields
  obtain ⟨outer, same, yields⟩ := yields.bind
  rw [same.scope] at yields
  obtain ⟨⟨_, reported⟩, yields⟩ := yields.andThen
  obtain ⟨args, inArgs, yields⟩ := yields.within.bind
  obtain ⟨ret, atRet, yields⟩ := yields.bind
  obtain ⟨bindings, _, made⟩ := yields.bind
  exact ⟨reported.reportAll, args, ret, _, bindings, inArgs.mapM, atRet, made.pure.symm⟩

/-- What a class is resolved to, with `made` telling what its arguments and the types in its base are resolved to. -/
inductive ClassMade (r : Resolver) (allowed : Problem → Prop) (made : Ty → Ty → Prop) (decl : ClassDecl) (args : List Ty)
    (pos : Position) : Ty → Prop
  | tuple {items : List Ty} : args ≠ [] → decl.fullname = "builtins.tuple" → List.Forall₂ made args items →
      ClassMade r allowed made decl args pos
        (.tuple ⟨items, .of decl.head [.anyAt .specialForm .unknown] pos, false, pos⟩)
  | plain {resolved : List Ty} : (args ≠ [] → decl.fullname ≠ "builtins.tuple") → decl.tupleBase = none →
      decl.recordBase = none → List.Forall₂ made args resolved →
      ClassMade r allowed made decl args pos (.inst (r.repaired (.of decl.head resolved pos) false none))
  | tupleBase {base : TupleShape} {items : List Ty} : args = [] → decl.tupleBase = some base →
      List.Forall₂ made base.items items →
      ClassMade r allowed made decl args pos
        (.tuple ⟨items, r.repaired (.of decl.head [] pos) false none, base.implicit, pos⟩)
  | recordBase {base : RecordShape} {fields : List (String × Ty)} : args = [] → decl.tupleBase = none →
      decl.recordBase = some base →
      List.Forall₂ (fun field field' => field'.1 = field.1 ∧ made field.2 field'.2) base.fields fields →
      ClassMade r allowed made decl args pos
        (.record ⟨fields, base.required, r.repaired (.of decl.head [] pos) false none, pos⟩)
  | genericTuple : (args ≠ [] → decl.fullname ≠ "builtins.tuple") → args ≠ [] → decl.tupleBase.isSome →
      allowed .genericTuple → ClassMade r allowed made decl args pos (.anyAt .error pos)
  | genericRecord : (args ≠ [] → decl.fullname ≠ "builtins.tuple") → args ≠ [] → decl.tupleBase = none →
      decl.recordBase.isSome → allowed .genericRecord →
      ClassMade r allowed made decl args pos (.anyAt .error pos)

theorem yields_classType {decl : ClassDecl} {args : List Ty} {pos : Position} {level : Nesting} {a : Ty}
    (yields : Yields allowed (r.classType again decl args pos level) s a) :
    r.ClassMade allowed (fun t a => Yields allowed (again.arg t level) s a) decl args pos a := by
  have noArgs : args.isEmpty = true ↔ args = [] := List.isEmpty_iff
  rw [classType_eq] at yields
  split at yields
  · rename_i isTuple
    rw [Bool.and_eq_true, Bool.not_eq_true', ← Bool.not_eq_true, noArgs, beq_iff_eq] at isTuple
    obtain ⟨items, inItems, rfl⟩ := yields.map
    exact .tuple isTuple.1 isTuple.2 (yields_args inItems)
  · rename_i notTuple
    rw [Bool.and_eq_true, Bool.not_eq_true', ← Bool.not_eq_true, noArgs, beq_iff_eq, not_and] at notTuple
    rw [classInstance_eq] at yields
    obtain ⟨resolved, inArgs, next⟩ := yields.bind
    obtain ⟨i, repaired, last⟩ := next.bind
    have inArgs := yields_args inArgs
    rw [yields_fixArity repaired] at last
    unfold classBase at last
    split at last
    · rename_i base _ atBase
      split at last
      · rename_i given
        rw [Bool.not_eq_true', ← Bool.not_eq_true, noArgs] at given
        obtain ⟨reported, rfl⟩ := last.failAt
        exact .genericTuple notTuple given (by simp [atBase]) reported
      · rename_i bare
        rw [Bool.not_eq_true', Bool.not_eq_false, noArgs] at bare
        subst bare
        cases inArgs
        obtain ⟨items, inItems, rfl⟩ := last.map
        exact .tupleBase rfl atBase (yields_args inItems)
    · rename_i base noTuple atBase
      split at last
      · rename_i given
        rw [Bool.not_eq_true', ← Bool.not_eq_true, noArgs] at given
        obtain ⟨reported, rfl⟩ := last.failAt
        exact .genericRecord notTuple given noTuple (by simp [atBase]) reported
      · rename_i bare
        rw [Bool.not_eq_true', Bool.not_eq_false, noArgs] at bare
        subst bare
        cases inArgs
        obtain ⟨fields, inFields, rfl⟩ := last.map
        exact .recordBase rfl noTuple atBase (yields_fields inFields)
    · rename_i noTuple noRecord
      rw [← last.pure]
      exact .plain notTuple noTuple noRecord inArgs

/-- What `Tuple` is resolved to, with `made` telling what its arguments are resolved to. -/
inductive TupleMade (r : Resolver) (made : Ty → Ty → Prop) (ref : Reference) : Ty → Prop
  | missing : r.table.findClass? "builtins.tuple" = none → TupleMade r made ref (.anyAt .specialForm ref.pos)
  | bare {decl : ClassDecl} : r.table.findClass? "builtins.tuple" = some decl → ref.args = [] → ref.emptyTuple = false →
      TupleMade r made ref (.inst (.of decl.head [(omittedAny r.disallowsOmitted ref.pos none ref.name).1] ref.pos))
  | homogeneous {decl : ClassDecl} {item a : Ty} {pos : Position} : r.table.findClass? "builtins.tuple" = some decl →
      ref.args = [item, .ellipsis pos] → made item a → TupleMade r made ref (.inst (.of decl.head [a] ref.pos))
  | items {decl : ClassDecl} {items : List Ty} : r.table.findClass? "builtins.tuple" = some decl →
      (ref.args = [] → ref.emptyTuple = true) → (∀ item pos, ref.args ≠ [item, .ellipsis pos]) →
      List.Forall₂ made ref.args items →
      TupleMade r made ref (.tuple ⟨items, .of decl.head [.anyAt .specialForm .unknown] ref.pos, false, ref.pos⟩)

theorem yields_tupleForm {ref : Reference} {level : Nesting} {a : Ty} (yields : Yields allowed (r.tupleForm again ref level) s a) :
    r.TupleMade (fun t a => Yields allowed (again.arg t level) s a) ref a := by
  unfold tupleForm at yields
  split at yields
  · rename_i missing
    split at yields
    · rw [← yields.andThen.2.pure]
      exact .missing missing
    · rw [← yields.andThen.2.pure]
      exact .missing missing
  · rename_i decl found
    split at yields
    · rename_i bare notEmpty
      obtain ⟨filler, omitted, rfl⟩ := yields.map
      rw [yields_omittedArguments omitted]
      exact .bare found bare notEmpty
    · rename_i item pos atArgs
      obtain ⟨a, atItem, rfl⟩ := yields.map
      exact .homogeneous found atArgs atItem
    · rename_i notPair notBare
      obtain ⟨items, inItems, rfl⟩ := yields.map
      refine .items found (fun bare => ?_) (fun item pos pair => notPair item pos pair) (yields_args inItems)
      by_contra notEmpty
      exact notBare bare (Bool.eq_false_iff.2 notEmpty)

theorem yields_aliasResult {written : String} {t a : Ty} (yields : Yields allowed (r.aliasResult written t) s a) :
    a = r.repairedRoot written t := by
  cases t with
  | inst i =>
    have yields : Yields allowed (r.fixArity i true (some written) >>= fun i => pure (.inst i)) s a := yields
    obtain ⟨j, repaired, rfl⟩ := yields.map
    rw [yields_fixArity repaired]
    rfl
  | _ => exact yields.pure.symm

theorem yields_aliasType {decl : AliasDecl} {fullname : String} {ref : Reference} {level : Nesting} {a : Ty}
    (yields : Yields allowed (r.aliasType again decl fullname ref level) s a) :
    ∃ args, List.Forall₂ (fun t a => Yields allowed (again.arg t level) s a) ref.args args ∧
      a = r.repairedRoot ref.name (decl.expand args ref.pos (some ref.name) r.disallowsOmitted).1 := by
  rw [aliasType_eq] at yields
  obtain ⟨args, inArgs, next⟩ := yields.andThen.2.bind
  exact ⟨args, yields_args inArgs, yields_aliasResult next.andThen.2⟩

omit [again.Steady] in
theorem forwardType_of_class {fullname : String} {decl : ClassDecl} (found : r.table.findClass? fullname = some decl)
    (args : List Ty) (pos : Position) (level : Nesting) :
    r.forwardType again (some fullname) args pos level = r.classType again decl args pos level := by
  unfold forwardType
  rw [Option.bind_some, SymbolTable.findClass?_eq_some_iff.1 found]

omit [again.Steady] in
/-- A reference to a class that is still to come stays as it is. -/
theorem forwardType_of_stillToCome {fullname : Option String} (toCome : r.table.StillToCome fullname)
    (notFinal : r.table.finalPass = false) (args : List Ty) (pos : Position) (level : Nesting) :
    r.forwardType again fullname args pos level = raise .deferred >>= fun _ => pure (.forward fullname args pos) := by
  unfold forwardType
  cases defined : (fullname.bind r.table.find?).bind (·.definition) with
  | none => simp only [notFinal, Bool.false_eq_true, if_false]
  | some d =>
    obtain ⟨decl, rfl⟩ := toCome d defined
    simp only [notFinal, Bool.false_eq_true, if_false]

theorem yields_typeVarType {fullname : String} {ref : Reference} {level : Nesting} {a : Ty}
    (yields : Yields allowed (r.typeVarType again fullname ref level) s a) :
    Yields allowed (r.variableFound again fullname ref level (s.find? fullname)) s a := by
  rw [typeVarType_eq] at yields
  obtain ⟨s', same, next⟩ := yields.bind
  rwa [same.scope] at next

theorem yields_symbolType (noHooks : r.hooks = .empty) {d : Definition} {fullname : String} {ref : Reference}
    {level : Nesting} {inLiteral : Bool} {a : Ty}
    (yields : Yields allowed (r.symbolType again d fullname ref level inLiteral) s a) :
    Yields allowed (r.formOrDefined again d fullname ref level inLiteral s) s a := by
  rw [symbolType_eq noHooks] at yields
  change Yields allowed (_ >>= fun _ => scope >>= r.formOrDefined again d fullname ref level inLiteral) s a at yields
  obtain ⟨s', same, next⟩ := yields.andThen.2.bind
  rwa [same.scope] at next

omit [again.Steady] in
theorem plainReference_of_symbol {ref : Reference} {symbol : Symbol} {d : Definition}
    (found : r.table.lookup ref.name = some symbol) (defined : symbol.definition = some d)
    (notPending : symbol.isPending = false) (level : Nesting) (inLiteral : Bool) :
    r.plainReference again ref level inLiteral = r.symbolType again d symbol.fullname ref level inLiteral := by
  unfold plainReference
  rw [found]
  dsimp only
  rw [defined]
  unfold Symbol.isPending at notPending
  rw [defined] at notPending
  cases d <;> first | rfl | cases notPending

/-- A type variable that may be left free is left as it is. -/
theorem yields_freeVariable (noHooks : r.hooks = .empty) {ref : Reference} {symbol : Symbol} {decl : TypeVarDecl}
    (found : r.table.lookup ref.name = some symbol) (plain : SpecialForm.ofName? symbol.fullname = none)
    (defined : symbol.definition = some (.typeVarDef decl)) (free : s.find? symbol.fullname = none)
    (left : r.flags.allowUnboundVariables || r.flags.definingAlias) {level : Nesting} {inLiteral : Bool} {a : Ty}
    (yields : Yields allowed (r.plainReference again ref level inLiteral) s a) : a = .named ref := by
  have notPending : symbol.isPending = false := by rw [Symbol.isPending, defined]
  rw [plainReference_of_symbol found defined notPending] at yields
  have next := yields_symbolType noHooks yields
  unfold formOrDefined at next
  rw [plain] at next
  have variable_ : Yields allowed (r.typeVarType again symbol.fullname ref level) s a := next
  have last := yields_typeVarType variable_
  rw [free, variableFound, if_pos left] at last
  exact last.pure.symm

end Resolver

end TypeResolution
