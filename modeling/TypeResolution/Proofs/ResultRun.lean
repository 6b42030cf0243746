import TypeResolution.Proofs.Results

namespace TypeResolution

open Resolve

/-- The recursive calls keep the scope, and turn what satisfies `In` into what satisfies `Out`. -/
structure Recursion.Obeys (again : Recursion) (r : Resolver) (In : Scope → Ty → Prop)
    (Out : Progress → Progress → Ty → Prop) : Prop where
  expr (t : Ty) (level : Nesting) (p : Progress) :
    r.Ensures p (again.expr t level) fun a q => q.scope = p.scope ∧ (In p.scope t → Out p q a)
  literalName (ref : Reference) (level : Nesting) (p : Progress) :
    r.Ensures p (again.literalName ref level) fun _ q => q.scope = p.scope
  literals (index : Nat) (t : Ty) (pos : Position) (level : Nesting) (p : Progress) :
    r.Ensures p (again.literals index t pos level) fun found q =>
      q.scope = p.scope ∧ ∀ ts, found = some ts → ∀ t ∈ ts, t.IsLiteral

theorem Ty.isLiteral_cases {t : Ty} (literal : t.IsLiteral) :
    (∃ l, t = .literal l) ∨ ∃ pos, t = .noneType pos := by
  cases t <;> simp_all [IsLiteral]

theorem collectWhile_ensures {r : Resolver} {α : Type} {f : α → Resolve (Option (List Ty))} (xs : List α)
    (each : ∀ x ∈ xs, ∀ p, r.Ensures p (f x) fun found q =>
      q.scope = p.scope ∧ ∀ ts, found = some ts → ∀ t ∈ ts, t.IsLiteral) (p : Progress) :
    r.Ensures p (collectWhile f xs) fun found q =>
      q.scope = p.scope ∧ ∀ ts, found = some ts → ∀ t ∈ ts, t.IsLiteral := by
  induction xs generalizing p with
  | nil => exact .pure ⟨rfl, by simp⟩
  | cons x xs ih =>
    refine (each x (by simp) p).bind fun found q _ head => ?_
    cases found with
    | none => exact .pure ⟨head.1, by simp⟩
    | some ts =>
      refine (ih (fun x member => each x (by simp [member])) q).bind fun more q' _ tail => ?_
      cases more with
      | none => exact .pure ⟨tail.1.trans head.1, by simp⟩
      | some us =>
        refine .pure ⟨tail.1.trans head.1, ?_⟩
        rintro _ ⟨⟩ t member
        rcases List.mem_append.1 member with member | member
        · exact head.2 ts rfl t member
        · exact tail.2 us rfl t member

namespace Resolver

variable {r : Resolver}

/-- What follows in a signature when its variables are bound. -/
def signatureParts (r : Resolver) (again : Recursion) (s : Signature) (bindings : List TypeVarBinding)
    (level inner : Nesting) : Resolve Ty := do
  let args ← s.args.mapM fun t => again.expr t inner
  let ret ← again.expr s.ret inner
  let bindings ← bindings.mapM fun binding => typeVarBinding again binding level
  let fallback := s.fallback <|> r.instanceOf? "builtins.function" [] .unknown
  pure (.callable { s with args := args, ret := ret, fallback := fallback, bindings := bindings })

theorem signature_eq (r : Resolver) (again : Recursion) (s : Signature) (level inner : Nesting) :
    r.signature again s level inner = Resolve.inFrame
      ((if r.flags.definingAlias then pure s.bindings else r.bindVariables s) >>= fun bindings =>
        r.signatureParts again s bindings level inner) := by
  unfold signature
  cases r.flags.definingAlias <;> rfl

/-- What follows in `ClassVar` when its place is checked. -/
def classVarArgument (again : Recursion) (ref : Reference) (level : Nesting) : Resolve Ty :=
  match ref.args with
  | [] => pure (.anyAt .omittedArguments ref.pos)
  | [item] => do
    let item ← again.arg item level
    if item.typeVars.isEmpty then pure item else failAt ref.pos .genericClassVar
  | _ => failAt ref.pos .classVarArity

theorem classVarForm_eq (again : Recursion) (ref : Reference) (level : Nesting) :
    classVarForm again ref level =
      ((if level.isTop then pure () else report ref.pos .nestedClassVar) >>= fun _ =>
        classVarArgument again ref level) := by
  unfold classVarForm classVarArgument
  cases level.isTop <;> rfl

/-- What follows in a class when its arguments are resolved. -/
def classInstance (r : Resolver) (again : Recursion) (decl : ClassDecl) (args : List Ty) (pos : Position)
    (level : Nesting) : Resolve Ty := do
  let resolved ← again.args args level
  let i ← r.fixArity (.of decl.head resolved pos) false none
  match decl.tupleBase, decl.recordBase with
  | some base, _ =>
    if !args.isEmpty then failAt pos .genericTuple
    else
      let items ← again.args base.items level
      pure (.tuple ⟨items, i, base.implicit, pos⟩)
  | none, some base =>
    if !args.isEmpty then failAt pos .genericRecord
    else
      let fields ← again.fields base.fields level
      pure (.record ⟨fields, base.required, i, pos⟩)
  | none, none => pure (.inst i)

theorem classType_eq (r : Resolver) (again : Recursion) (decl : ClassDecl) (args : List Ty) (pos : Position)
    (level : Nesting) :
    r.classType again decl args pos level =
      if !args.isEmpty && decl.fullname == "builtins.tuple" then do
        let items ← again.args args level
        pure (.tuple ⟨items, .of decl.head [.anyAt .specialForm .unknown] pos, false, pos⟩)
      else r.classInstance again decl args pos level := rfl

/-- What follows in an alias when it is expanded. -/
def aliasResult (r : Resolver) (written : String) : Ty → Resolve Ty
  | .inst i => do
    let i ← r.fixArity i true (some written)
    pure (.inst i)
  | t => pure t

theorem aliasType_eq (r : Resolver) (again : Recursion) (decl : AliasDecl) (fullname : String) (ref : Reference)
    (level : Nesting) :
    r.aliasType again decl fullname ref level = (do
      useAliases (fullname :: decl.dependencies)
      let args ← again.args ref.args level
      reportAll (decl.expand args ref.pos (some ref.name) r.disallowsOmitted).2
      r.aliasResult ref.name (decl.expand args ref.pos (some ref.name) r.disallowsOmitted).1) := rfl

theorem omittedArguments_ensures (ref : Reference) (p : Progress) :
    r.Ensures p (r.omittedArguments ref) fun filler q =>
      q.scope = p.scope ∧ filler = (omittedAny r.disallowsOmitted ref.pos none ref.name).1 := by
  refine (Ensures.reportAll _).bind fun _ q _ reported => ?_
  subst reported
  exact .pure ⟨rfl, rfl⟩

theorem fixArity_ensures (i : Instance) (fromAlias : Bool) (written : Option String) (p : Progress) :
    r.Ensures p (r.fixArity i fromAlias written) fun j q =>
      q.scope = p.scope ∧ j = r.repaired i fromAlias written := by
  unfold fixArity repaired
  split
  · exact .pure ⟨rfl, rfl⟩
  · refine (Ensures.reportAll _).bind fun _ q _ reported => ?_
    subst reported
    exact .pure ⟨rfl, rfl⟩

theorem aliasResult_ensures (written : String) (t : Ty) (p : Progress) :
    r.Ensures p (r.aliasResult written t) fun a q => q.scope = p.scope ∧ a = r.repairedRoot written t := by
  cases t with
  | inst i =>
    refine (fixArity_ensures i true (some written) p).bind fun i q _ fixed => .pure ⟨fixed.1, ?_⟩
    rw [fixed.2, repairedRoot]
  | _ => exact .pure ⟨rfl, rfl⟩

theorem requiredInstance_ensures (fullname : String) (pos : Position) (p : Progress) :
    r.Ensures p (r.requiredInstance fullname pos) fun _ q => q.scope = p.scope := by
  unfold requiredInstance
  split
  · exact .pure rfl
  · split
    · refine (Ensures.raise (.inr (by simp))).bind fun _ q _ raised => ?_
      subst raised
      exact .pure rfl
    · refine (Ensures.report _ _).bind fun _ q _ reported => ?_
      subst reported
      exact .pure rfl

theorem literalOf_ensures (value : LiteralValue) (className : String) (pos : Position) (p : Progress) :
    r.Ensures p (r.literalOf value className pos) fun found q =>
      q.scope = p.scope ∧ ∀ ts, found = some ts → ∀ t ∈ ts, t.IsLiteral := by
  refine (requiredInstance_ensures _ pos p).bind fun fallback q _ kept => ?_
  cases fallback with
  | none => exact .pure ⟨kept, by simp⟩
  | some fallback => exact .pure ⟨kept, by simp [Ty.IsLiteral]⟩

theorem noLiteral_ensures (pos : Position) (problem : Problem) (p : Progress) :
    r.Ensures p (noLiteral pos problem) fun found q =>
      q.scope = p.scope ∧ ∀ ts, found = some ts → ∀ t ∈ ts, t.IsLiteral := by
  refine (Ensures.report _ _).bind fun _ q _ reported => ?_
  subst reported
  exact .pure ⟨rfl, by simp⟩

theorem bindVariables_ensures (signature : Signature) (p : Progress) :
    r.Ensures p (r.bindVariables signature) fun bindings q =>
      q.scope = (p.scope.bindSignature r.table signature).scope ∧
        bindings = (p.scope.bindSignature r.table signature).bindings := by
  refine Ensures.scope.bind fun s q _ started => ?_
  obtain ⟨rfl, rfl⟩ := started
  refine (Ensures.setScope _).bind fun _ q _ bound => ?_
  subst bound
  refine (Ensures.reportAll _).bind fun _ q _ reported => ?_
  subst reported
  exact .pure ⟨rfl, rfl⟩

/-- In the frame of a signature its own variables are bound first. -/
theorem signatureBindings_ensures (s : Signature) (p : Progress) :
    r.Ensures { p with scope := p.scope.functionFrame }
      (if r.flags.definingAlias then pure s.bindings else r.bindVariables s) fun bindings q =>
        q.scope = r.innerScope p.scope s ∧ bindings = r.innerBindings p.scope s := by
  unfold innerScope innerBindings
  split
  · exact .pure ⟨rfl, rfl⟩
  · exact bindVariables_ensures s _

variable {In : Scope → Ty → Prop} {Out : Progress → Progress → Ty → Prop} {again : Recursion}

section Parts

variable (rule : r.Rule In Out) (obeys : again.Obeys r In Out)

include obeys

theorem arg_ensures (t : Ty) (level : Nesting) (p : Progress) :
    r.Ensures p (again.arg t level) fun a q => q.scope = p.scope ∧ (In p.scope t → Out p q a) :=
  obeys.expr t level.deeper p

include rule

theorem exprs_ensures (ts : List Ty) (level : Nesting) (p : Progress) :
    r.Ensures p (ts.mapM fun t => again.expr t level) fun as q => q.scope = p.scope ∧
      as.length = ts.length ∧ ((∀ t ∈ ts, In p.scope t) → ∀ a ∈ as, Out p q a) := by
  have run := Ensures.mapM (r := r) (p := p) (s := p.scope) (f := fun t => again.expr t level)
    (R := fun t p a q => In p.scope t → Out p q a)
    (fun same before after holds readable => rule.widen before same after (holds (same ▸ readable))) ts
    (fun t _ q started => (obeys.expr t level q).mono fun a q' _ holds => ⟨holds.1.trans started, holds.2⟩) rfl
  refine run.mono fun as q _ holds => ⟨holds.1, holds.2.length_eq.symm, fun readable a member => ?_⟩
  obtain ⟨t, atMember, made⟩ := forall₂_source holds.2 member
  exact made (readable t atMember)

theorem args_ensures (ts : List Ty) (level : Nesting) (p : Progress) :
    r.Ensures p (again.args ts level) fun as q => q.scope = p.scope ∧
      as.length = ts.length ∧ ((∀ t ∈ ts, In p.scope t) → ∀ a ∈ as, Out p q a) :=
  exprs_ensures rule obeys ts level.deeper p

theorem fields_ensures (fields : List (String × Ty)) (level : Nesting) (p : Progress) :
    r.Ensures p (again.fields fields level) fun made q => q.scope = p.scope ∧
      ((∀ field ∈ fields, In p.scope field.2) → ∀ field ∈ made, Out p q field.2) := by
  have run := Ensures.mapM (r := r) (p := p) (s := p.scope)
    (f := fun (field : String × Ty) => do
      let t ← again.arg field.2 level
      pure (field.1, t))
    (R := fun field p made q => In p.scope field.2 → Out p q made.2)
    (fun same before after holds readable => rule.widen before same after (holds (same ▸ readable))) fields
    (fun field _ q started =>
      (arg_ensures obeys field.2 level q).bind fun a q' _ holds =>
        .pure ⟨holds.1.trans started, holds.2⟩) rfl
  refine run.mono fun made q _ holds => ⟨holds.1, fun readable field member => ?_⟩
  obtain ⟨source, atMember, made⟩ := forall₂_source holds.2 member
  exact made (readable source atMember)

theorem typeVarBinding_ensures (binding : TypeVarBinding) (level : Nesting) (p : Progress) :
    r.Ensures p (typeVarBinding again binding level) fun made q =>
      q.scope = p.scope ∧ BindingMade In Out p q binding made := by
  refine (args_ensures rule obeys _ level p).bind fun values q before first => ?_
  refine (obeys.expr _ level q).bind fun upperBound q' after second => ?_
  refine .pure ⟨second.1.trans first.1, rfl, fun readable t member => ?_, fun readable => ?_⟩
  · exact rule.widen (.refl p) rfl after (first.2.2 readable t member)
  · exact rule.widen before first.1.symm (.refl q') (second.2 (first.1 ▸ readable))

omit obeys in
theorem bindingMade_widen {p p' q q' : Progress} {binding made : TypeVarBinding} (before : p'.Precedes p)
    (same : p'.scope = p.scope) (after : q.Precedes q') (holds : BindingMade In Out p q binding made) :
    BindingMade In Out p' q' binding made where
  same := holds.same
  values readable t member := rule.widen before same after (holds.values (same ▸ readable) t member)
  upperBound readable := rule.widen before same after (holds.upperBound (same ▸ readable))

/-- The parts of a signature, in the frame in which its variables are bound. -/
theorem signatureParts_ensures (s : Signature) (bindings : List TypeVarBinding) (level inner : Nesting)
    (p : Progress) :
    r.Ensures p (r.signatureParts again s bindings level inner) fun a q => ∀ outer : Scope,
      r.innerScope outer s = p.scope → r.innerBindings outer s = bindings → In outer (.callable s) →
        Out { p with scope := outer } { q with scope := outer } a := by
  refine (exprs_ensures rule obeys s.args inner p).bind fun args p₁ first inArgs => ?_
  refine (obeys.expr s.ret inner p₁).bind fun ret p₂ second atRet => ?_
  have bindingsRun := Ensures.mapM (r := r) (p := p₂) (s := p₂.scope) (f := fun binding => typeVarBinding again binding level)
    (R := fun binding p made q => BindingMade In Out p q binding made)
    (fun same before after holds => bindingMade_widen rule before same after holds) bindings
    (fun binding _ q started => (typeVarBinding_ensures rule obeys binding level q).mono
      fun _ _ _ made => ⟨made.1.trans started, made.2⟩) rfl
  refine bindingsRun.bind fun made p₃ third inBindings => .pure fun outer inside declared readable => ?_
  have parts := rule.reads.signature readable
  have atEnd : p₃.Precedes { p₃ with scope := outer } := .of_scope p₃ outer
  have same : p₂.scope = p.scope := atRet.1.trans inArgs.1
  rw [inside] at parts
  refine rule.makeCallable _ readable ?_ fun t member => ?_
  · rw [inside, declared]
    exact inBindings.2.imp fun _ _ holds =>
      bindingMade_widen rule (first.trans second) same.symm atEnd holds
  · rw [inside]
    rcases List.mem_append.1 member with member | member
    · have made := inArgs.2.2 (fun t atArg => parts t (List.mem_append_left _ atArg)) t member
      exact rule.widen (.refl p) rfl ((second.trans third).trans atEnd) made
    · rw [List.mem_singleton.1 member]
      have made := atRet.2 (inArgs.1 ▸ parts s.ret (List.mem_append_right _ (List.mem_singleton_self _)))
      exact rule.widen first inArgs.1.symm (third.trans atEnd) made

theorem signature_ensures (s : Signature) (level inner : Nesting) (p : Progress) :
    r.Ensures p (r.signature again s level inner) fun a q =>
      q.scope = p.scope ∧ (In p.scope (.callable s) → Out p q a) := by
  rw [signature_eq]
  refine Ensures.inFrame ?_
  refine (signatureBindings_ensures s p).bind fun bindings p₀ opened inside => ?_
  have before : Progress.Precedes p { p₀ with scope := p.scope } :=
    ⟨opened.reports, opened.aliasesUsed, opened.status⟩
  refine (signatureParts_ensures rule obeys s bindings level inner p₀).mono fun a q _ made => ⟨rfl, ?_⟩
  intro readable
  exact rule.widen before rfl (.refl _) (made p.scope inside.1.symm inside.2.symm readable)

omit obeys in
/-- What is made after a part of the run is made in the whole run. -/
theorem made_since {m : Resolve Ty} {C : Prop} {p q : Progress} (before : p.Precedes q)
    (kept : q.scope = p.scope) (run : r.Ensures q m fun a q' => q'.scope = q.scope ∧ (C → Out q q' a)) :
    r.Ensures q m fun a q' => q'.scope = p.scope ∧ (C → Out p q' a) :=
  run.mono fun _ q' _ made => ⟨made.1.trans kept, fun given => rule.widen before kept.symm (.refl q') (made.2 given)⟩

end Parts

section Literals

variable (obeys : again.Obeys r In Out)

include obeys

theorem literalsOf_ensures (index : Nat) (t : Ty) (pos : Position) (level : Nesting) (p : Progress) :
    r.Ensures p (r.literalsOf again index t pos level) fun found q =>
      q.scope = p.scope ∧ ∀ ts, found = some ts → ∀ t ∈ ts, t.IsLiteral := by
  unfold literalsOf
  split
  · split
    · exact .pure ⟨rfl, by simp⟩
    · exact noLiteral_ensures _ _ p
  · exact literalOf_ensures _ _ _ p
  · dsimp only
    split <;> exact noLiteral_ensures _ _ p
  · exact .pure ⟨rfl, by simp [Ty.IsLiteral]⟩
  · exact .pure ⟨rfl, by simp [Ty.IsLiteral]⟩
  · exact .pure ⟨rfl, by simp [Ty.IsLiteral]⟩
  · exact collectWhile_ensures _ (fun member _ q => obeys.literals index member pos level q) p
  · exact noLiteral_ensures _ _ p

theorem literals_ensures (index : Nat) (t : Ty) (pos : Position) (level : Nesting) (p : Progress) :
    r.Ensures p (r.literals again index t pos level) fun found q =>
      q.scope = p.scope ∧ ∀ ts, found = some ts → ∀ t ∈ ts, t.IsLiteral := by
  unfold literals
  split
  · split
    · exact literalOf_ensures _ _ _ p
    · refine (obeys.literalName _ _ p).bind fun resolved q _ kept => ?_
      exact (literalsOf_ensures obeys index resolved pos level q).mono fun _ _ _ found =>
        ⟨found.1.trans kept, found.2⟩
  · exact literalsOf_ensures obeys index _ pos level p

theorem literalForm_ensures (rule : r.Rule In Out) (ref : Reference) (level : Nesting) (p : Progress) :
    r.Ensures p (r.literalForm again ref level) fun a q => q.scope = p.scope ∧ Out p q a := by
  unfold literalForm
  split
  · exact .failAt ⟨rfl, rule.makeAny _ _ _⟩
  · refine (collectWhile_ensures _
      (fun (numbered : Ty × Nat) _ q => literals_ensures obeys numbered.2 numbered.1 ref.pos level q) p).bind
      fun found q _ read => ?_
    cases found with
    | none => exact .pure ⟨read.1, rule.makeAny _ _ _⟩
    | some ts =>
      refine .pure ⟨read.1, rule.makeUnion _ fun t member => ?_⟩
      rcases Ty.isLiteral_cases (read.2 ts rfl t member) with ⟨literal, rfl⟩ | ⟨pos, rfl⟩
      · exact rule.makeLiteral literal
      · exact rule.makeNone pos

end Literals

section Forms

variable (rule : r.Rule In Out) (obeys : again.Obeys r In Out)

include rule obeys

theorem callableForm_ensures {ref : Reference} {symbol : Symbol} (found : r.table.lookup ref.name = some symbol)
    (isForm : symbol.isCallableForm) (level : Nesting) (p : Progress) :
    r.Ensures p (r.callableForm again ref level) fun a q =>
      q.scope = p.scope ∧ (In p.scope (.named ref) → Out p q a) := by
  have finish {s : Signature} (isSignature : r.formSignature? ref = some s) {q : Progress} (before : p.Precedes q)
      (kept : q.scope = p.scope) : r.Ensures q (r.signature again s level level.deeper) fun a q' =>
        q'.scope = p.scope ∧ (In p.scope (.named ref) → Out p q' a) := by
    refine made_since rule before kept ?_
    refine (signature_ensures rule obeys s level level.deeper q).mono fun a q' _ made => ⟨made.1, fun readable => ?_⟩
    exact made.2 (kept ▸ rule.reads.form readable found isForm isSignature)
  unfold callableForm
  split
  · rename_i atArgs
    refine (omittedArguments_ensures ref p).bind fun filler q before omitted => ?_
    obtain ⟨kept, rfl⟩ := omitted
    exact finish (by simp [formSignature?, atArgs]) before kept
  · rename_i items pos ret atArgs
    dsimp only
    refine (Ensures.reportAll _).bind fun _ q before reported => ?_
    subst reported
    split
    · rename_i parameters read
      exact finish (by simp [formSignature?, atArgs, read]) before rfl
    · exact .pure ⟨rfl, fun _ => rule.makeAny _ _ _⟩
  · rename_i pos ret atArgs
    exact finish (by simp [formSignature?, atArgs]) (.refl p) rfl
  · exact .failAt ⟨rfl, fun _ => rule.makeAny _ _ _⟩
  · exact .failAt ⟨rfl, fun _ => rule.makeAny _ _ _⟩

theorem tupleForm_ensures (ref : Reference) (level : Nesting) (p : Progress) :
    r.Ensures p (r.tupleForm again ref level) fun a q =>
      q.scope = p.scope ∧ (In p.scope (.named ref) ∧ (∀ t ∈ ref.args, In p.scope t) → Out p q a) := by
  unfold tupleForm
  split
  · split
    · refine (Ensures.raise (.inr (by simp))).bind fun _ q _ raised => ?_
      subst raised
      exact .pure ⟨rfl, fun _ => rule.makeAny _ _ _⟩
    · refine (Ensures.report _ _).bind fun _ q _ reported => ?_
      subst reported
      exact .pure ⟨rfl, fun _ => rule.makeAny _ _ _⟩
  · rename_i decl found
    split
    · refine (omittedArguments_ensures ref p).bind fun filler q _ omitted => ?_
      obtain ⟨kept, rfl⟩ := omitted
      refine .pure ⟨kept, fun given => rule.makeTupleInstance given.1 found ?_⟩
      unfold omittedAny
      split <;> exact rule.makeAny _ _ _
    · rename_i item _ atArgs
      refine (arg_ensures obeys item level p).bind fun item q _ made => .pure ⟨made.1, fun given => ?_⟩
      exact rule.makeTupleInstance given.1 found (made.2 (given.2 _ (by simp [atArgs])))
    · rename_i items _ _ _
      refine (args_ensures rule obeys ref.args level p).bind fun items q _ made => ?_
      exact .pure ⟨made.1, fun given => rule.makeTuple _ _ _ (made.2.2 given.2)⟩

theorem classObjectForm_ensures (ref : Reference) (level : Nesting) (p : Progress) :
    r.Ensures p (r.classObjectForm again ref level) fun a q =>
      q.scope = p.scope ∧ ((∀ t ∈ ref.args, In p.scope t) → Out p q a) := by
  unfold classObjectForm
  split
  · refine (omittedArguments_ensures ref p).bind fun filler q _ omitted => ?_
    obtain ⟨kept, rfl⟩ := omitted
    refine .pure ⟨kept, fun _ => ?_⟩
    unfold omittedAny
    split <;> exact rule.makeClassObject (t := .any ..) _ (rule.makeAny _ _ _)
  · rename_i item others atArgs
    have finish {q : Progress} (before : p.Precedes q) (kept : q.scope = p.scope) :
        r.Ensures q (do
          let item ← again.arg item level
          pure (.makeClassObject item ref.pos)) fun a q' =>
            q'.scope = p.scope ∧ ((∀ t ∈ ref.args, In p.scope t) → Out p q' a) := by
      refine made_since rule before kept ?_
      refine (arg_ensures obeys item level q).bind fun item q' _ made => .pure ⟨made.1, fun readable => ?_⟩
      exact rule.makeClassObject _ (made.2 (kept ▸ readable _ (by simp [atArgs])))
    split
    · refine (Ensures.report _ _).bind fun _ q before reported => ?_
      subst reported
      exact finish before rfl
    · exact finish (.refl p) rfl

theorem classVarForm_ensures (ref : Reference) (level : Nesting) (p : Progress) :
    r.Ensures p (classVarForm again ref level) fun a q =>
      q.scope = p.scope ∧ ((∀ t ∈ ref.args, In p.scope t) → Out p q a) := by
  rw [classVarForm_eq]
  refine (Ensures.bind (P := fun _ q => q.scope = p.scope) ?_ fun _ q before kept => ?_)
  · split
    · exact .pure rfl
    · refine (Ensures.report _ _).mono fun _ q _ reported => ?_
      rw [reported]
  · refine made_since rule before kept ?_
    unfold classVarArgument
    split
    · exact .pure ⟨rfl, fun _ => rule.makeAny _ _ _⟩
    · rename_i item atArgs
      refine (arg_ensures obeys item level q).bind fun item q' _ made => ?_
      split
      · exact .pure ⟨made.1, fun readable => made.2 (kept ▸ readable _ (by simp [atArgs]))⟩
      · exact .failAt ⟨made.1, fun _ => rule.makeAny _ _ _⟩
    · exact .failAt ⟨rfl, fun _ => rule.makeAny _ _ _⟩

theorem specialForm_ensures {form : SpecialForm} {ref : Reference} {symbol : Symbol}
    (found : r.table.lookup ref.name = some symbol) (settled : symbol.isPending = false)
    (isForm : SpecialForm.ofName? symbol.fullname = some form) (level : Nesting) (p : Progress) :
    r.Ensures p (r.specialForm again form ref level) fun a q =>
      q.scope = p.scope ∧ (In p.scope (.named ref) → Out p q a) := by
  have parts (other : form ≠ .callable) (readable : In p.scope (.named ref)) : ∀ t ∈ ref.args, In p.scope t :=
    rule.reads.args readable found (by simpa [Symbol.isCallableForm, settled, isForm] using other)
  cases form with
  | noneType => exact .pure ⟨rfl, fun _ => rule.makeNone _⟩
  | any => exact .pure ⟨rfl, fun _ => rule.makeAny _ _ _⟩
  | final => exact .failAt ⟨rfl, fun _ => rule.makeAny _ _ _⟩
  | tuple =>
    exact (tupleForm_ensures rule obeys ref level p).mono fun _ _ _ made =>
      ⟨made.1, fun readable => made.2 ⟨readable, parts (by simp) readable⟩⟩
  | union =>
    refine (args_ensures rule obeys ref.args level p).bind fun items q _ made => .pure ⟨made.1, fun readable => ?_⟩
    exact rule.makeUnion _ (made.2.2 (parts (by simp) readable))
  | optional =>
    unfold specialForm
    dsimp only
    split
    · rename_i item atArgs
      refine (arg_ensures obeys item level p).bind fun item q _ made => .pure ⟨made.1, fun readable => ?_⟩
      exact rule.makeOptional (made.2 (parts (by simp) readable _ (by simp [atArgs])))
    · exact .failAt ⟨rfl, fun _ => rule.makeAny _ _ _⟩
  | callable => exact callableForm_ensures rule obeys found (by simp [Symbol.isCallableForm, settled, isForm]) level p
  | classObject =>
    exact (classObjectForm_ensures rule obeys ref level p).mono fun _ _ _ made =>
      ⟨made.1, fun readable => made.2 (parts (by simp) readable)⟩
  | classVar =>
    exact (classVarForm_ensures rule obeys ref level p).mono fun _ _ _ made =>
      ⟨made.1, fun readable => made.2 (parts (by simp) readable)⟩
  | noReturn => exact .pure ⟨rfl, fun _ => rule.makeNever _⟩
  | literal =>
    exact (literalForm_ensures obeys rule ref level p).mono fun _ _ _ made => ⟨made.1, fun _ => made.2⟩
  | annotated =>
    unfold specialForm
    dsimp only
    split
    · rename_i item other others atArgs
      exact (arg_ensures obeys item level p).mono fun _ _ _ made =>
        ⟨made.1, fun readable => made.2 (parts (by simp) readable _ (by simp [atArgs]))⟩
    · exact .failAt ⟨rfl, fun _ => rule.makeAny _ _ _⟩

theorem classInstance_ensures {decl : ClassDecl} (holds : r.table.Holds (.classDef decl)) {args : List Ty}
    {C : Prop} (pos : Position) (level : Nesting) {p : Progress} (reads : C → r.ReadsClass In p.scope decl args)
    (readable : C → ∀ t ∈ args, In p.scope t) :
    r.Ensures p (r.classInstance again decl args pos level) fun a q => q.scope = p.scope ∧ (C → Out p q a) := by
  refine (args_ensures rule obeys args level p).bind fun resolved q before made => ?_
  refine (fixArity_ensures _ _ _ q).bind fun i q' after fixed => ?_
  have kept : q'.scope = p.scope := fixed.1.trans made.1
  split
  · rename_i base atBase
    split
    · exact .failAt ⟨kept, fun _ => rule.makeAny _ _ _⟩
    · refine made_since rule (before.trans after) kept ?_
      refine (args_ensures rule obeys base.items level q').bind fun items q'' _ inBase =>
        .pure ⟨inBase.1, fun given => ?_⟩
      exact rule.makeTupleBase _ _ holds (kept ▸ reads given) atBase inBase.2.2
  · rename_i base _ atBase
    split
    · exact .failAt ⟨kept, fun _ => rule.makeAny _ _ _⟩
    · refine made_since rule (before.trans after) kept ?_
      refine (fields_ensures rule obeys base.fields level q').bind fun fields q'' _ inBase =>
        .pure ⟨inBase.1, fun given => ?_⟩
      exact rule.makeRecordBase _ _ holds (kept ▸ reads given) atBase inBase.2
  · refine .pure ⟨kept, fun given => ?_⟩
    rw [fixed.2]
    refine rule.makeInstance _ holds (reads given) made.2.1 fun t member => ?_
    exact rule.widen (.refl p) rfl after (made.2.2 (readable given) t member)

/-- A class is resolved with its arguments, to an instance or to the tuple or record of its base. -/
theorem classType_ensures {decl : ClassDecl} (holds : r.table.Holds (.classDef decl)) {args : List Ty} {C : Prop}
    (pos : Position) (level : Nesting) {p : Progress} (reads : C → r.ReadsClass In p.scope decl args)
    (readable : C → ∀ t ∈ args, In p.scope t) :
    r.Ensures p (r.classType again decl args pos level) fun a q => q.scope = p.scope ∧ (C → Out p q a) := by
  rw [classType_eq]
  split
  · refine (args_ensures rule obeys args level p).bind fun items q _ made => ?_
    exact .pure ⟨made.1, fun given => rule.makeTuple _ _ _ (made.2.2 (readable given))⟩
  · exact classInstance_ensures rule obeys holds pos level reads readable

end Forms
end Resolver
end TypeResolution
