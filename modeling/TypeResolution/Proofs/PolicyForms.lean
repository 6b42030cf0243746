import TypeResolution.Proofs.LiteralMembers
import TypeResolution.Proofs.Pact

namespace TypeResolution

open Resolve

theorem TypeVarBinding.parts_of_alike {exact : Prop} {a b : TypeVarBinding} (alike : Alike exact unexplained a b) :
    ∃ values upperBound, b = { a with values := values, upperBound := upperBound } ∧
      Alike exact (List.map Ty.unexplained) a.values values ∧ Alike exact Ty.unexplained a.upperBound upperBound := by
  obtain ⟨shown, same⟩ := alike
  obtain ⟨name, fullname, id, values, upperBound, variance, pos⟩ := a
  obtain ⟨name', fullname', id', values', upperBound', variance', pos'⟩ := b
  simp only [unexplained, Ty.unexplainedAll_eq, TypeVarBinding.mk.injEq] at shown same
  obtain ⟨rfl, rfl, rfl, inValues, atBound, rfl, rfl⟩ := shown
  exact ⟨values', upperBound', rfl, ⟨inValues, fun holds => (same holds).2.2.2.1⟩,
    ⟨atBound, fun holds => (same holds).2.2.2.2.1⟩⟩

/-- The recursive calls under two policies agree on types that agree. -/
structure Comparison.Follows (c : Comparison) (again again' : Recursion) : Prop where
  expr {exact : Prop} {s s' : Scope} {t t' : Ty} (level : Nesting) : s.AlikeScope exact s' →
    Alike exact Ty.unexplained t t' → c.Agree exact Ty.unexplained s s' (again.expr t level) (again'.expr t' level)
  literalName {exact : Prop} {s s' : Scope} {ref : Reference} {args : List Ty} (level : Nesting) : s.AlikeScope exact s' →
    Alike exact (List.map Ty.unexplained) ref.args args → c.Agree exact Ty.unexplained s s' (again.literalName ref level)
      (again'.literalName (ref.withArgs args) level)
  literals {exact : Prop} {s s' : Scope} {t t' : Ty} (index : Nat) (pos : Position) (level : Nesting) :
    s.AlikeScope exact s' → Alike exact Ty.unexplained t t' →
    c.Agree exact (Option.map (List.map Ty.unexplained)) s s' (again.literals index t pos level)
      (again'.literals index t' pos level)

namespace Resolver

variable {r : Resolver} {policy : Policy} {c : Comparison} (pact : r.Pact policy c) {again again' : Recursion} [again.Steady]
  [again'.Steady] (follows : c.Follows again again') {exact : Prop} {s s' : Scope} (scopes : s.AlikeScope exact s')

section Arguments

include follows scopes

omit [again.Steady] [again'.Steady] in
theorem arg_agree {t t' : Ty} (alike : Alike exact Ty.unexplained t t') (level : Nesting) :
    c.Agree exact Ty.unexplained s s' (again.arg t level) (again'.arg t' level) :=
  follows.expr level.deeper scopes alike

theorem exprs_agree {ts ts' : List Ty} (alike : Alike exact (List.map Ty.unexplained) ts ts') (level : Nesting) :
    c.Agree exact (List.map Ty.unexplained) s s' (ts.mapM fun t => again.expr t level)
      (ts'.mapM fun t => again'.expr t level) :=
  .mapM alike fun _ weaker _ _ each => follows.expr level (scopes.mono weaker) each

theorem args_agree {ts ts' : List Ty} (alike : Alike exact (List.map Ty.unexplained) ts ts') (level : Nesting) :
    c.Agree exact (List.map Ty.unexplained) s s' (again.args ts level) (again'.args ts' level) :=
  exprs_agree follows scopes alike level.deeper

theorem fields_agree {fields fields' : List (String × Ty)}
    (alike : Alike exact (List.map fun field => (field.1, field.2.unexplained)) fields fields') (level : Nesting) :
    c.Agree exact (List.map fun field => (field.1, field.2.unexplained)) s s' (again.fields fields level)
      (again'.fields fields' level) := by
  refine .mapM alike fun inner weaker field field' each => ?_
  obtain ⟨sameKey, shown⟩ := Prod.mk.inj each.shown
  have atField : Alike inner Ty.unexplained field.2 field'.2 := ⟨shown, fun holds => by rw [each.same holds]⟩
  refine (arg_agree follows (scopes.mono weaker) atField level).map fun _ _ t t' made => ?_
  rw [← sameKey]
  exact made.map fun shown => by rw [shown]

theorem typeVarBinding_agree {binding binding' : TypeVarBinding} (alike : Alike exact TypeVarBinding.unexplained binding binding')
    (level : Nesting) :
    c.Agree exact TypeVarBinding.unexplained s s' (typeVarBinding again binding level)
      (typeVarBinding again' binding' level) := by
  obtain ⟨values, upperBound, rfl, inValues, atBound⟩ := TypeVarBinding.parts_of_alike alike
  refine (args_agree follows scopes inValues level).bind fun inner weaker values values' made => ?_
  refine (follows.expr level (scopes.mono weaker) (atBound.mono weaker)).map fun inner' weaker' bound bound' madeBound => ?_
  obtain ⟨name, fullname, id, _, _, variance, pos⟩ := binding
  refine ⟨?_, fun holds => by rw [made.same (weaker' holds), madeBound.same holds]⟩
  simp [TypeVarBinding.unexplained, made.shown, madeBound.shown]

end Arguments

section Repairs

include pact

theorem omittedArguments_agree (ref : Reference) (args : List Ty) :
    c.Agree exact Ty.unexplained s s' (r.omittedArguments ref) ((r.withPolicy policy).omittedArguments (ref.withArgs args)) := by
  have filler := pact.omitted ref.pos none ref.name
  refine .reportThen (fun _ => filler.told trivial) fun inner weaker => .pure ?_
  exact filler.result.mono fun holds => ⟨trivial, (weaker holds).2⟩

theorem fixArity_agree {i j : Instance} (alike : Alike exact Instance.unexplained i j) (fromAlias : Bool) (written : Option String) :
    c.Agree exact Instance.unexplained s s' (r.fixArity i fromAlias written)
      ((r.withPolicy policy).fixArity j fromAlias written) := by
  unfold fixArity
  change c.Agree exact _ s s' _ (if r.flags.definingAlias then _ else _)
  split
  · exact .pure alike
  · have fixed := fixInstance_reported pact alike fromAlias written
    exact .reportThen fixed.told fun inner weaker => .pure (fixed.result.mono weaker)

theorem aliasResult_agree {t u : Ty} (alike : Alike exact Ty.unexplained t u) (written : String) :
    c.Agree exact Ty.unexplained s s' (r.aliasResult written t) ((r.withPolicy policy).aliasResult written u) := by
  cases Ty.alikeForm_of_alike alike with
  | inst inInstance =>
    exact (fixArity_agree pact inInstance true (some written)).map fun _ _ i j made => Ty.AlikeForm.alike (.inst made)
  | _ => exact .pure alike

end Repairs

/-! Literals -/

section Literals

omit pact in
theorem requiredInstance_agree (fullname : String) (pos : Position) :
    c.Agree exact (Option.map Instance.unexplained) s s' (r.requiredInstance fullname pos)
      ((r.withPolicy policy).requiredInstance fullname pos) := by
  change c.Agree exact _ s s' (r.requiredInstance fullname pos) (r.requiredInstance fullname pos)
  unfold requiredInstance
  split
  · exact .pure (.refl _)
  · split
    · exact (Comparison.Agree.raise .incomplete).bind fun _ _ _ _ _ => .pure (.refl none)
    · exact .report rfl fun _ _ => .pure (.refl none)

omit pact in
theorem literalOf_agree (value : LiteralValue) (className : String) (pos : Position) :
    c.Agree exact (Option.map (List.map Ty.unexplained)) s s' (r.literalOf value className pos)
      ((r.withPolicy policy).literalOf value className pos) := by
  rw [literalOf_eq, literalOf_eq]
  refine (requiredInstance_agree (r.stringClass className) pos).map fun inner _ found found' alike => ?_
  cases found with
  | none =>
    rw [alike.none_left]
    exact .refl _
  | some fallback =>
    obtain ⟨fallback', rfl, atFallback⟩ := alike.some_left
    have atLiteral : Alike inner Literal.unexplained ⟨value, fallback, pos⟩ ⟨value, fallback', pos⟩ :=
      ⟨by simp [Literal.unexplained, atFallback.shown], fun holds => by rw [atFallback.same holds]⟩
    exact (Ty.AlikeForm.alike (.literal atLiteral)).single.some

omit pact in
theorem noLiteral_agree (pos : Position) {problem : Problem} (plain : problem.aboutScalar = false) :
    c.Agree exact (Option.map (List.map Ty.unexplained)) s s' (noLiteral pos problem) (noLiteral pos problem) :=
  .report plain fun _ _ => .pure (.refl none)

/-- What is reported of a parameter that is an `Any` of this origin. -/
def anyReports (origin : AnyOrigin) (index : Nat) (pos : Position) : List Diagnostic :=
  if origin = .error ∨ origin = .specialForm then [] else [⟨pos, .literalOfAny index⟩]

theorem literalsOf_any (r : Resolver) (again : Recursion) (index : Nat) (origin : AnyOrigin) (missing : Option String)
    (at_ pos : Position) (level : Nesting) :
    r.literalsOf again index (.any origin missing at_) pos level =
      reportAll (anyReports origin index pos) >>= fun _ => pure none := by
  unfold literalsOf anyReports
  dsimp only
  split
  · exact (reportAll_nil_bind _).symm
  · rfl

include follows scopes

theorem literalsOf_agree {t t' : Ty} (alike : Alike exact Ty.unexplained t t') (index : Nat) (pos : Position)
    (level : Nesting) :
    c.Agree exact (Option.map (List.map Ty.unexplained)) s s' (r.literalsOf again index t pos level)
      ((r.withPolicy policy).literalsOf again' index t' pos level) := by
  cases Ty.alikeForm_of_alike alike with
  | @any origin origin' missing at_ same =>
    rw [literalsOf_any, literalsOf_any]
    refine .reportThen (fun holds => ?_) fun _ _ => .pure (.refl none)
    rw [same holds]
    refine c.same ?_
    unfold anyReports
    split <;> simp [Problem.aboutScalar]
  | @scalar value className note at_ =>
    cases value with
    | some value => exact literalOf_agree value className at_
    | none =>
      unfold literalsOf
      dsimp only
      split
      · exact noLiteral_agree pos rfl
      · exact noLiteral_agree pos rfl
  | noneType => exact .pure (Alike.refl _)
  | literal parts => exact .pure (Ty.AlikeForm.alike (.literal parts)).single.some
  | @inst i i' inInstance =>
    obtain ⟨_, _, _, _, known⟩ := Instance.parts_of_alike inInstance
    obtain ⟨head, args, invalid, lastKnown, at_⟩ := i
    obtain ⟨head', args', invalid', lastKnown', at_'⟩ := i'
    cases lastKnown with
    | none =>
      obtain rfl : lastKnown' = none := known.none_left
      exact noLiteral_agree pos rfl
    | some l =>
      obtain ⟨l', atKnown, inLiteral⟩ := known.some_left
      obtain rfl : lastKnown' = some l' := atKnown
      exact .pure (Ty.AlikeForm.alike (.literal inLiteral)).single.some
  | @union ms ms' at_ inMembers =>
    exact .collectWhile inMembers fun inner weaker m m' each =>
      follows.literals index pos level (scopes.mono weaker) each
  | _ => exact noLiteral_agree pos rfl

theorem literals_agree {t t' : Ty} (alike : Alike exact Ty.unexplained t t') (index : Nat) (pos : Position)
    (level : Nesting) :
    c.Agree exact (Option.map (List.map Ty.unexplained)) s s' (r.literals again index t pos level)
      ((r.withPolicy policy).literals again' index t' pos level) := by
  have atOnce : c.Agree exact (Option.map (List.map Ty.unexplained)) s s' (r.literalsOf again index t pos level)
      ((r.withPolicy policy).literalsOf again' index t' pos level) := literalsOf_agree follows scopes alike index pos level
  cases Ty.alikeForm_of_alike alike with
  | @named ref args inArgs =>
    unfold literals Reference.withArgs
    dsimp only
    split
    · exact literalOf_agree _ _ _
    · refine (follows.literalName level.deeper scopes inArgs).bind fun inner weaker resolved resolved' made => ?_
      exact literalsOf_agree follows (scopes.mono weaker) made index pos level
  | _ => exact atOnce

theorem literalForm_agree {ref : Reference} {args : List Ty} (alike : Alike exact (List.map Ty.unexplained) ref.args args)
    (level : Nesting) :
    c.Agree exact Ty.unexplained s s' (r.literalForm again ref level)
      ((r.withPolicy policy).literalForm again' (ref.withArgs args) level) := by
  have numbered : Alike exact (List.map (Prod.map Ty.unexplained (id : Nat → Nat))) (ref.args.zipIdx 1) (args.zipIdx 1) := by
    have inPairs := congrArg (fun ts : List Ty => ts.zipIdx 1) alike.shown
    refine ⟨?_, fun holds => by rw [alike.same holds]⟩
    rwa [List.zipIdx_map, List.zipIdx_map] at inPairs
  rw [literalForm_eq, literalForm_eq]
  change c.Agree exact _ s s' _ (if args.isEmpty then _ else _)
  rw [← alike.isEmpty_eq]
  split
  · exact .failAt _ rfl
  · have found : c.Agree exact (Option.map (List.map Ty.unexplained)) s s'
        (collectWhile (fun x => r.literals again x.2 x.1 ref.pos level) (ref.args.zipIdx 1))
        (collectWhile (fun x => (r.withPolicy policy).literals again' x.2 x.1 ref.pos level) (args.zipIdx 1)) := by
      refine .collectWhile numbered fun inner weaker x x' each => ?_
      obtain ⟨t, index⟩ := x
      obtain ⟨t', index'⟩ := x'
      obtain ⟨shown, sameIndex⟩ := Prod.mk.inj each.shown
      obtain rfl : index = index' := sameIndex
      have atType : Alike inner Ty.unexplained t t' := ⟨shown, fun holds => (Prod.mk.inj (each.same holds)).1⟩
      exact literals_agree follows (scopes.mono weaker) atType index ref.pos level
    refine found.map fun inner weaker found found' made => ?_
    cases found with
    | none =>
      rw [made.none_left]
      exact .refl _
    | some ts =>
      obtain ⟨ts', rfl, inTypes⟩ := made.some_left
      exact Ty.makeUnion_alike inTypes ref.pos

end Literals

/-! Signatures -/

section Signatures

/-- The variables of signatures that agree are bound alike. -/
theorem bindSignature_alike (table : SymbolTable) {exact : Prop} {s s' : Scope} (scopes : s.AlikeScope exact s')
    {signature other : Signature} (samePos : other.pos = signature.pos)
    (inArgs : Alike exact (List.map Ty.unexplained) signature.args other.args)
    (atRet : Alike exact Ty.unexplained signature.ret other.ret)
    (inBindings : Alike exact (List.map TypeVarBinding.unexplained) signature.bindings other.bindings) :
    (s.bindSignature table signature).scope.AlikeScope exact (s'.bindSignature table other).scope ∧
      Alike exact (List.map TypeVarBinding.unexplained) (s.bindSignature table signature).bindings
        (s'.bindSignature table other).bindings ∧
      (s'.bindSignature table other).reports = (s.bindSignature table signature).reports := by
  unfold Scope.bindSignature
  rw [← inBindings.isEmpty_eq, samePos]
  split
  · have sameUses : inferTypeVariables table s' other = inferTypeVariables table s signature :=
      (inferTypeVariables_alike table scopes inArgs.shown atRet.shown).symm
    rw [sameUses]
    obtain ⟨inner, sameBindings, sameReports⟩ :=
      scopes.bindUses table signature.pos (inferTypeVariables table s signature)
    exact ⟨inner, sameBindings ▸ .refl _, sameReports.symm⟩
  · exact ⟨scopes.foldl_bindDeclared table inBindings, inBindings, rfl⟩

omit [again.Steady] [again'.Steady] in
/-- Signatures that agree are resolved in frames that agree. -/
theorem innerParts_alike (r : Resolver) (scopes : s.AlikeScope exact s') {signature other : Signature}
    (samePos : other.pos = signature.pos) (inArgs : Alike exact (List.map Ty.unexplained) signature.args other.args)
    (atRet : Alike exact Ty.unexplained signature.ret other.ret)
    (inBindings : Alike exact (List.map TypeVarBinding.unexplained) signature.bindings other.bindings) :
    (r.innerScope s signature).AlikeScope exact (r.innerScope s' other) ∧
      Alike exact (List.map TypeVarBinding.unexplained) (r.innerBindings s signature) (r.innerBindings s' other) ∧
      r.innerReports s' other = r.innerReports s signature := by
  have bound := bindSignature_alike r.table scopes.functionFrame samePos inArgs atRet inBindings
  unfold innerScope innerBindings innerReports
  split
  · exact ⟨scopes.functionFrame, inBindings, rfl⟩
  · exact bound

include follows

/-- The parts of signatures that agree are resolved alike. -/
theorem signatureParts_agree {frame frame' : Scope} (frames : frame.AlikeScope exact frame') {signature : Signature}
    {args : List Ty} {ret : Ty} {fallback : Option Instance} {declared bindings bindings' : List TypeVarBinding}
    (inArgs : Alike exact (List.map Ty.unexplained) signature.args args)
    (atRet : Alike exact Ty.unexplained signature.ret ret)
    (atFallback : Alike exact (Option.map Instance.unexplained) signature.fallback fallback)
    (inBindings : Alike exact (List.map TypeVarBinding.unexplained) bindings bindings') (level inner : Nesting) :
    c.Agree exact Ty.unexplained frame frame' (r.signatureParts again signature bindings level inner)
      ((r.withPolicy policy).signatureParts again'
        { signature with args := args, ret := ret, fallback := fallback, bindings := declared } bindings' level inner) := by
  have ownFallback : Alike exact (Option.map Instance.unexplained)
      (signature.fallback <|> r.instanceOf? "builtins.function" [] .unknown)
      (fallback <|> r.instanceOf? "builtins.function" [] .unknown) := by
    cases written : signature.fallback with
    | none =>
      rw [written] at atFallback
      rw [atFallback.none_left]
      exact .refl _
    | some i =>
      rw [written] at atFallback
      obtain ⟨i', rfl, _⟩ := atFallback.some_left
      exact atFallback
  unfold signatureParts
  refine (exprs_agree follows frames inArgs inner).bind fun _ weaker args args' madeArgs => ?_
  refine (follows.expr inner (frames.mono weaker) (atRet.mono weaker)).bind fun _ weaker' ret ret' madeRet => ?_
  have under := fun holds => weaker (weaker' holds)
  have inVariables : c.Agree _ (List.map TypeVarBinding.unexplained) frame frame'
      (bindings.mapM fun binding => typeVarBinding again binding level)
      (bindings'.mapM fun binding => typeVarBinding again' binding level) :=
    .mapM (inBindings.mono under) fun _ under' _ _ each =>
      typeVarBinding_agree follows (frames.mono fun holds => under (under' holds)) each level
  refine inVariables.map fun _ last made made' madeBindings => ?_
  refine Ty.AlikeForm.alike (.callable (madeArgs.mono fun holds => weaker' (last holds)) (madeRet.mono last) ?_ madeBindings)
  exact ownFallback.mono fun holds => under (last holds)

include scopes

theorem signature_agree {signature other : Signature}
    (alike : Alike exact Ty.unexplained (.callable signature) (.callable other)) (level inner : Nesting) :
    c.Agree exact Ty.unexplained s s' (r.signature again signature level inner)
      ((r.withPolicy policy).signature again' other level inner) := by
  cases Ty.alikeForm_of_alike alike with
  | @callable _ args ret fallback bindings inArgs atRet atFallback inBindings =>
    have samePos : ({ signature with args := args, ret := ret, fallback := fallback, bindings := bindings } : Signature).pos =
      signature.pos := rfl
    obtain ⟨frames, inInner, sameReports⟩ := innerParts_alike r scopes samePos inArgs atRet inBindings
    rw [signature_within, signature_within]
    refine .scopeThen ?_
    change c.Agree exact _ s s' _ (reportAll (r.innerReports s' _) >>= fun _ => within (r.innerScope s' _)
      ((r.withPolicy policy).signatureParts again' _ (r.innerBindings s' _) level inner))
    rw [sameReports]
    refine .side (r.innerReports_onTheSide s signature) fun _ weaker => .within ?_
    exact signatureParts_agree follows (frames.mono weaker) (inArgs.mono weaker) (atRet.mono weaker)
      (atFallback.mono weaker) (inInner.mono weaker) level inner

end Signatures

/-! Callables -/

section Callables

/-- Signatures of parameters that agree agree. -/
theorem ofParameters_alike {items items' : List Ty} (table : SymbolTable) (at_ : Position)
    (inItems : Alike exact (List.map Ty.unexplained) items items') {ret ret' : Ty}
    (atRet : Alike exact Ty.unexplained ret ret') (fallback : Option Instance) (pos : Position) :
    let signature (items : List Ty) (ret : Ty) : Option Signature := (Parameter.ofItems table items at_).1.map fun parameters =>
      { Signature.ofParameters parameters ret with fallback := fallback, pos := pos }
    Alike exact (Option.map fun s => (Ty.callable s).unexplained) (signature items ret) (signature items' ret') ∧
      (Parameter.ofItems table items' at_).2 = (Parameter.ofItems table items at_).2 := by
  intro signature
  have read := Parameter.ofItems_unexplained table items at_
  rw [inItems.shown, Parameter.ofItems_unexplained] at read
  obtain ⟨sameParameters, sameReports⟩ := Prod.mk.inj read
  refine ⟨⟨?_, fun holds => by rw [inItems.same holds, atRet.same holds]⟩, sameReports⟩
  have shownRet := atRet.shown
  have shape (parameters : List Parameter) (ret : Ty) :
      (Ty.callable { Signature.ofParameters parameters ret with fallback := fallback, pos := pos }).unexplained =
        Ty.callable { Signature.ofParameters (parameters.map (Parameter.mapType Ty.unexplained)) ret.unexplained with
          fallback := fallback.map Instance.unexplained, pos := pos } := by
    simp [Ty.unexplained, Signature.ofParameters, Signature.of, Parameter.mapType, Function.comp_def]
  have shapes (found : Option (List Parameter)) (ret : Ty) :
      (found.map fun parameters =>
        (Ty.callable { Signature.ofParameters parameters ret with fallback := fallback, pos := pos }).unexplained) =
      (found.map (List.map (Parameter.mapType Ty.unexplained))).map fun parameters =>
        Ty.callable { Signature.ofParameters parameters ret.unexplained with
          fallback := fallback.map Instance.unexplained, pos := pos } := by
    cases found with
    | none => rfl
    | some parameters => exact congrArg some (shape parameters ret)
  simp only [signature, Option.map_map, Function.comp_def]
  rw [shapes, shapes, sameParameters, shownRet]

theorem ofAnyArgs_alike {arg arg' ret ret' : Ty} (atArg : Alike exact Ty.unexplained arg arg')
    (atRet : Alike exact Ty.unexplained ret ret') (fallback : Option Instance) (pos : Position) :
    Alike exact (Option.map fun s => (Ty.callable s).unexplained)
      (some { Signature.ofAnyArgs arg ret with fallback := fallback, pos := pos })
      (some { Signature.ofAnyArgs arg' ret' with fallback := fallback, pos := pos }) := by
  refine ⟨?_, fun holds => by rw [atArg.same holds, atRet.same holds]⟩
  simp [Ty.unexplained, Signature.ofAnyArgs, atArg.shown, atRet.shown]

include pact

/-- The signatures that `Callable` stands for agree, and so does what is reported of them. -/
theorem formSignature?_reported {ref : Reference} {args : List Ty}
    (alike : Alike exact (List.map Ty.unexplained) ref.args args) :
    c.Reported exact (Option.map fun s => (Ty.callable s).unexplained) (r.formSignature? ref, r.formReports ref)
      ((r.withPolicy policy).formSignature? (ref.withArgs args), (r.withPolicy policy).formReports (ref.withArgs args)) := by
  obtain ⟨name, written, optional, emptyTuple, quoted, quotedClass, pos⟩ := ref
  have none_ (problem : Problem) (side : problem.OnTheSide) :
      c.Reported exact (Option.map fun s => (Ty.callable s).unexplained) (none, [⟨pos, problem⟩]) (none, [⟨pos, problem⟩]) :=
    .side (by simpa using side) (.refl none)
  cases written with
  | nil =>
    obtain rfl : args = [] := alike.nil_left
    have filler := pact.omitted pos none name
    have inArgs := ofAnyArgs_alike filler.result filler.result (r.instanceOf? "builtins.function" [] pos) pos
    exact ⟨fun _ => filler.told trivial, inArgs.mono fun holds => ⟨trivial, holds.2⟩⟩
  | cons first others =>
    obtain ⟨first', rest, rfl, atFirst, inOthers⟩ : ∃ y rest, args = y :: rest ∧ _ := alike.cons_left
    match others, inOthers with
    | [], inOthers =>
      obtain rfl := inOthers.nil_left
      cases Ty.alikeForm_of_alike atFirst <;> exact none_ .callableUsage trivial
    | [ret], inOthers =>
      obtain ⟨ret', last, rfl, atRet, inLast⟩ := inOthers.cons_left
      obtain rfl := inLast.nil_left
      cases Ty.alikeForm_of_alike atFirst with
      | @bracketed items items' at_ inItems =>
        have read := ofParameters_alike r.table at_ inItems atRet (r.instanceOf? "builtins.function" [] pos) pos
        have side := Parameter.ofItems_onTheSide r.table items at_
        refine ⟨fun _ => ?_, read.1.mono And.left⟩
        change c.told (Parameter.ofItems r.table items at_).2 (Parameter.ofItems r.table items' at_).2
        rw [read.2]
        exact c.same fun report member => (side report member).plain
      | ellipsis =>
        exact .same (List.forall_mem_nil _) (ofAnyArgs_alike (.refl _) atRet (r.instanceOf? "builtins.function" [] pos) pos)
      | _ => exact none_ .callableParameters trivial
    | ret :: third :: more, inOthers =>
      obtain ⟨ret', last, rfl, _, inLast⟩ := inOthers.cons_left
      obtain ⟨third', more', rfl, _, _⟩ := inLast.cons_left
      cases Ty.alikeForm_of_alike atFirst <;> exact none_ .callableUsage trivial

include follows scopes

theorem callableForm_agree {ref : Reference} {args : List Ty} (alike : Alike exact (List.map Ty.unexplained) ref.args args)
    (level : Nesting) :
    c.Agree exact Ty.unexplained s s' (r.callableForm again ref level)
      ((r.withPolicy policy).callableForm again' (ref.withArgs args) level) := by
  have form := formSignature?_reported pact alike
  rw [callableForm_eq, callableForm_eq]
  refine .reportThen form.told fun inner weaker => ?_
  have signatures := form.result.mono weaker
  dsimp only at signatures
  cases made : r.formSignature? ref with
  | none =>
    rw [made] at signatures
    rw [signatures.none_left]
    exact .pure (.refl _)
  | some signature =>
    rw [made] at signatures
    obtain ⟨signature', made', agree⟩ := signatures.some_left
    rw [made']
    have callables : Alike inner Ty.unexplained (.callable signature) (.callable signature') :=
      ⟨agree.shown, fun holds => by rw [agree.same holds]⟩
    exact signature_agree follows (scopes.mono fun holds => (weaker holds).1) callables level level.deeper

end Callables

end Resolver

end TypeResolution
