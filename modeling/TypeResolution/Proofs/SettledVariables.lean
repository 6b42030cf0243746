import TypeResolution.Proofs.NestingLimit

namespace TypeResolution

namespace Resolve

variable {α β : Type} {s : Scope}

/-- What a step makes in a scope, its reports left out. -/
def outcome (m : Resolve α) (s : Scope) : Option (α × Progress) :=
  (m (.start s)).map fun made => (made.1, { made.2 with reports := [] })

theorem outcome_bind (m : Resolve α) (f : α → Resolve β) [Steady m] [∀ a, Steady (f a)] :
    outcome (m >>= f) s =
      (outcome m s).bind fun made => (outcome (f made.1) s).map fun last => (last.1, made.2.join last.2) := by
  unfold outcome
  rw [run_bind]
  cases m (.start s) with
  | none => rfl
  | some made => cases atNext : f made.1 (.start s) <;> simp [atNext, Progress.join]

/-- Steps with the same outcome in a scope. -/
def Sameness.silent (s : Scope) : Sameness where
  same m m' := outcome m s = outcome m' s
  refl _ := rfl
  bind first next := by simp only [outcome_bind, first, next]

theorem outcome_reportAll (reports : List Diagnostic) (m : Resolve α) [steady : Steady m] :
    outcome (reportAll reports >>= fun _ => m) s = outcome m s := by
  have ran : (reportAll reports >>= fun _ => m) (.start s) = m { Progress.start s with reports := reports } := rfl
  unfold outcome
  rw [ran, steady.alone, steady.alone (.start s), Option.map_map, Option.map_map]
  rfl

theorem outcome_report (pos : Position) (problem : Problem) (m : Resolve α) [Steady m] :
    outcome (report pos problem >>= fun _ => m) s = outcome m s :=
  outcome_reportAll [⟨pos, problem⟩] m

/-- A report that is made only under a condition is left out as well. -/
theorem outcome_reportIf (c : Prop) [Decidable c] (pos : Position) (problem : Problem) (m : Resolve α) [Steady m] :
    outcome ((if c then report pos problem else pure ()) >>= fun _ => m) s = outcome m s := by
  split
  · exact outcome_report pos problem m
  · rfl

theorem outcome_scope (f : Scope → Resolve α) : outcome (scope >>= f) s = outcome (f s) s := rfl

theorem outcome_within {m m' : Resolve α} {inner : Scope} (same : outcome m inner = outcome m' inner) :
    outcome (within inner m) s = outcome (within inner m') s := by
  have ran (m : Resolve α) : outcome (within inner m) s =
      (outcome m inner).map fun made => (made.1, { made.2 with scope := s }) := by
    simp only [outcome, within, Option.map_map]
    rfl
  rw [ran, ran, same]

end Resolve

open Resolve

namespace Resolver

variable {r : Resolver} {s : Scope}

/-- What the scope binds a name to that stands for a type variable. -/
def boundVariable? (r : Resolver) (s : Scope) (ref : Reference) : Option TypeVarBinding :=
  (r.table.lookup ref.name).bind fun symbol =>
    match symbol.definition with
    | some (.typeVarDef _) => s.find? symbol.fullname
    | _ => none

theorem boundVariable?_eq_some_iff {ref : Reference} {binding : TypeVarBinding} :
    r.boundVariable? s ref = some binding ↔ ∃ symbol decl, r.table.lookup ref.name = some symbol ∧
      symbol.definition = some (.typeVarDef decl) ∧ s.find? symbol.fullname = some binding := by
  constructor
  · intro bound
    obtain ⟨symbol, found, atSymbol⟩ := Option.bind_eq_some_iff.1 bound
    split at atSymbol
    · rename_i decl defined
      exact ⟨symbol, decl, found, defined, atSymbol⟩
    · cases atSymbol
  · rintro ⟨symbol, decl, found, defined, atSymbol⟩
    simp [boundVariable?, found, defined, atSymbol]

/-- The binding of the variable that a type is a reference to. One with the suffix `?` is the variable or `None`. -/
def variableOf? (r : Resolver) (s : Scope) : Ty → Option TypeVarBinding
  | .named ref => if ref.optional then none else r.boundVariable? s ref
  | _ => none

/-- The parts of a type are resolved in its own scope, and none is left as it is written. Those of `Callable` stand in
another scope, and those of `Literal` are values. -/
def resolvesParts (r : Resolver) : Ty → Bool
  | .named ref => !r.isLiteralForm ref && !(r.table.lookup ref.name).any Symbol.isCallableForm &&
      ((r.table.lookupTypeVar? ref.name).isNone || !r.flags.allowUnboundVariables)
  | .forward fullname _ _ => (fullname.bind r.table.findClass?).isSome
  | t => t.opensInPlace

/-- The type with the type variables put in for the references to them that are resolved in the scope. -/
def settled (r : Resolver) (s : Scope) : Ty → Ty :=
  Ty.fold fun t parts =>
    match r.variableOf? s t with
    | some binding => .typeVar binding t.pos
    | none => if r.resolvesParts t then t.withChildren parts else t

theorem settled_eq (r : Resolver) (s : Scope) (t : Ty) :
    r.settled s t =
      match r.variableOf? s t with
      | some binding => .typeVar binding t.pos
      | none => if r.resolvesParts t then t.withChildren (t.children.map (r.settled s)) else t := by
  unfold settled
  rw [Ty.fold_eq]

theorem settled_variable {ref : Reference} (plain : ref.optional = false) {binding : TypeVarBinding}
    (bound : r.boundVariable? s ref = some binding) : r.settled s (.named ref) = .typeVar binding ref.pos := by
  rw [settled_eq]
  simp [variableOf?, plain, bound, Ty.pos]

theorem settled_parts {t : Ty} (other : r.variableOf? s t = none) (opens : r.resolvesParts t) :
    r.settled s t = t.withChildren (t.children.map (r.settled s)) := by
  rw [settled_eq, other]
  exact if_pos opens

theorem settled_whole {t : Ty} (other : r.variableOf? s t = none) (closed : r.resolvesParts t = false) :
    r.settled s t = t := by
  rw [settled_eq, other]
  simp [closed]

theorem settled_pos (r : Resolver) (s : Scope) (t : Ty) : (r.settled s t).pos = t.pos := by
  rw [settled_eq]
  split
  · rfl
  · split
    · exact pos_withChildren _ _
    · rfl

/-- Only a reference to a variable changes its form. -/
theorem ctorIdx_settled {t : Ty} (other : r.variableOf? s t = none) : (r.settled s t).ctorIdx = t.ctorIdx := by
  rw [settled_eq, other]
  dsimp only
  split
  · cases t <;> rfl
  · rfl

theorem settled_ellipsis (r : Resolver) (s : Scope) (pos : Position) : r.settled s (.ellipsis pos) = .ellipsis pos :=
  settled_whole rfl rfl

theorem settled_eq_ellipsis_iff {t : Ty} {pos : Position} : r.settled s t = .ellipsis pos ↔ t = .ellipsis pos := by
  constructor
  · intro atSettled
    cases other : r.variableOf? s t with
    | some binding =>
      rw [settled_eq, other] at atSettled
      cases atSettled
    | none =>
      have sameForm := ctorIdx_settled other
      rw [atSettled] at sameForm
      cases t <;> first | exact (settled_ellipsis r s _).symm.trans atSettled | cases sameForm
  · rintro rfl
    exact settled_ellipsis r s pos

theorem isStar_settled (r : Resolver) (s : Scope) (t : Ty) : (r.settled s t).isStar = t.isStar := by
  cases t with
  | star item pos => rw [settled_parts rfl rfl]; rfl
  | named ref =>
    rw [settled_eq]
    split
    · rfl
    · split <;> rfl
  | _ =>
    rw [settled_eq]
    dsimp only [variableOf?]
    split <;> rfl

/-- A reference to a type variable is resolved to what the scope binds it to, and one with the suffix `?` to that or
`None`. -/
theorem reference_bound (noHooks : r.hooks = .empty) (using_ : r.flags.definingAlias = false) {ref : Reference}
    {binding : TypeVarBinding} (bound : r.boundVariable? s ref = some binding) (again : Recursion) [again.Steady]
    (level : Nesting) :
    outcome (r.reference again ref level false) s =
      outcome (pure (if ref.optional then (Ty.typeVar binding ref.pos).makeOptional else .typeVar binding ref.pos)) s := by
  obtain ⟨symbol, decl, found, defined, atName⟩ := boundVariable?_eq_some_iff.1 bound
  have asVariable : outcome (r.typeVarType again symbol.fullname ref level) s = outcome (pure (.typeVar binding ref.pos)) s := by
    rw [typeVarType_eq, outcome_scope, atName, variableFound, using_]
    simp only [Bool.false_eq_true, if_false]
    split
    · rfl
    · exact outcome_report _ _ _
  have hides : bindsTypeVar (.typeVarDef decl) s symbol.fullname = true := by simp [bindsTypeVar, atName]
  have inScope : outcome (r.formOrDefined again (.typeVarDef decl) symbol.fullname ref level false s) s =
      outcome (pure (.typeVar binding ref.pos)) s := by
    unfold formOrDefined
    rw [hides]
    cases SpecialForm.ofName? symbol.fullname <;> exact asVariable
  have plain : outcome (r.plainReference again ref level false) s = outcome (pure (.typeVar binding ref.pos)) s := by
    unfold plainReference
    simp only [found, defined]
    rw [symbolType_formOrDefined (unhooked noHooks _), outcome_reportIf]
    exact inScope
  exact Sameness.andThen (c := .silent s) plain fun t => pure (if ref.optional then t.makeOptional else t)

section Forms

variable {again : Recursion} [again.Steady]
  (settles : ∀ t level, (Sameness.silent s).same (again.expr (r.settled s t) level) (again.expr t level))

include settles

theorem exprs_settled (ts : List Ty) (level : Nesting) :
    (Sameness.silent s).same ((ts.map (r.settled s)).mapM (again.expr · level)) (ts.mapM (again.expr · level)) :=
  Sameness.mapM_map (settles · level) ts

omit [again.Steady] in
theorem arg_settled (level : Nesting) (t : Ty) :
    (Sameness.silent s).same (again.arg (r.settled s t) level) (again.arg t level) :=
  settles t level.deeper

/-- The arguments of a reference to a type variable are read only to be reported, or if the variable is not bound. -/
theorem typeVarType_settled (enters : r.flags.allowUnboundVariables = false) (using_ : r.flags.definingAlias = false)
    (fullname : String) (ref : Reference) (level : Nesting) :
    (Sameness.silent s).same (r.typeVarType again fullname (ref.mapArgs (r.settled s)) level)
      (r.typeVarType again fullname ref level) := by
  have sameEmpty : (ref.mapArgs (r.settled s)).args.isEmpty = ref.args.isEmpty := List.isEmpty_map
  rw [typeVarType_eq, typeVarType_eq]
  refine Sameness.after scope fun inner => ?_
  cases inner.find? fullname with
  | some binding =>
    unfold variableFound
    rw [sameEmpty]
    exact (Sameness.silent s).refl _
  | none =>
    simp only [variableFound, enters, using_]
    exact noType_changed (arg_settled settles level) ref _ _

theorem symbolType_settled (noHooks : r.hooks = .empty) (using_ : r.flags.definingAlias = false) {ref : Reference}
    (opens : r.resolvesParts (.named ref)) {symbol : Symbol} {d : Definition}
    (found : r.table.lookup ref.name = some symbol) (defined : symbol.definition = some d)
    (notPending : symbol.isPending = false) (level : Nesting) (inLiteral : Bool) :
    (Sameness.silent s).same (r.symbolType again d symbol.fullname (ref.mapArgs (r.settled s)) level inLiteral)
      (r.symbolType again d symbol.fullname ref level inLiteral) := by
  obtain ⟨⟨notLiteral, notForm⟩, enters⟩ := by
    simpa only [resolvesParts, Bool.and_eq_true, Bool.not_eq_true', Bool.or_eq_true] using opens
  refine symbolType_changed (unhooked noHooks _) (fun form isForm => ?_) ?_
  · refine specialForm_changed (arg_settled settles level) (fun _ _ => settled_eq_ellipsis_iff)
      (fun _ => (Sameness.silent s).refl _) ref ?_ ?_
    · rintro rfl
      simp [found, Symbol.isCallableForm, notPending, isForm] at notForm
    · rintro rfl
      rw [isLiteralForm_of_form found isForm] at notLiteral
      cases notLiteral
  · by_cases isVariable : ∃ decl, d = .typeVarDef decl
    · obtain ⟨decl, rfl⟩ := isVariable
      have known : r.table.lookupTypeVar? ref.name = some decl :=
        SymbolTable.lookupTypeVar?_eq_some_iff.2 ⟨symbol, found, defined⟩
      exact typeVarType_settled settles (by simpa [known] using enters) using_ symbol.fullname ref level
    · exact definedType_changed (arg_settled settles level) (fun _ => (Sameness.silent s).refl _) _ ref inLiteral
        fun decl same => absurd ⟨decl, same⟩ isVariable

/-- With the variables put in for the references to them, an expression is resolved to the same as without. -/
theorem expr_settled (noHooks : r.hooks = .empty) (using_ : r.flags.definingAlias = false) (t : Ty) (level : Nesting) :
    (Sameness.silent s).same (r.expr again (r.settled s t) level) (r.expr again t level) := by
  rw [expr_eq, expr_eq, settled_pos]
  split
  · exact (Sameness.silent s).refl _
  cases isVariable : r.variableOf? s t with
  | some binding =>
    cases t with
    | named ref =>
      have plain : ref.optional = false := by
        by_contra optional
        simp [variableOf?, optional] at isVariable
      have bound : r.boundVariable? s ref = some binding := by simpa [variableOf?, plain] using isVariable
      have resolved := reference_bound noHooks using_ bound again level
      rw [plain] at resolved
      rw [settled_variable plain bound]
      exact resolved.symm
    | _ => cases isVariable
  | none =>
    cases opens : r.resolvesParts t with
    | false =>
      rw [settled_whole isVariable opens]
      exact (Sameness.silent s).refl _
    | true =>
      rw [settled_parts isVariable opens]
      cases t with
      | named ref =>
        exact reference_changed (fun _ decl _ _ => pendingType_changed (arg_settled settles level) decl ref)
          fun symbol d found defined notPending =>
            symbolType_settled settles noHooks using_ opens found defined notPending level false
      | tuple | record | star | union | classObject =>
        exact form_changed (arg_settled settles level) (isStar_settled r s) rfl
      | forward fullname args pos => 
        exact forwardType_changed (arg_settled settles level) (fun _ => (Sameness.silent s).refl _) opens args pos
      | _ => cases opens

end Forms

/-- However deep the recursion goes, it makes no difference whether the references to bound variables are resolved one by
one, or the variables are put in for them beforehand. -/
theorem recursion_settled (noHooks : r.hooks = .empty) (using_ : r.flags.definingAlias = false) (bound : Nat) (t : Ty)
    (level : Nesting) :
    outcome ((r.recursion bound).expr (r.settled s t) level) s = outcome ((r.recursion bound).expr t level) s := by
  induction bound generalizing t level with
  | zero => rfl
  | succ bound ih => exact expr_settled ih noHooks using_ t level

/-- The signature with the variables that it binds put in for the references to them. -/
def settledSignature (r : Resolver) (s : Scope) (signature : Signature) : Signature :=
  { signature with
    args := signature.args.map (r.settled (r.innerScope s signature))
    ret := r.settled (r.innerScope s signature) signature.ret }

/-- A signature that declares its variables may have them put in for the references to them beforehand. -/
theorem signature_settled (noHooks : r.hooks = .empty) (using_ : r.flags.definingAlias = false) {signature : Signature}
    (declares : signature.bindings ≠ []) (s : Scope) (bound : Nat) (level inner : Nesting) :
    outcome (r.signature (r.recursion bound) (r.settledSignature s signature) level inner) s =
      outcome (r.signature (r.recursion bound) signature level inner) s := by
  have notEmpty : signature.bindings.isEmpty = false := by simpa using declares
  -- variables that were inferred from the uses would get lost with them
  have bindings : (r.settledSignature s signature).bindings = signature.bindings := rfl
  have sameBound : s.functionFrame.bindSignature r.table (r.settledSignature s signature) =
      s.functionFrame.bindSignature r.table signature := by
    simp only [Scope.bindSignature, bindings, notEmpty, Bool.false_eq_true, if_false]
  have sameScope : r.innerScope s (r.settledSignature s signature) = r.innerScope s signature := by
    simp only [innerScope, sameBound]
  have sameBindings : r.innerBindings s (r.settledSignature s signature) = r.innerBindings s signature := by
    simp only [innerBindings, sameBound, bindings]
  have sameParts : outcome (r.signatureParts (r.recursion bound) (r.settledSignature s signature)
      (r.innerBindings s signature) level inner) (r.innerScope s signature) =
      outcome (r.signatureParts (r.recursion bound) signature (r.innerBindings s signature) level inner)
        (r.innerScope s signature) := by
    unfold signatureParts
    refine (Sameness.silent _).bind (exprs_settled (recursion_settled noHooks using_ bound) signature.args inner) fun _ => ?_
    exact Sameness.andThen (recursion_settled noHooks using_ bound signature.ret inner) _
  rw [signature_within, signature_within, outcome_scope, outcome_scope, outcome_reportAll, outcome_reportAll, sameScope,
    sameBindings]
  exact outcome_within sameParts

end Resolver

end TypeResolution
