import TypeResolution.Proofs.ReferenceRun
import TypeResolution.Proofs.Steady

namespace TypeResolution

open Resolve

/-- The recursive calls depend on the scope alone. -/
class Recursion.Steady (again : Recursion) : Prop where
  expr (t : Ty) (level : Nesting) : Resolve.Steady (again.expr t level)
  literalName (ref : Reference) (level : Nesting) : Resolve.Steady (again.literalName ref level)
  literals (index : Nat) (t : Ty) (pos : Position) (level : Nesting) : Resolve.Steady (again.literals index t pos level)

attribute [instance] Recursion.Steady.expr Recursion.Steady.literalName Recursion.Steady.literals

namespace Resolver

variable {r : Resolver} {again : Recursion} [again.Steady]

instance steady_arg (t : Ty) (level : Nesting) : Steady (again.arg t level) := by
  unfold Recursion.arg
  infer_instance

instance steady_args (ts : List Ty) (level : Nesting) : Steady (again.args ts level) := by
  unfold Recursion.args
  infer_instance

instance steady_fields (fields : List (String × Ty)) (level : Nesting) : Steady (again.fields fields level) := by
  unfold Recursion.fields
  infer_instance

instance steady_omittedArguments (ref : Reference) : Steady (r.omittedArguments ref) := by
  unfold omittedArguments
  infer_instance

instance steady_requiredInstance (fullname : String) (pos : Position) : Steady (r.requiredInstance fullname pos) := by
  unfold requiredInstance
  split <;> infer_instance

instance steady_fixArity (i : Instance) (fromAlias : Bool) (written : Option String) :
    Steady (r.fixArity i fromAlias written) := by
  unfold fixArity
  split <;> infer_instance

theorem literalOf_eq (r : Resolver) (value : LiteralValue) (className : String) (pos : Position) :
    r.literalOf value className pos = r.requiredInstance (r.stringClass className) pos >>= fun found =>
      pure (found.map fun fallback => [.literal ⟨value, fallback, pos⟩]) := by
  unfold literalOf
  congr 1
  funext found
  cases found <;> rfl

instance steady_literalOf (value : LiteralValue) (className : String) (pos : Position) :
    Steady (r.literalOf value className pos) := by
  rw [literalOf_eq]
  infer_instance

instance steady_noLiteral (pos : Position) (problem : Problem) : Steady (noLiteral pos problem) := by
  unfold noLiteral
  infer_instance

instance steady_literalsOf (index : Nat) (t : Ty) (pos : Position) (level : Nesting) :
    Steady (r.literalsOf again index t pos level) := by
  unfold literalsOf
  split <;> infer_instance

instance steady_literals (index : Nat) (t : Ty) (pos : Position) (level : Nesting) :
    Steady (r.literals again index t pos level) := by
  unfold literals
  split
  · split <;> infer_instance
  · infer_instance

theorem literalForm_eq (r : Resolver) (again : Recursion) (ref : Reference) (level : Nesting) :
    r.literalForm again ref level =
      if ref.args.isEmpty then failAt ref.pos .emptyLiteral
      else collectWhile (fun (t, index) => r.literals again index t ref.pos level) (ref.args.zipIdx 1) >>= fun found =>
        pure ((found.map fun found => .makeUnion found ref.pos).getD (.anyAt .error ref.pos)) := by
  unfold literalForm
  dsimp only
  congr 2
  funext found
  cases found <;> rfl

instance steady_literalForm (ref : Reference) (level : Nesting) : Steady (r.literalForm again ref level) := by
  rw [literalForm_eq]
  split <;> infer_instance

instance steady_typeVarBinding (binding : TypeVarBinding) (level : Nesting) : Steady (typeVarBinding again binding level) := by
  unfold typeVarBinding
  infer_instance

instance steady_signatureParts (s : Signature) (bindings : List TypeVarBinding) (level inner : Nesting) :
    Steady (r.signatureParts again s bindings level inner) := by
  unfold signatureParts
  infer_instance

/-- What is reported of the variables of a signature where it stands. -/
def innerReports (r : Resolver) (s : Scope) (signature : Signature) : List Diagnostic :=
  if r.flags.definingAlias then [] else (s.functionFrame.bindSignature r.table signature).reports

/-- A signature is resolved in its own scope, with its own variables. -/
theorem signature_within (r : Resolver) (again : Recursion) (s : Signature) (level inner : Nesting) :
    r.signature again s level inner = (do
      let outer ← scope
      reportAll (r.innerReports outer s)
      within (r.innerScope outer s) (r.signatureParts again s (r.innerBindings outer s) level inner)) := by
  rw [signature_eq]
  funext p
  have closed (m : Resolve Ty) (q : Progress) :
      ((m q).bind fun ran => some (ran.1, { ran.2 with scope := p.scope })) =
        (m q).map fun ran => (ran.1, { ran.2 with scope := p.scope }) := by
    cases m q <;> rfl
  cases using_ : r.flags.definingAlias with
  | false =>
    simp only [innerReports, innerScope, innerBindings, using_]
    exact closed (r.signatureParts again s (p.scope.functionFrame.bindSignature r.table s).bindings level inner) { p with
      scope := (p.scope.functionFrame.bindSignature r.table s).scope
      reports := p.reports ++ (p.scope.functionFrame.bindSignature r.table s).reports }
  | true =>
    simp only [innerReports, innerScope, innerBindings, using_]
    refine (closed (r.signatureParts again s s.bindings level inner) { p with scope := p.scope.functionFrame }).trans ?_
    conv_lhs => rw [← List.append_nil p.reports]
    rfl

instance steady_signature (s : Signature) (level inner : Nesting) : Steady (r.signature again s level inner) := by
  rw [signature_within]
  infer_instance

/-- What is reported of the arguments of `Callable`. -/
def formReports (r : Resolver) (ref : Reference) : List Diagnostic :=
  match ref.args with
  | [] => (omittedAny r.disallowsOmitted ref.pos none ref.name).2
  | [.bracketed items pos, _] => (Parameter.ofItems r.table items pos).2
  | [.ellipsis _, _] => []
  | [_, _] => [⟨ref.pos, .callableParameters⟩]
  | _ => [⟨ref.pos, .callableUsage⟩]

/-- What follows in `Callable` when it is known which signature its arguments stand for. -/
def formResult (r : Resolver) (again : Recursion) (ref : Reference) (level : Nesting) : Option Signature → Resolve Ty
  | some signature => r.signature again signature level level.deeper
  | none => pure (.anyAt .error ref.pos)

theorem callableForm_eq (r : Resolver) (again : Recursion) (ref : Reference) (level : Nesting) :
    r.callableForm again ref level =
      reportAll (r.formReports ref) >>= fun _ => r.formResult again ref level (r.formSignature? ref) := by
  unfold callableForm formReports formSignature?
  split
  · rename_i atArgs
    rw [atArgs]
    rfl
  · rename_i items pos ret atArgs
    rw [atArgs]
    dsimp only
    cases (Parameter.ofItems r.table items pos).1 <;> rfl
  · rename_i pos ret atArgs
    rw [atArgs]
    exact (reportAll_nil_bind _).symm
  · rename_i first ret notList notDots atArgs
    cases first with
    | bracketed items pos => exact (notList items pos rfl).elim
    | ellipsis pos => exact (notDots pos rfl).elim
    | _ =>
      rw [atArgs]
      rfl
  · rename_i notEmpty _ _ notPair
    match atArgs : ref.args with
    | [] => exact (notEmpty atArgs).elim
    | [first, ret] => exact (notPair first ret atArgs).elim
    | [first] | first :: _ :: _ :: _ => cases first <;> rfl

instance steady_formResult (ref : Reference) (level : Nesting) (signature : Option Signature) :
    Steady (r.formResult again ref level signature) := by
  unfold formResult
  split <;> infer_instance

instance steady_callableForm (ref : Reference) (level : Nesting) : Steady (r.callableForm again ref level) := by
  rw [callableForm_eq]
  infer_instance

instance steady_tupleForm (ref : Reference) (level : Nesting) : Steady (r.tupleForm again ref level) := by
  unfold tupleForm
  split
  · split <;> infer_instance
  · split <;> infer_instance

instance steady_classObjectForm (ref : Reference) (level : Nesting) : Steady (r.classObjectForm again ref level) := by
  unfold classObjectForm
  split
  · infer_instance
  · split <;> infer_instance

instance steady_classVarArgument (ref : Reference) (level : Nesting) : Steady (classVarArgument again ref level) := by
  unfold classVarArgument
  split <;> infer_instance

instance steady_classVarForm (ref : Reference) (level : Nesting) : Steady (classVarForm again ref level) := by
  rw [classVarForm_eq]
  infer_instance

instance steady_specialForm (form : SpecialForm) (ref : Reference) (level : Nesting) :
    Steady (r.specialForm again form ref level) := by
  unfold specialForm
  split <;> first | infer_instance | (split <;> infer_instance)

/-- What follows in a class when it is known which instance it is. -/
def classBase (again : Recursion) (decl : ClassDecl) (args : List Ty) (pos : Position) (level : Nesting) (i : Instance) :
    Resolve Ty :=
  match decl.tupleBase, decl.recordBase with
  | some base, _ =>
    if !args.isEmpty then failAt pos .genericTuple
    else do
      let items ← again.args base.items level
      pure (.tuple ⟨items, i, base.implicit, pos⟩)
  | none, some base =>
    if !args.isEmpty then failAt pos .genericRecord
    else do
      let fields ← again.fields base.fields level
      pure (.record ⟨fields, base.required, i, pos⟩)
  | none, none => pure (.inst i)

theorem classInstance_eq (r : Resolver) (again : Recursion) (decl : ClassDecl) (args : List Ty) (pos : Position)
    (level : Nesting) :
    r.classInstance again decl args pos level = (do
      let resolved ← again.args args level
      let i ← r.fixArity (.of decl.head resolved pos) false none
      classBase again decl args pos level i) := rfl

instance steady_classBase (decl : ClassDecl) (args : List Ty) (pos : Position) (level : Nesting) (i : Instance) :
    Steady (classBase again decl args pos level i) := by
  unfold classBase
  split
  · split <;> infer_instance
  · split <;> infer_instance
  · infer_instance

instance steady_classType (decl : ClassDecl) (args : List Ty) (pos : Position) (level : Nesting) :
    Steady (r.classType again decl args pos level) := by
  rw [classType_eq]
  split
  · infer_instance
  · rw [classInstance_eq]
    infer_instance

instance steady_aliasResult (written : String) (t : Ty) : Steady (r.aliasResult written t) := by
  unfold aliasResult
  split <;> infer_instance

instance steady_aliasType (decl : AliasDecl) (fullname : String) (ref : Reference) (level : Nesting) :
    Steady (r.aliasType again decl fullname ref level) := by
  rw [aliasType_eq]
  infer_instance

instance steady_pendingType (decl : PendingDecl) (ref : Reference) (level : Nesting) :
    Steady (r.pendingType again decl ref level) := by
  unfold pendingType
  split
  · infer_instance
  · split <;> infer_instance

instance steady_noType (ref : Reference) (level : Nesting) (problem : Problem) (notes : List Problem) :
    Steady (noType again ref level problem notes) := by
  unfold noType
  infer_instance

instance steady_variableType (decl : VariableDecl) (fullname : String) (ref : Reference) (level : Nesting)
    (inLiteral : Bool) : Steady (variableType again decl fullname ref level inLiteral) := by
  unfold variableType
  split
  · infer_instance
  · split <;> infer_instance
  · infer_instance

/-- What follows in a reference to a type variable when it is known how it is bound. -/
def variableFound (r : Resolver) (again : Recursion) (fullname : String) (ref : Reference) (level : Nesting) :
    Option TypeVarBinding → Resolve Ty
  | some binding =>
    if r.flags.definingAlias then failAt ref.pos (.boundVariableInAlias ref.name)
    else do
      if ref.args.isEmpty then pure () else report ref.pos (.variableWithArguments ref.name)
      pure (.typeVar binding ref.pos)
  | none =>
    if r.flags.allowUnboundVariables || r.flags.definingAlias then pure (.named ref)
    else noType again ref level (.unboundVariable fullname)
      [.classBindingHint (shortName fullname), .functionBindingHint (shortName fullname)]

theorem typeVarType_eq (r : Resolver) (again : Recursion) (fullname : String) (ref : Reference) (level : Nesting) :
    r.typeVarType again fullname ref level =
      scope >>= fun s => r.variableFound again fullname ref level (s.find? fullname) := by
  unfold typeVarType
  congr 1
  funext s
  cases s.find? fullname with
  | none => rfl
  | some binding =>
    unfold variableFound
    cases ref.args.isEmpty <;> rfl

instance steady_variableFound (fullname : String) (ref : Reference) (level : Nesting) (found : Option TypeVarBinding) :
    Steady (r.variableFound again fullname ref level found) := by
  cases found with
  | none =>
    unfold variableFound
    infer_instance
  | some binding =>
    unfold variableFound
    infer_instance

instance steady_typeVarType (fullname : String) (ref : Reference) (level : Nesting) :
    Steady (r.typeVarType again fullname ref level) := by
  rw [typeVarType_eq]
  infer_instance

instance steady_definedType (d : Definition) (fullname : String) (ref : Reference) (level : Nesting)
    (inLiteral : Bool) : Steady (r.definedType again d fullname ref level inLiteral) := by
  unfold definedType
  split <;> infer_instance

instance steady_script (script : HookScript) : Steady (script.run r again) := by
  induction script with
  | done t => exact steady_pure t
  | fail pos message next ih =>
    unfold HookScript.run
    infer_instance
  | resolve t next ih =>
    unfold HookScript.run
    exact steady_bind _ _
  | instanceOf fullname args next ih => exact ih _
  | parameters items pos next ih =>
    unfold HookScript.run
    exact steady_bind _ _

/-- What is reported of arguments where none are allowed under this name. -/
def subscriptReports (r : Resolver) (fullname : String) (ref : Reference) : List Diagnostic :=
  if (builtinReplacement? fullname).isSome && !ref.args.isEmpty && !r.flags.allowUnnormalized then
    [⟨ref.pos, subscriptProblem fullname !r.flags.definingAlias⟩]
  else []

/-- What follows in a reference to a symbol without a hook: a special form, or else the definition. -/
def formOrDefined (r : Resolver) (again : Recursion) (d : Definition) (fullname : String) (ref : Reference) (level : Nesting)
    (inLiteral : Bool) (s : Scope) : Resolve Ty :=
  match SpecialForm.ofName? fullname, bindsTypeVar d s fullname with
  | some form, false => r.specialForm again form ref level
  | _, _ => r.definedType again d fullname ref level inLiteral

omit [again.Steady] in
theorem unhooked (noHooks : r.hooks = .empty) (fullname : String) : r.hooks.find? fullname = none := by
  rw [noHooks]
  rfl

omit [again.Steady] in
/-- A symbol without a hook is a special form or what it is defined as. -/
theorem symbolType_formOrDefined {fullname : String} (noHook : r.hooks.find? fullname = none) (d : Definition)
    (ref : Reference) (level : Nesting) (inLiteral : Bool) :
    r.symbolType again d fullname ref level inLiteral =
      ((if (builtinReplacement? fullname).isSome && !ref.args.isEmpty && !r.flags.allowUnnormalized then
          report ref.pos (subscriptProblem fullname !r.flags.definingAlias)
        else pure ()) >>= fun _ => scope >>= fun s => r.formOrDefined again d fullname ref level inLiteral s) := by
  unfold symbolType
  rw [noHook]
  dsimp only
  split <;> rfl

instance steady_formOrDefined (d : Definition) (fullname : String) (ref : Reference) (level : Nesting) (inLiteral : Bool)
    (s : Scope) : Steady (r.formOrDefined again d fullname ref level inLiteral s) := by
  unfold formOrDefined
  split <;> infer_instance

instance steady_symbolType (d : Definition) (fullname : String) (ref : Reference) (level : Nesting)
    (inLiteral : Bool) : Steady (r.symbolType again d fullname ref level inLiteral) := by
  have next (s : Scope) : Steady (match SpecialForm.ofName? fullname, bindsTypeVar d s fullname with
      | some form, false => r.specialForm again form ref level
      | _, _ => r.definedType again d fullname ref level inLiteral : Resolve Ty) :=
    steady_formOrDefined d fullname ref level inLiteral s
  unfold symbolType
  split
  · infer_instance
  · split
    · exact steady_bind _ _
    · exact steady_bind _ _

instance steady_plainReference (ref : Reference) (level : Nesting) (inLiteral : Bool) :
    Steady (r.plainReference again ref level inLiteral) := by
  unfold plainReference
  split
  · infer_instance
  · split <;> infer_instance

instance steady_reference (ref : Reference) (level : Nesting) (inLiteral : Bool) :
    Steady (r.reference again ref level inLiteral) := by
  unfold reference
  infer_instance

instance steady_tupleType (shape : TupleShape) (level : Nesting) : Steady (r.tupleType again shape level) := by
  unfold tupleType
  split
  · infer_instance
  · split
    · split <;> infer_instance
    · infer_instance

instance steady_scalarType (value : Option LiteralValue) (className : String) (note : Option String) (pos : Position) :
    Steady (r.scalarType value className note pos) := by
  unfold scalarType
  split <;> infer_instance

instance steady_forwardType (fullname : Option String) (args : List Ty) (pos : Position) (level : Nesting) :
    Steady (r.forwardType again fullname args pos level) := by
  unfold forwardType
  split
  · infer_instance
  · split <;> infer_instance
  · split <;> infer_instance
  · infer_instance

instance steady_expr (t : Ty) (level : Nesting) : Steady (r.expr again t level) := by
  unfold expr
  split
  · infer_instance
  · split <;> infer_instance

instance steady_recursion (bound : Nat) : (r.recursion bound).Steady := by
  induction bound with
  | zero => exact ⟨fun _ _ => steady_stuck, fun _ _ => steady_stuck, fun _ _ _ _ => steady_stuck⟩
  | succ bound ih =>
    exact ⟨fun t level => inferInstanceAs (Steady (r.expr (r.recursion bound) t level)),
      fun ref level => inferInstanceAs (Steady (r.reference (r.recursion bound) ref level true)),
      fun index t pos level => inferInstanceAs (Steady (r.literals (r.recursion bound) index t pos level))⟩

end Resolver

end TypeResolution
