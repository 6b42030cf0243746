import TypeResolution.Proofs.InferredVariables
import TypeResolution.Proofs.QuietRuns
import TypeResolution.Proofs.ShiftedLevels

namespace TypeResolution

open Resolve

namespace Scope

/-- Two scopes answer the same questions, and the frames opened in them number variables alike. -/
structure LooksLike (s s' : Scope) : Prop where
  found (name : String) : s.find? name = s'.find? name
  allows (name : String) : s.allows name = s'.allows name
  functionIds : s.functionIds = s'.functionIds
  classIds : s.classIds = s'.classIds

/-- Two scopes that look alike are frames of the same kind. -/
structure Twins (s s' : Scope) : Prop extends LooksLike s s' where
  ofClass : s.isClass = s'.isClass

namespace LooksLike

variable {s s' s'' : Scope}

theorem refl (s : Scope) : s.LooksLike s := ⟨fun _ => rfl, fun _ => rfl, rfl, rfl⟩

theorem trans (first : s.LooksLike s') (next : s'.LooksLike s'') : s.LooksLike s'' :=
  ⟨fun name => (first.found name).trans (next.found name), fun name => (first.allows name).trans (next.allows name),
    first.functionIds.trans next.functionIds, first.classIds.trans next.classIds⟩

/-- As long as nothing is bound in it, the frame of a function looks like the scope around it. -/
theorem functionFrame (s : Scope) : s.LooksLike s.functionFrame where
  found name := (find?_functionFrame s name).symm
  allows name := by simp [Scope.functionFrame, openFrame, Scope.allows, NameMap.contains, NameMap.find?, NameMap.empty]
  functionIds := rfl
  classIds := rfl

theorem frames (alike : s.LooksLike s') : s.functionFrame.Twins s'.functionFrame where
  found name := by rw [find?_functionFrame, find?_functionFrame, alike.found]
  allows name := by rw [← (functionFrame s).allows, ← (functionFrame s').allows, alike.allows]
  functionIds := alike.functionIds
  classIds := alike.classIds
  ofClass := rfl

end LooksLike

namespace Twins

variable {s s' : Scope} (twins : s.Twins s')

include twins

theorem nextId : s.nextId = s'.nextId := by
  unfold Scope.nextId
  rw [twins.ofClass, twins.functionIds, twins.classIds]

theorem freshBinding (name : String) (decl : TypeVarDecl) : s.freshBinding name decl = s'.freshBinding name decl := by
  unfold Scope.freshBinding
  rw [twins.nextId]

theorem insert (name : String) (binding : TypeVarBinding) {f f' c c' : Int} (sameFunctions : f = f') (sameClasses : c = c') :
    (s.insert name binding f c).Twins (s'.insert name binding f' c') where
  found other := by rw [find?_insert, find?_insert, twins.found]
  allows other := by rw [allows_insert, allows_insert, twins.allows]
  functionIds := sameFunctions
  classIds := sameClasses
  ofClass := twins.ofClass

theorem bindNew (name : String) (decl : TypeVarDecl) : (s.bindNew name decl).Twins (s'.bindNew name decl) := by
  unfold Scope.bindNew
  rw [← twins.freshBinding]
  refine twins.insert _ _ ?_ ?_
  · rw [twins.ofClass, twins.functionIds, twins.nextId]
  · rw [twins.ofClass, twins.classIds, twins.nextId]

theorem bindDeclared (table : SymbolTable) (binding : TypeVarBinding) :
    (s.bindDeclared table binding).Twins (s'.bindDeclared table binding) := by
  unfold Scope.bindDeclared
  split
  · exact twins.bindNew _ _
  · exact twins.insert _ _ twins.functionIds twins.classIds

theorem foldl_bindDeclared (table : SymbolTable) (bindings : List TypeVarBinding) :
    (bindings.foldl (Scope.bindDeclared table) s).Twins (bindings.foldl (Scope.bindDeclared table) s') := by
  induction bindings generalizing s s' with
  | nil => exact twins
  | cons binding bindings ih => exact ih (twins.bindDeclared table binding)

/-- Twins are still twins when the same uses are bound in them, and the uses are bound alike. -/
theorem bindUses (table : SymbolTable) (pos : Position) (uses : List VariableUse) :
    (s.bindUses table pos uses).scope.Twins (s'.bindUses table pos uses).scope ∧
      (s.bindUses table pos uses).bindings = (s'.bindUses table pos uses).bindings ∧
      (s.bindUses table pos uses).reports = (s'.bindUses table pos uses).reports := by
  induction uses generalizing s s' with
  | nil => exact ⟨twins, rfl, rfl⟩
  | cons use uses ih =>
    obtain ⟨name, decl⟩ := use
    have sameName : s.bindsName table name = s'.bindsName table name := by
      unfold Scope.bindsName
      simp only [twins.found]
    cases bound : s.bindsName table name with
    | true =>
      simp only [Scope.bindUses, bound, ← sameName]
      exact ih twins
    | false =>
      obtain ⟨scope, bindings, reports⟩ := ih (twins.bindNew name decl)
      simp only [Scope.bindUses, bound, ← sameName, Bool.false_eq_true, if_false]
      exact ⟨scope, by rw [bindings, twins.freshBinding], by rw [reports, twins.allows]⟩

end Twins

end Scope

theorem VariableSearch.run_congr {s s' : Scope} (found : ∀ name, s.find? name = s'.find? name) (table : SymbolTable)
    (inside bound : Bool) (t : Ty) :
    (⟨table, s, inside, bound⟩ : VariableSearch).run t = (⟨table, s', inside, bound⟩ : VariableSearch).run t := by
  induction t using Ty.inductionOn with
  | step t ih =>
    have parts : t.children.map (⟨table, s, inside, bound⟩ : VariableSearch).run =
        t.children.map (⟨table, s', inside, bound⟩ : VariableSearch).run := List.map_congr_left ih
    have same (ref : Reference) : (⟨table, s, inside, bound⟩ : VariableSearch).found? ref =
        (⟨table, s', inside, bound⟩ : VariableSearch).found? ref := by
      simp only [VariableSearch.found?, found]
    rw [VariableSearch.run_eq, VariableSearch.run_eq, parts]
    cases t with
    | named ref =>
      dsimp only
      rw [same]
      rfl
    | _ => rfl

/-- Where a search that goes into callables finds nothing, neither does one that does not. -/
theorem VariableSearch.run_eq_nil {table : SymbolTable} {s : Scope} {bound : Bool} {t : Ty}
    (nothing : (⟨table, s, true, bound⟩ : VariableSearch).run t = []) (inside : Bool) :
    (⟨table, s, inside, bound⟩ : VariableSearch).run t = [] := by
  have noFirst {uses : List VariableUse} : firstOccurrences uses = [] ↔ uses = [] := by
    constructor
    · cases uses with
      | nil => exact fun _ => rfl
      | cons use uses =>
        intro empty
        have extends_ : [use] <+: firstOccurrences (use :: uses) := foldl_addDistinct_extends uses [use]
        rw [empty] at extends_
        exact absurd extends_ (by simp)
    · rintro rfl
      rfl
  induction t using Ty.inductionOn with
  | step t ih =>
    have below (nothing : firstOccurrences (t.children.map (⟨table, s, true, bound⟩ : VariableSearch).run).flatten = []) :
        firstOccurrences (t.children.map (⟨table, s, inside, bound⟩ : VariableSearch).run).flatten = [] := by
      rw [noFirst, List.flatten_eq_nil_iff, List.forall_mem_map] at nothing ⊢
      exact fun c member => ih c member (nothing c member)
    rw [run_eq] at nothing ⊢
    cases t with
    | named ref =>
      have sameFound : (⟨table, s, inside, bound⟩ : VariableSearch).found? ref =
          (⟨table, s, true, bound⟩ : VariableSearch).found? ref := rfl
      dsimp only at nothing ⊢
      rw [sameFound]
      split at nothing
      · cases nothing
      · split at nothing
        · split
          · exact below nothing
          · rfl
        · rename_i notEntered
          refine if_neg fun entered => notEntered ?_
          simp only [entersReference, Bool.and_eq_true] at entered ⊢
          exact ⟨Bool.true_or _, entered.2⟩
    | callable signature =>
      dsimp only
      split
      · exact below nothing
      · rfl
    | _ => exact below nothing

theorem inferTypeVariables_congr {s s' : Scope} (found : ∀ name, s.find? name = s'.find? name) (table : SymbolTable)
    (signature : Signature) : inferTypeVariables table s signature = inferTypeVariables table s' signature := by
  unfold inferTypeVariables VariableSearch.of
  simp only [VariableSearch.run_congr found]

namespace Scope

variable {s s' : Scope} (twins : s.Twins s')

include twins

/-- A signature binds the same variables in twins. -/
theorem Twins.bindSignature (table : SymbolTable) (signature : Signature) :
    (s.bindSignature table signature).scope.Twins (s'.bindSignature table signature).scope ∧
      (s.bindSignature table signature).bindings = (s'.bindSignature table signature).bindings ∧
      (s.bindSignature table signature).reports = (s'.bindSignature table signature).reports := by
  unfold Scope.bindSignature
  split
  · rw [inferTypeVariables_congr twins.found]
    exact twins.bindUses table signature.pos _
  · exact ⟨twins.foldl_bindDeclared table signature.bindings, rfl, rfl⟩

end Scope

namespace Resolve

variable {α β : Type}

/-- The run of `m'` in the scope `s'` does what that of `m` does in `s`. -/
def SameIn (s s' : Scope) (m m' : Resolve α) : Prop :=
  m' (.start s') = (m (.start s)).map fun made => (made.1, { made.2 with scope := s' })

/-- `m` does the same in scopes that look alike. -/
class Blind (m : Resolve α) : Prop where
  same {s s' : Scope} : s.LooksLike s' → SameIn s s' m m

theorem SameIn.bind {s s' : Scope} {m m' : Resolve α} {f f' : α → Resolve β} [Steady m] [Steady m'] [∀ a, Steady (f a)]
    [∀ a, Steady (f' a)] (first : SameIn s s' m m') (next : ∀ a, SameIn s s' (f a) (f' a)) :
    SameIn s s' (m >>= f) (m' >>= f') := by
  unfold SameIn at *
  rw [run_bind, run_bind, first, Option.bind_map, Option.map_bind]
  refine Option.bind_congr fun made _ => ?_
  simp only [Function.comp_apply, next made.1, Option.bind_map, Option.map_bind, Option.map_some]
  rfl

theorem SameIn.within {s s' i i' : Scope} {m m' : Resolve α} (inside : SameIn i i' m m') :
    SameIn s s' (within i m) (Resolve.within i' m') := by
  change (m' (.start i')).map _ = ((m (.start i)).map _).map _
  rw [inside, Option.map_map, Option.map_map]
  rfl

/-- A step that tells nothing of the scope but adds to the record. -/
theorem Blind.of_adds {m : Resolve α} (a : α) (status : PassStatus) (aliases : List String) (reports : List Diagnostic)
    (adds : ∀ s, m (.start s) = some (a, ⟨s, status, aliases, reports⟩)) : Blind m where
  same _ := by
    rw [SameIn, adds, adds]
    rfl

instance blind_pure (a : α) : Blind (Pure.pure a) := .of_adds a .complete [] [] fun _ => rfl

instance blind_stuck : Blind (fun _ => none : Resolve α) := ⟨fun _ => rfl⟩

instance blind_reportAll (reports : List Diagnostic) : Blind (reportAll reports) :=
  .of_adds () .complete [] reports fun _ => rfl

instance blind_report (pos : Position) (problem : Problem) : Blind (report pos problem) := blind_reportAll _

instance blind_raise (status : PassStatus) : Blind (raise status) :=
  .of_adds () (PassStatus.complete.merge status) [] [] fun _ => rfl

instance blind_useAliases (names : List String) : Blind (useAliases names) :=
  .of_adds () .complete (names.foldl addDistinct []) [] fun _ => rfl

instance blind_bind (m : Resolve α) (f : α → Resolve β) [Steady m] [∀ a, Steady (f a)] [first : Blind m]
    [next : ∀ a, Blind (f a)] : Blind (m >>= f) where
  same alike := (first.same alike).bind fun a => (next a).same alike

instance blind_ite (c : Prop) [Decidable c] (m m' : Resolve α) [Blind m] [Blind m'] : Blind (if c then m else m') := by
  split <;> infer_instance

instance blind_failAt (pos : Position) (problem : Problem) : Blind (failAt pos problem) := blind_bind _ _

instance blind_mapM (f : α → Resolve β) (xs : List α) [∀ x, Steady (f x)] [∀ x, Blind (f x)] : Blind (xs.mapM f) := by
  induction xs with
  | nil => exact blind_pure []
  | cons x xs ih =>
    rw [List.mapM_cons]
    infer_instance

instance blind_collectMore (more : Resolve (Option (List β))) [Steady more] [Blind more] (found : Option (List β)) :
    Blind (collectMore more found) := by
  cases found with
  | none => exact blind_pure none
  | some found => exact blind_bind _ _

instance blind_collectWhile (f : α → Resolve (Option (List β))) (xs : List α) [∀ x, Steady (f x)] [∀ x, Blind (f x)] :
    Blind (collectWhile f xs) := by
  induction xs with
  | nil => exact blind_pure _
  | cons x xs ih =>
    rw [collectWhile_cons]
    infer_instance

/-- What is told of the scope in the first place is what scopes that look alike have in common. -/
theorem blind_scopeThen {f : Scope → Resolve β} [∀ s, Blind (f s)]
    (same : ∀ {s s' : Scope}, s.LooksLike s' → f s = f s') : Blind (scope >>= f) where
  same {s s'} alike := by
    change f s' (.start s') = (f s (.start s)).map _
    rw [← same alike]
    exact Blind.same alike

end Resolve

/-- The recursive calls do the same in scopes that look alike. -/
class Recursion.Blind (again : Recursion) : Prop where
  expr (t : Ty) (level : Nesting) : Resolve.Blind (again.expr t level)
  literalName (ref : Reference) (level : Nesting) : Resolve.Blind (again.literalName ref level)
  literals (index : Nat) (t : Ty) (pos : Position) (level : Nesting) : Resolve.Blind (again.literals index t pos level)

attribute [instance] Recursion.Blind.expr Recursion.Blind.literalName Recursion.Blind.literals

namespace Resolver

variable {r : Resolver} {again : Recursion} [again.Steady] [again.Blind]

instance blind_arg (t : Ty) (level : Nesting) : Blind (again.arg t level) := by
  unfold Recursion.arg
  infer_instance

instance blind_args (ts : List Ty) (level : Nesting) : Blind (again.args ts level) := by
  unfold Recursion.args
  infer_instance

instance blind_fields (fields : List (String × Ty)) (level : Nesting) : Blind (again.fields fields level) := by
  unfold Recursion.fields
  infer_instance

instance blind_omittedArguments (ref : Reference) : Blind (r.omittedArguments ref) := by
  unfold omittedArguments
  infer_instance

instance blind_requiredInstance (fullname : String) (pos : Position) : Blind (r.requiredInstance fullname pos) := by
  unfold requiredInstance
  split <;> infer_instance

instance blind_fixArity (i : Instance) (fromAlias : Bool) (written : Option String) :
    Blind (r.fixArity i fromAlias written) := by
  unfold fixArity
  split <;> infer_instance

instance blind_literalOf (value : LiteralValue) (className : String) (pos : Position) :
    Blind (r.literalOf value className pos) := by
  rw [literalOf_eq]
  infer_instance

instance blind_noLiteral (pos : Position) (problem : Problem) : Blind (noLiteral pos problem) := by
  unfold noLiteral
  infer_instance

instance blind_literalsOf (index : Nat) (t : Ty) (pos : Position) (level : Nesting) :
    Blind (r.literalsOf again index t pos level) := by
  unfold literalsOf
  split <;> infer_instance

instance blind_literals (index : Nat) (t : Ty) (pos : Position) (level : Nesting) :
    Blind (r.literals again index t pos level) := by
  unfold literals
  split
  · split <;> infer_instance
  · infer_instance

instance blind_literalForm (ref : Reference) (level : Nesting) : Blind (r.literalForm again ref level) := by
  rw [literalForm_eq]
  split <;> infer_instance

instance blind_typeVarBinding (binding : TypeVarBinding) (level : Nesting) : Blind (typeVarBinding again binding level) := by
  unfold typeVarBinding
  infer_instance

instance blind_signatureParts (s : Signature) (bindings : List TypeVarBinding) (level inner : Nesting) :
    Blind (r.signatureParts again s bindings level inner) := by
  unfold signatureParts
  infer_instance

/-- The frame of a signature looks alike in scopes that do, and declares the same variables. -/
theorem innerScope_looksLike {s s' : Scope} (alike : s.LooksLike s') (signature : Signature) :
    (r.innerScope s signature).LooksLike (r.innerScope s' signature) ∧
      r.innerBindings s signature = r.innerBindings s' signature ∧
      r.innerReports s signature = r.innerReports s' signature := by
  have twins := alike.frames
  obtain ⟨scope, bindings, reports⟩ := twins.bindSignature r.table signature
  unfold innerScope innerBindings innerReports
  split
  · exact ⟨twins.toLooksLike, rfl, rfl⟩
  · exact ⟨scope.toLooksLike, bindings, reports⟩

instance blind_signature (signature : Signature) (level inner : Nesting) : Blind (r.signature again signature level inner) where
  same {s s'} alike := by
    obtain ⟨inside, bindings, reports⟩ := innerScope_looksLike (r := r) alike signature
    have parts := Blind.same (m := r.signatureParts again signature (r.innerBindings s signature) level inner) inside
    have step {bindings' : List TypeVarBinding} {reports' : List Diagnostic}
        (sameBindings : r.innerBindings s signature = bindings') (sameReports : r.innerReports s signature = reports') :
        SameIn s s' (reportAll (r.innerReports s signature) >>= fun _ => within (r.innerScope s signature)
            (r.signatureParts again signature (r.innerBindings s signature) level inner))
          (reportAll reports' >>= fun _ => within (r.innerScope s' signature)
            (r.signatureParts again signature bindings' level inner)) := by
      subst sameBindings sameReports
      exact (Blind.same alike).bind fun _ => parts.within
    rw [signature_within]
    exact step bindings reports

instance blind_formResult (ref : Reference) (level : Nesting) (signature : Option Signature) :
    Blind (r.formResult again ref level signature) := by
  unfold formResult
  split <;> infer_instance

instance blind_callableForm (ref : Reference) (level : Nesting) : Blind (r.callableForm again ref level) := by
  rw [callableForm_eq]
  infer_instance

instance blind_tupleForm (ref : Reference) (level : Nesting) : Blind (r.tupleForm again ref level) := by
  unfold tupleForm
  split
  · split <;> infer_instance
  · split <;> infer_instance

instance blind_classObjectForm (ref : Reference) (level : Nesting) : Blind (r.classObjectForm again ref level) := by
  unfold classObjectForm
  split
  · infer_instance
  · split <;> infer_instance

instance blind_classVarArgument (ref : Reference) (level : Nesting) : Blind (classVarArgument again ref level) := by
  unfold classVarArgument
  split <;> infer_instance

instance blind_classVarForm (ref : Reference) (level : Nesting) : Blind (classVarForm again ref level) := by
  rw [classVarForm_eq]
  infer_instance

instance blind_specialForm (form : SpecialForm) (ref : Reference) (level : Nesting) :
    Blind (r.specialForm again form ref level) := by
  unfold specialForm
  split <;> first | infer_instance | (split <;> infer_instance)

instance blind_classBase (decl : ClassDecl) (args : List Ty) (pos : Position) (level : Nesting) (i : Instance) :
    Blind (classBase again decl args pos level i) := by
  unfold classBase
  split
  · split <;> infer_instance
  · split <;> infer_instance
  · infer_instance

instance blind_classType (decl : ClassDecl) (args : List Ty) (pos : Position) (level : Nesting) :
    Blind (r.classType again decl args pos level) := by
  rw [classType_eq]
  split
  · infer_instance
  · rw [classInstance_eq]
    infer_instance

instance blind_aliasResult (written : String) (t : Ty) : Blind (r.aliasResult written t) := by
  unfold aliasResult
  split <;> infer_instance

instance blind_aliasType (decl : AliasDecl) (fullname : String) (ref : Reference) (level : Nesting) :
    Blind (r.aliasType again decl fullname ref level) := by
  rw [aliasType_eq]
  infer_instance

instance blind_pendingType (decl : PendingDecl) (ref : Reference) (level : Nesting) :
    Blind (r.pendingType again decl ref level) := by
  unfold pendingType
  split
  · infer_instance
  · split <;> infer_instance

instance blind_noType (ref : Reference) (level : Nesting) (problem : Problem) (notes : List Problem) :
    Blind (noType again ref level problem notes) := by
  unfold noType
  infer_instance

instance blind_variableType (decl : VariableDecl) (fullname : String) (ref : Reference) (level : Nesting)
    (inLiteral : Bool) : Blind (variableType again decl fullname ref level inLiteral) := by
  unfold variableType
  split
  · infer_instance
  · split <;> infer_instance
  · infer_instance

instance blind_variableFound (fullname : String) (ref : Reference) (level : Nesting) (found : Option TypeVarBinding) :
    Blind (r.variableFound again fullname ref level found) := by
  cases found with
  | none =>
    unfold variableFound
    infer_instance
  | some binding =>
    unfold variableFound
    infer_instance

instance blind_typeVarType (fullname : String) (ref : Reference) (level : Nesting) :
    Blind (r.typeVarType again fullname ref level) := by
  rw [typeVarType_eq]
  exact blind_scopeThen fun alike => by rw [alike.found]

instance blind_definedType (d : Definition) (fullname : String) (ref : Reference) (level : Nesting)
    (inLiteral : Bool) : Blind (r.definedType again d fullname ref level inLiteral) := by
  unfold definedType
  split <;> infer_instance

instance blind_formOrDefined (d : Definition) (fullname : String) (ref : Reference) (level : Nesting) (inLiteral : Bool)
    (s : Scope) : Blind (r.formOrDefined again d fullname ref level inLiteral s) := by
  unfold formOrDefined
  split <;> infer_instance

instance blind_script (script : HookScript) : Blind (script.run r again) := by
  induction script with
  | done t => exact blind_pure t
  | fail pos message next ih =>
    unfold HookScript.run
    infer_instance
  | resolve t next ih =>
    unfold HookScript.run
    exact blind_bind _ _
  | instanceOf fullname args next ih => exact ih _
  | parameters items pos next ih =>
    unfold HookScript.run
    exact blind_bind _ _

instance blind_symbolType (d : Definition) (fullname : String) (ref : Reference) (level : Nesting)
    (inLiteral : Bool) : Blind (r.symbolType again d fullname ref level inLiteral) := by
  cases hooked : r.hooks.find? fullname with
  | some hook =>
    unfold symbolType
    rw [hooked]
    infer_instance
  | none =>
    have next : Blind (scope >>= fun s => r.formOrDefined again d fullname ref level inLiteral s) := by
      refine blind_scopeThen fun alike => ?_
      unfold formOrDefined bindsTypeVar
      simp only [alike.found]
    rw [symbolType_formOrDefined hooked]
    exact blind_bind _ _

instance blind_plainReference (ref : Reference) (level : Nesting) (inLiteral : Bool) :
    Blind (r.plainReference again ref level inLiteral) := by
  unfold plainReference
  split
  · infer_instance
  · split <;> infer_instance

instance blind_reference (ref : Reference) (level : Nesting) (inLiteral : Bool) :
    Blind (r.reference again ref level inLiteral) := by
  unfold reference
  infer_instance

instance blind_tupleType (shape : TupleShape) (level : Nesting) : Blind (r.tupleType again shape level) := by
  unfold tupleType
  split
  · infer_instance
  · split
    · split <;> infer_instance
    · infer_instance

instance blind_scalarType (value : Option LiteralValue) (className : String) (note : Option String) (pos : Position) :
    Blind (r.scalarType value className note pos) := by
  unfold scalarType
  split <;> infer_instance

instance blind_forwardType (fullname : Option String) (args : List Ty) (pos : Position) (level : Nesting) :
    Blind (r.forwardType again fullname args pos level) := by
  unfold forwardType
  split
  · infer_instance
  · split <;> infer_instance
  · split <;> infer_instance
  · infer_instance

instance blind_expr (t : Ty) (level : Nesting) : Blind (r.expr again t level) := by
  unfold expr
  split
  · infer_instance
  · split <;> infer_instance

instance blind_recursion (bound : Nat) : (r.recursion bound).Blind := by
  induction bound with
  | zero => exact ⟨fun _ _ => blind_stuck, fun _ _ => blind_stuck, fun _ _ _ _ => blind_stuck⟩
  | succ bound ih =>
    exact ⟨fun t level => inferInstanceAs (Blind (r.expr (r.recursion bound) t level)),
      fun ref level => inferInstanceAs (Blind (r.reference (r.recursion bound) ref level true)),
      fun index t pos level => inferInstanceAs (Blind (r.literals (r.recursion bound) index t pos level))⟩

end Resolver

namespace Leeway

/-- Levels that are not as deep, but at the top only where the first ones are, as long as nothing is nested too deep. -/
def outward : Leeway where
  allowed := Problem.IsShallow
  omits _ := false
  reach level level' := level'.level ≤ level.level ∧ level'.isTop = level.isTop
  deeper near := ⟨Nat.succ_le_succ near.1, rfl⟩
  limit _ notDeep := absurd rfl notDeep
  shallow near shallow := Nat.le_trans near.1 shallow
  place near := .inl near.2

theorem Keeps.eq_of_none {c : Leeway} (none : ∀ problem, c.omits problem = false) {reports reports' : List Diagnostic}
    (keeps : c.Keeps reports reports') : reports' = reports := by
  have others := keeps.others
  simpa [none] using others

end Leeway

namespace Resolver

variable {r : Resolver} {s s' : Scope}

/-- With more recursion, a run that is over comes to the same end. -/
theorem run_of_more (noHooks : r.hooks = .empty) {n m : Nat} (less : n ≤ m) {t a : Ty} {level : Nesting} {q : Progress}
    (ran : (r.recursion n).expr t level (.start s) = some (a, q)) :
    (r.recursion m).expr t level (.start s) = some (a, q) := by
  obtain ⟨reports, again, keeps⟩ := (follows_recursion .exact noHooks less).expr rfl t s a q ran fun _ _ => trivial
  rwa [keeps.eq_of_none fun _ => rfl] at again

/-- With more recursion, and in a scope that looks alike, a quiet run comes to the same. -/
theorem quiet_of_more (noHooks : r.hooks = .empty) (alike : s.LooksLike s') {n m : Nat} (less : n ≤ m) {t a : Ty}
    {level : Nesting} (quiet : Quiet ((r.recursion n).expr t level) s a) : Quiet ((r.recursion m).expr t level) s' a := by
  obtain ⟨q, ran, complete, silent⟩ := quiet
  have asHere := Blind.same (m := (r.recursion m).expr t level) alike
  rw [SameIn, run_of_more noHooks less ran] at asHere
  exact ⟨{ q with scope := s' }, asHere, complete, silent⟩

/-- What is resolved quietly as an argument is resolved to the same wherever it stands, at any level and in any scope that
looks alike, unless it is nested too deep there. -/
theorem quiet_anywhere (noHooks : r.hooks = .empty) (alike : s.LooksLike s') {n m : Nat} {t a b : Ty} {level : Nesting}
    (quiet : Quiet ((r.recursion n).arg t .top) s a) (yields : Yields Problem.IsShallow ((r.recursion m).expr t level) s' b) :
    Quiet ((r.recursion m).expr t level) s' b ∧ b = a := by
  obtain ⟨q, ran, complete, silent⟩ := quiet
  obtain ⟨_, ran', shallow⟩ := yields
  have asHere := Blind.same (m := (r.recursion m).expr t level) alike
  rw [SameIn, ran'] at asHere
  obtain ⟨⟨c, q'⟩, ranHere, same⟩ := Option.map_eq_some_iff.1 asHere.symm
  cases same
  have inMore := run_of_more noHooks (Nat.le_max_right n m) ranHere
  suffices same : c = a ∧ q'.status = .complete ∧ q'.reports = [] from ⟨⟨_, ran', same.2⟩, same.1⟩
  cases atTop : level.isTop with
  | false =>
    have near : Leeway.outward.reach level Nesting.top.deeper := by
      refine ⟨?_, atTop.symm⟩
      simp only [Nesting.isTop, beq_eq_false_iff_ne, ne_eq] at atTop
      exact Nat.one_le_iff_ne_zero.2 atTop
    obtain ⟨reports, asArgument, keeps⟩ :=
      (follows_recursion .outward noHooks (Nat.le_max_right n m)).expr near t s c q' ranHere shallow
    rw [keeps.eq_of_none fun _ => rfl, run_of_more noHooks (Nat.le_max_left n m) ran] at asArgument
    cases asArgument
    exact ⟨rfl, complete, silent⟩
  | true =>
    have near : Leeway.shallower.reach Nesting.top.deeper level := by
      change level.level ≤ 1
      rw [Nesting.isTop, beq_iff_eq] at atTop
      omega
    obtain ⟨reports, atLevel, keeps⟩ :=
      (follows_recursion .shallower noHooks (Nat.le_max_left n m)).expr near t s a q ran (by simp [silent])
    rw [inMore] at atLevel
    cases atLevel
    refine ⟨rfl, complete, ?_⟩
    have among := keeps.among
    rw [silent] at among
    exact List.eq_nil_of_sublist_nil among

end Resolver

end TypeResolution
