import TypeResolution.Proofs.Avoidance
import TypeResolution.Proofs.Collected
import TypeResolution.Proofs.YieldedForms

namespace TypeResolution

open Resolve

/-- The recursive calls are tracked by those of a recursion that avoids the alias `name`. -/
class Recursion.Tracks (table : SymbolTable) (name : String) (again avoiding : Recursion) : Prop where
  expr (t : Ty) (level : Nesting) : Resolve.Tracks table name (again.expr t level) (avoiding.expr t level)
  literalName (ref : Reference) (level : Nesting) :
    Resolve.Tracks table name (again.literalName ref level) (avoiding.literalName ref level)
  literals (index : Nat) (t : Ty) (pos : Position) (level : Nesting) :
    Resolve.Tracks table name (again.literals index t pos level) (avoiding.literals index t pos level)

attribute [instance] Recursion.Tracks.expr Recursion.Tracks.literalName Recursion.Tracks.literals

namespace Resolver

variable {r : Resolver} {table : SymbolTable} {name : String} {again avoiding : Recursion} [again.Steady] [avoiding.Steady]
  [Recursion.Tracks table name again avoiding]

instance tracks_arg (t : Ty) (level : Nesting) : Tracks table name (again.arg t level) (avoiding.arg t level) := by
  unfold Recursion.arg
  infer_instance

instance tracks_args (ts : List Ty) (level : Nesting) : Tracks table name (again.args ts level) (avoiding.args ts level) := by
  unfold Recursion.args
  infer_instance

instance tracks_fields (fields : List (String × Ty)) (level : Nesting) :
    Tracks table name (again.fields fields level) (avoiding.fields fields level) := by
  unfold Recursion.fields
  infer_instance

instance tracks_omittedArguments (ref : Reference) :
    Tracks table name (r.omittedArguments ref) (r.omittedArguments ref) := by
  unfold omittedArguments
  infer_instance

instance tracks_requiredInstance (fullname : String) (pos : Position) :
    Tracks table name (r.requiredInstance fullname pos) (r.requiredInstance fullname pos) := by
  unfold requiredInstance
  split <;> infer_instance

instance tracks_fixArity (i : Instance) (fromAlias : Bool) (written : Option String) :
    Tracks table name (r.fixArity i fromAlias written) (r.fixArity i fromAlias written) := by
  unfold fixArity
  split <;> infer_instance

instance tracks_literalOf (value : LiteralValue) (className : String) (pos : Position) :
    Tracks table name (r.literalOf value className pos) (r.literalOf value className pos) := by
  rw [literalOf_eq]
  infer_instance

instance tracks_noLiteral (pos : Position) (problem : Problem) :
    Tracks table name (noLiteral pos problem) (noLiteral pos problem) := by
  unfold noLiteral
  infer_instance

instance tracks_literalsOf (index : Nat) (t : Ty) (pos : Position) (level : Nesting) :
    Tracks table name (r.literalsOf again index t pos level) (r.literalsOf avoiding index t pos level) := by
  unfold literalsOf
  split <;> infer_instance

instance tracks_literals (index : Nat) (t : Ty) (pos : Position) (level : Nesting) :
    Tracks table name (r.literals again index t pos level) (r.literals avoiding index t pos level) := by
  unfold literals
  split
  · split <;> infer_instance
  · infer_instance

instance tracks_literalForm (ref : Reference) (level : Nesting) :
    Tracks table name (r.literalForm again ref level) (r.literalForm avoiding ref level) := by
  rw [literalForm_eq, literalForm_eq]
  infer_instance

instance tracks_typeVarBinding (binding : TypeVarBinding) (level : Nesting) :
    Tracks table name (typeVarBinding again binding level) (typeVarBinding avoiding binding level) := by
  unfold typeVarBinding
  infer_instance

instance tracks_signatureParts (s : Signature) (bindings : List TypeVarBinding) (level inner : Nesting) :
    Tracks table name (r.signatureParts again s bindings level inner) (r.signatureParts avoiding s bindings level inner) := by
  unfold signatureParts
  infer_instance

instance tracks_signature (s : Signature) (level inner : Nesting) :
    Tracks table name (r.signature again s level inner) (r.signature avoiding s level inner) := by
  rw [signature_within, signature_within]
  infer_instance

instance tracks_formResult (ref : Reference) (level : Nesting) (signature : Option Signature) :
    Tracks table name (r.formResult again ref level signature) (r.formResult avoiding ref level signature) := by
  unfold formResult
  split <;> infer_instance

instance tracks_callableForm (ref : Reference) (level : Nesting) :
    Tracks table name (r.callableForm again ref level) (r.callableForm avoiding ref level) := by
  rw [callableForm_eq, callableForm_eq]
  infer_instance

instance tracks_tupleForm (ref : Reference) (level : Nesting) :
    Tracks table name (r.tupleForm again ref level) (r.tupleForm avoiding ref level) := by
  unfold tupleForm
  split
  · split <;> infer_instance
  · split <;> infer_instance

instance tracks_classObjectForm (ref : Reference) (level : Nesting) :
    Tracks table name (r.classObjectForm again ref level) (r.classObjectForm avoiding ref level) := by
  unfold classObjectForm
  split
  · infer_instance
  · split <;> infer_instance

instance tracks_classVarArgument (ref : Reference) (level : Nesting) :
    Tracks table name (classVarArgument again ref level) (classVarArgument avoiding ref level) := by
  unfold classVarArgument
  split <;> infer_instance

instance tracks_classVarForm (ref : Reference) (level : Nesting) :
    Tracks table name (classVarForm again ref level) (classVarForm avoiding ref level) := by
  rw [classVarForm_eq, classVarForm_eq]
  infer_instance

instance tracks_specialForm (form : SpecialForm) (ref : Reference) (level : Nesting) :
    Tracks table name (r.specialForm again form ref level) (r.specialForm avoiding form ref level) := by
  unfold specialForm
  split <;> first | infer_instance | (split <;> infer_instance)

instance tracks_classBase (decl : ClassDecl) (args : List Ty) (pos : Position) (level : Nesting) (i : Instance) :
    Tracks table name (classBase again decl args pos level i) (classBase avoiding decl args pos level i) := by
  unfold classBase
  split <;> infer_instance

instance tracks_classType (decl : ClassDecl) (args : List Ty) (pos : Position) (level : Nesting) :
    Tracks table name (r.classType again decl args pos level) (r.classType avoiding decl args pos level) := by
  rw [classType_eq, classType_eq, classInstance_eq, classInstance_eq]
  infer_instance

instance tracks_aliasResult (written : String) (t : Ty) :
    Tracks table name (r.aliasResult written t) (r.aliasResult written t) := by
  unfold aliasResult
  split <;> infer_instance

instance tracks_pendingType (decl : PendingDecl) (ref : Reference) (level : Nesting) :
    Tracks table name (r.pendingType again decl ref level) (r.pendingType avoiding decl ref level) := by
  unfold pendingType
  infer_instance

instance tracks_noType (ref : Reference) (level : Nesting) (problem : Problem) (notes : List Problem) :
    Tracks table name (noType again ref level problem notes) (noType avoiding ref level problem notes) := by
  unfold noType
  infer_instance

instance tracks_variableType (decl : VariableDecl) (fullname : String) (ref : Reference) (level : Nesting)
    (inLiteral : Bool) :
    Tracks table name (variableType again decl fullname ref level inLiteral)
      (variableType avoiding decl fullname ref level inLiteral) := by
  unfold variableType
  split <;> infer_instance

instance tracks_variableFound (fullname : String) (ref : Reference) (level : Nesting) (found : Option TypeVarBinding) :
    Tracks table name (r.variableFound again fullname ref level found) (r.variableFound avoiding fullname ref level found) := by
  unfold variableFound
  split <;> infer_instance

instance tracks_typeVarType (fullname : String) (ref : Reference) (level : Nesting) :
    Tracks table name (r.typeVarType again fullname ref level) (r.typeVarType avoiding fullname ref level) := by
  rw [typeVarType_eq, typeVarType_eq]
  infer_instance

instance tracks_tupleType (shape : TupleShape) (level : Nesting) :
    Tracks table name (r.tupleType again shape level) (r.tupleType avoiding shape level) := by
  unfold tupleType
  infer_instance

instance tracks_scalarType (value : Option LiteralValue) (className : String) (note : Option String) (pos : Position) :
    Tracks table name (r.scalarType value className note pos) (r.scalarType value className note pos) := by
  unfold scalarType
  infer_instance

instance tracks_forwardType (fullname : Option String) (args : List Ty) (pos : Position) (level : Nesting) :
    Tracks table name (r.forwardType again fullname args pos level) (r.forwardType avoiding fullname args pos level) := by
  unfold forwardType
  split <;> infer_instance

end Resolver

/-- Every symbol stands under its own name, and what an alias depends on is accounted for. -/
structure SymbolTable.Traced (table : SymbolTable) : Prop where
  named {name : String} {s : Symbol} : table.find? name = some s → s.fullname = name
  accounted {name : String} {decl : AliasDecl} : table.AliasAt name decl → table.Accounts decl.dependencies

theorem SymbolTable.Traced.aliasAt {table : SymbolTable} (traced : table.Traced) {name : String} {s : Symbol} {decl : AliasDecl}
    (found : table.lookup name = some s) (defined : s.definition = some (.aliasDef decl)) : table.AliasAt s.fullname decl := by
  obtain ⟨fullname, atName⟩ := find?_of_lookup found
  rw [AliasAt, traced.named atName, atName]
  exact defined

/-- The reference is to the alias `name`, whose target takes its place. -/
def SymbolTable.opensAlias (table : SymbolTable) (name : String) (ref : Reference) : Bool :=
  match table.lookup ref.name with
  | some ⟨_, fullname, some (.aliasDef _)⟩ => fullname == name && (SpecialForm.ofName? fullname).isNone
  | _ => false

theorem SymbolTable.found_of_opensAlias {table : SymbolTable} {name : String} {ref : Reference}
    (opens : table.opensAlias name ref = true) : ∃ s decl, table.lookup ref.name = some s ∧
      s.definition = some (.aliasDef decl) ∧ s.fullname = name ∧ SpecialForm.ofName? s.fullname = none := by
  unfold opensAlias at opens
  split at opens
  · rename_i kind fullname decl found
    rw [Bool.and_eq_true, beq_iff_eq, Option.isNone_iff_eq_none] at opens
    exact ⟨_, decl, found, rfl, opens.1, opens.2⟩
  · cases opens

namespace Resolver

/-- A reference to an alias uses the alias. -/
theorem uses_reference {r : Resolver} (noHooks : r.hooks = .empty) {again : Recursion} [again.Steady] {name : String}
    {ref : Reference} (opens : r.table.opensAlias name ref = true) (level : Nesting) (inLiteral : Bool) :
    Uses name (r.reference again ref level inLiteral) := by
  obtain ⟨s, decl, found, defined, rfl, notForm⟩ := SymbolTable.found_of_opensAlias opens
  have recorded : Uses s.fullname (useAliases (s.fullname :: decl.dependencies)) := by
    rintro scope a q ⟨⟩
    exact mem_foldl_addDistinct_iff.2 (.inr List.mem_cons_self)
  have atAlias : Uses s.fullname (r.aliasType again decl s.fullname ref level) := by
    rw [aliasType_eq]
    exact recorded.first
  have plain : r.plainReference again ref level inLiteral = r.symbolType again (.aliasDef decl) s.fullname ref level inLiteral := by
    unfold plainReference
    rw [found]
    dsimp only
    rw [defined]
  unfold reference
  rw [plain, symbolType_formOrDefined (unhooked noHooks _)]
  refine Uses.first (Uses.next fun _ => Uses.next fun inner => ?_)
  unfold formOrDefined
  rw [notForm]
  exact atAlias

section References

variable {r : Resolver} (noHooks : r.hooks = .empty) (traced : r.table.Traced) {name : String} {again avoiding : Recursion}
  [again.Steady] [avoiding.Steady] [Recursion.Tracks r.table name again avoiding]

include traced

theorem tracks_aliasType {decl : AliasDecl} {fullname : String} (atName : r.table.AliasAt fullname decl) (ref : Reference)
    (level : Nesting) :
    Tracks r.table name (r.aliasType again decl fullname ref level) (r.aliasType avoiding decl fullname ref level) := by
  have used : Tracks r.table name (useAliases (fullname :: decl.dependencies)) (useAliases (fullname :: decl.dependencies)) :=
    tracks_useAliases (.cons atName (traced.accounted atName))
  rw [aliasType_eq, aliasType_eq]
  infer_instance

theorem tracks_definedType {ref : Reference} {s : Symbol} {d : Definition} (found : r.table.lookup ref.name = some s)
    (defined : s.definition = some d) (level : Nesting) (inLiteral : Bool) :
    Tracks r.table name (r.definedType again d s.fullname ref level inLiteral)
      (r.definedType avoiding d s.fullname ref level inLiteral) := by
  cases d with
  | aliasDef decl => exact tracks_aliasType traced (traced.aliasAt found defined) ref level
  | _ =>
    unfold definedType
    infer_instance

theorem tracks_formOrDefined {ref : Reference} {s : Symbol} {d : Definition} (found : r.table.lookup ref.name = some s)
    (defined : s.definition = some d) (level : Nesting) (inLiteral : Bool) (scope : Scope) :
    Tracks r.table name (r.formOrDefined again d s.fullname ref level inLiteral scope)
      (r.formOrDefined avoiding d s.fullname ref level inLiteral scope) := by
  have other : Tracks r.table name (r.definedType again d s.fullname ref level inLiteral)
      (r.definedType avoiding d s.fullname ref level inLiteral) := tracks_definedType traced found defined level inLiteral
  unfold formOrDefined
  split <;> infer_instance

include noHooks

theorem tracks_symbolType {ref : Reference} {s : Symbol} {d : Definition} (found : r.table.lookup ref.name = some s)
    (defined : s.definition = some d) (level : Nesting) (inLiteral : Bool) :
    Tracks r.table name (r.symbolType again d s.fullname ref level inLiteral)
      (r.symbolType avoiding d s.fullname ref level inLiteral) := by
  have next (inner : Scope) : Tracks r.table name (r.formOrDefined again d s.fullname ref level inLiteral inner)
      (r.formOrDefined avoiding d s.fullname ref level inLiteral inner) :=
    tracks_formOrDefined traced found defined level inLiteral inner
  rw [symbolType_formOrDefined (unhooked noHooks _), symbolType_formOrDefined (unhooked noHooks _)]
  infer_instance

theorem tracks_reference (ref : Reference) (level : Nesting) (inLiteral : Bool) :
    Tracks r.table name (r.reference again ref level inLiteral) (r.reference avoiding ref level inLiteral) := by
  have plain : Tracks r.table name (r.plainReference again ref level inLiteral)
      (r.plainReference avoiding ref level inLiteral) := by
    unfold plainReference
    split
    · infer_instance
    · rename_i s found
      split
      · infer_instance
      · infer_instance
      · rename_i d _ defined
        exact tracks_symbolType noHooks traced found defined level inLiteral
  unfold reference
  infer_instance

theorem tracks_expr (t : Ty) (level : Nesting) :
    Tracks r.table name (r.expr again t level) (r.expr avoiding t level) := by
  have references (ref : Reference) : Tracks r.table name (r.reference again ref level false)
    (r.reference avoiding ref level false) := tracks_reference noHooks traced ref level false
  rw [expr_eq, expr_eq]
  have form : Tracks r.table name (r.form again t level) (r.form avoiding t level) := by
    unfold form
    split <;> infer_instance
  infer_instance

end References

/-- An expression at this level is a reference to the alias `name`. -/
def opensAt (r : Resolver) (name : String) (t : Ty) (level : Nesting) : Bool :=
  match t with
  | .named ref => !decide (maxNesting < level.level) && r.table.opensAlias name ref
  | _ => false

theorem uses_expr {r : Resolver} (noHooks : r.hooks = .empty) {again : Recursion} [again.Steady] {name : String} {t : Ty}
    {level : Nesting} (opens : r.opensAt name t level = true) : Uses name (r.expr again t level) := by
  unfold opensAt at opens
  split at opens
  · rename_i ref
    rw [Bool.and_eq_true, Bool.not_eq_true', decide_eq_false_iff_not] at opens
    rw [expr_eq, if_neg opens.1]
    exact uses_reference noHooks opens.2 level false
  · cases opens

/-- The recursion that has no result as soon as the target of the alias `name` is to take the place of a reference. -/
def recursionAvoiding (r : Resolver) (name : String) : Nat → Recursion
  | 0 => .exhausted
  | bound + 1 =>
    { expr := fun t level =>
        if r.opensAt name t level then fun _ => none else r.expr (r.recursionAvoiding name bound) t level
      literalName := fun ref level =>
        if r.table.opensAlias name ref then fun _ => none else r.reference (r.recursionAvoiding name bound) ref level true
      literals := fun index t pos level => r.literals (r.recursionAvoiding name bound) index t pos level }

instance steady_recursionAvoiding (r : Resolver) (name : String) (bound : Nat) : (r.recursionAvoiding name bound).Steady := by
  induction bound with
  | zero => exact ⟨fun _ _ => steady_stuck, fun _ _ => steady_stuck, fun _ _ _ _ => steady_stuck⟩
  | succ bound ih =>
    exact ⟨fun t level => steady_ite _ (fun _ => none) (r.expr (r.recursionAvoiding name bound) t level),
      fun ref level => steady_ite _ (fun _ => none) (r.reference (r.recursionAvoiding name bound) ref level true),
      fun index t pos level => inferInstanceAs (Steady (r.literals (r.recursionAvoiding name bound) index t pos level))⟩

/-- Resolution uses the alias `name`, or does what it does without its target. Where the recursion that avoids the alias
stops, the alias is used, so that nothing more is asked of it. -/
theorem tracks_recursion {r : Resolver} (noHooks : r.hooks = .empty) (traced : r.table.Traced) (name : String) (bound : Nat) :
    Recursion.Tracks r.table name (r.recursion bound) (r.recursionAvoiding name bound) := by
  induction bound with
  | zero => exact ⟨fun _ _ => tracks_stuck _, fun _ _ => tracks_stuck _, fun _ _ _ _ => tracks_stuck _⟩
  | succ bound ih =>
    constructor
    · intro t level
      have goesOn : Tracks r.table name (r.expr (r.recursion bound) t level) (r.expr (r.recursionAvoiding name bound) t level) :=
        tracks_expr noHooks traced t level
      change Tracks r.table name (r.expr (r.recursion bound) t level) (if r.opensAt name t level then fun _ => none else _)
      split
      · rename_i opens
        exact goesOn.of_uses (uses_expr noHooks opens) _
      · exact goesOn
    · intro ref level
      have goesOn : Tracks r.table name (r.reference (r.recursion bound) ref level true)
          (r.reference (r.recursionAvoiding name bound) ref level true) := tracks_reference noHooks traced ref level true
      change Tracks r.table name (r.reference (r.recursion bound) ref level true)
        (if r.table.opensAlias name ref then fun _ => none else _)
      split
      · rename_i opens
        exact goesOn.of_uses (uses_reference noHooks opens level true) _
      · exact goesOn
    · intro index t pos level
      exact tracks_literals (r := r) index t pos level

end Resolver

end TypeResolution
