import TypeResolution.Proofs.Ends
import TypeResolution.Proofs.LightTypes

namespace TypeResolution

open Resolve

namespace Resolver

variable {r : Resolver} {heaviest limit : ℕ∞}

/-- Resolving `t` at a level ends, whatever came before. -/
def ExprEnds (r : Resolver) (limit : ℕ∞) (t : Ty) (level : Nesting) : Prop :=
  ∀ p, EndsWithin limit (fun n => (r.recursion n).expr t level) p

/-- Reading `t` as a parameter of a literal ends. -/
def LiteralsEnd (r : Resolver) (limit : ℕ∞) (t : Ty) (level : Nesting) : Prop :=
  ∀ index pos p, EndsWithin limit (fun n => r.literals (r.recursion n) index t pos level) p

/-- The values of the variables that a signature binds in the scope `s` can be resolved, and so can their bounds, at
the level of the signature itself. -/
def BoundsEnd (r : Resolver) (limit : ℕ∞) (s : Scope) (signature : Signature) (level : Nesting) : Prop :=
  ∀ binding ∈ r.innerBindings s signature, (∀ v ∈ binding.values, r.ExprEnds limit v level.deeper) ∧
    ∀ p : Progress, p.scope = r.innerScope s signature →
      EndsWithin limit (fun n => (r.recursion n).expr binding.upperBound level) p

theorem args_end {ts : List Ty} {level : Nesting} (each : ∀ t ∈ ts, r.ExprEnds limit t level.deeper) (p : Progress) :
    EndsWithin limit (fun n => (r.recursion n).args ts level) p :=
  EndsWithin.mapM (P := fun _ => True) ts (fun _ _ _ _ _ _ _ _ => trivial) (fun t member q _ => each t member q) trivial

theorem fields_end {fields : List (String × Ty)} {level : Nesting}
    (each : ∀ field ∈ fields, r.ExprEnds limit field.2 level.deeper) (p : Progress) :
    EndsWithin limit (fun n => (r.recursion n).fields fields level) p :=
  EndsWithin.mapM (P := fun _ => True) fields (fun _ _ _ _ _ _ _ _ => trivial)
    (fun field member q _ => (each field member q).andThen fun _ _ => .pure _) trivial

theorem literalOf_ends (value : LiteralValue) (className : String) (pos : Position) (p : Progress) :
    EndsWithin limit (fun _ => r.literalOf value className pos) p := by
  have required : EndsWithin limit (fun _ => r.requiredInstance (r.stringClass className) pos) p := by
    unfold requiredInstance
    split
    · exact .pure _
    · split
      · exact .always rfl
      · exact .always rfl
  refine required.andThen fun fallback q => ?_
  cases fallback with
  | none => exact .pure _
  | some fallback => exact .pure _

theorem literalsOf_ends {t : Ty} {level : Nesting} {index : Nat} {pos : Position}
    (members : ∀ ms at_, t = .union ms at_ → ∀ m ∈ ms, ∀ q,
      EndsWithin limit (fun n => (r.recursion n).literals index m pos level) q)
    (p : Progress) : EndsWithin limit (fun n => r.literalsOf (r.recursion n) index t pos level) p := by
  unfold literalsOf
  split
  · split
    · exact .pure _
    · exact .always rfl
  · exact literalOf_ends _ _ _ p
  · dsimp only
    split <;> exact .always rfl
  · exact .pure _
  · exact .pure _
  · exact .pure _
  · rename_i ms at_
    exact .collectWhile ms (members ms at_ rfl)
  · exact .always rfl

theorem literalForm_ends {ref : Reference} {level : Nesting} (literals : ∀ t ∈ ref.args, r.LiteralsEnd limit t level)
    (p : Progress) : EndsWithin limit (fun n => r.literalForm (r.recursion n) ref level) p := by
  unfold literalForm
  split
  · exact .failAt _ _
  · refine (EndsWithin.collectWhile _ fun numbered member q => ?_).andThen fun found q => ?_
    · obtain ⟨t, index⟩ := numbered
      have atArg : t ∈ ref.args := List.fst_mem_of_mem_zipIdx member
      exact literals t atArg index ref.pos q
    · cases found with
      | none => exact .pure _
      | some found => exact .pure _

theorem tupleForm_ends {ref : Reference} {level : Nesting} (args : ∀ t ∈ ref.args, r.ExprEnds limit t level.deeper)
    (p : Progress) : EndsWithin limit (fun n => r.tupleForm (r.recursion n) ref level) p := by
  unfold tupleForm
  split
  · split
    · exact .always rfl
    · exact .always rfl
  · split
    · exact .always rfl
    · rename_i item _ atArgs
      have atItem : item ∈ ref.args := by simp [atArgs]
      exact (args item atItem p).andThen fun _ _ => .pure _
    · exact (args_end args p).andThen fun _ _ => .pure _

theorem classObjectForm_ends {ref : Reference} {level : Nesting} (args : ∀ t ∈ ref.args, r.ExprEnds limit t level.deeper)
    (p : Progress) : EndsWithin limit (fun n => r.classObjectForm (r.recursion n) ref level) p := by
  unfold classObjectForm
  split
  · exact .always rfl
  · rename_i item others atArgs
    have atItem : r.ExprEnds limit item level.deeper := args item (by simp [atArgs])
    split
    · exact (EndsWithin.report _ _).andThen fun _ q => (atItem q).andThen fun _ _ => .pure _
    · exact (atItem p).andThen fun _ _ => .pure _

theorem classVarForm_ends {ref : Reference} {level : Nesting} (args : ∀ t ∈ ref.args, r.ExprEnds limit t level.deeper)
    (p : Progress) : EndsWithin limit (fun n => classVarForm (r.recursion n) ref level) p := by
  have place : EndsWithin limit (fun _ => if level.isTop then Pure.pure () else report ref.pos .nestedClassVar) p := by
    split
    · exact .pure _
    · exact .report _ _
  simp only [classVarForm_eq]
  refine place.andThen fun _ q => ?_
  unfold classVarArgument
  split
  · exact .pure _
  · rename_i item atArgs
    refine (args item (by simp [atArgs]) q).andThen fun item q' => ?_
    split
    · exact .pure _
    · exact .failAt _ _
  · exact .failAt _ _

theorem classType_ends {decl : ClassDecl} {args : List Ty} {pos : Position} {level : Nesting}
    (given : ∀ t ∈ args, r.ExprEnds limit t level.deeper)
    (tupleBase : ∀ {base}, decl.tupleBase = some base → ∀ t ∈ base.items, r.ExprEnds limit t level.deeper)
    (recordBase : ∀ {base}, decl.recordBase = some base → ∀ field ∈ base.fields, r.ExprEnds limit field.2 level.deeper)
    (p : Progress) : EndsWithin limit (fun n => r.classType (r.recursion n) decl args pos level) p := by
  simp only [classType_eq]
  split
  · exact (args_end given p).andThen fun _ _ => .pure _
  · refine (args_end given p).andThen fun resolved q => ?_
    have fixed : EndsWithin limit (fun _ => r.fixArity (.of decl.head resolved pos) false none) q := by
      unfold fixArity
      split
      · exact .pure _
      · exact .always rfl
    refine fixed.andThen fun i q' => ?_
    split
    · rename_i atBase
      split
      · exact .failAt _ _
      · exact (args_end (tupleBase atBase) q').andThen fun _ _ => .pure _
    · rename_i atBase
      split
      · exact .failAt _ _
      · exact (fields_end (recordBase atBase) q').andThen fun _ _ => .pure _
    · exact .pure _

theorem aliasType_ends (decl : AliasDecl) (fullname : String) {ref : Reference} {level : Nesting}
    (args : ∀ t ∈ ref.args, r.ExprEnds limit t level.deeper) (p : Progress) :
    EndsWithin limit (fun n => r.aliasType (r.recursion n) decl fullname ref level) p := by
  simp only [aliasType_eq]
  refine (EndsWithin.always (m := useAliases (fullname :: decl.dependencies)) rfl).andThen fun _ q => ?_
  refine (args_end args q).andThen fun args q' => (EndsWithin.reportAll _).andThen fun _ q'' => ?_
  unfold aliasResult
  split
  · unfold fixArity
    split
    · exact .pure _
    · exact .always rfl
  · exact .pure _

theorem pendingType_ends (decl : PendingDecl) {ref : Reference} {level : Nesting}
    (args : ∀ t ∈ ref.args, r.ExprEnds limit t level.deeper) (p : Progress) :
    EndsWithin limit (fun n => r.pendingType (r.recursion n) decl ref level) p := by
  unfold pendingType
  split
  · exact .failAt _ _
  · split
    · exact (EndsWithin.raise _).andThen fun _ q => (args_end args q).andThen fun _ _ => .pure _
    · exact .always rfl

theorem noType_ends {ref : Reference} {level : Nesting} (args : ∀ t ∈ ref.args, r.ExprEnds limit t level.deeper)
    (problem : Problem) (notes : List Problem) (p : Progress) :
    EndsWithin limit (fun n => noType (r.recursion n) ref level problem notes) p :=
  (args_end args p).andThen fun _ _ => .always rfl

theorem tupleType_ends {shape : TupleShape} {level : Nesting} (items : ∀ t ∈ shape.items, r.ExprEnds limit t level.deeper)
    (p : Progress) : EndsWithin limit (fun n => r.tupleType (r.recursion n) shape level) p := by
  unfold tupleType
  split
  · exact .always rfl
  · split
    · refine (EndsWithin.report _ _).andThen fun _ q => ?_
      split
      · exact .pure _
      · exact .pure _
    · exact (args_end items p).andThen fun _ _ => .pure _

theorem definedType_ends (table : r.LightTable heaviest) {d : Definition} (holds : r.table.Holds d) (fullname : String)
    {ref : Reference} {level : Nesting} (deeper : ∀ t, r.Light heaviest t → r.ExprEnds limit t level.deeper)
    (args : ∀ t ∈ ref.args, r.ExprEnds limit t level.deeper) (inLiteral : Bool) (p : Progress) :
    EndsWithin limit (fun n => r.definedType (r.recursion n) d fullname ref level inLiteral) p := by
  cases d with
  | classDef decl =>
    exact classType_ends args (fun atBase t member => deeper t (table.tupleBase holds atBase t member))
      (fun atBase field member => deeper field.2 (table.recordBase holds atBase field member)) p
  | aliasDef decl => exact aliasType_ends decl fullname args p
  | pendingDef decl => exact pendingType_ends decl args p
  | moduleDef _ | functionDef _ | decoratorDef _ => exact noType_ends args _ _ p
  | variableDef decl =>
    unfold definedType variableType
    dsimp only
    split
    · exact .pure _
    · split
      · exact .pure _
      · exact .failAt _ _
    · exact noType_ends args _ _ p
  | typeVarDef decl =>
    refine EndsWithin.scope.andThen fun s q => ?_
    split
    · split
      · exact .failAt _ _
      · split
        · exact .always rfl
        · exact .pure _
    · split
      · exact .pure _
      · exact noType_ends args _ _ q

theorem forwardType_ends (table : r.LightTable heaviest) {fullname : Option String} {args : List Ty} {pos : Position} {level : Nesting}
    (deeper : ∀ t, r.Light heaviest t → r.ExprEnds limit t level.deeper) (given : ∀ t ∈ args, r.ExprEnds limit t level.deeper)
    (p : Progress) : EndsWithin limit (fun n => r.forwardType (r.recursion n) fullname args pos level) p := by
  have keep (problem : Problem) : EndsWithin limit (fun _ => if r.table.finalPass then Resolve.failAt pos problem
      else do
        Resolve.raise .deferred
        pure (.forward fullname args pos)) p := by
    split
    · exact .failAt _ _
    · exact .always rfl
  unfold forwardType
  split
  · rename_i decl defined
    obtain ⟨symbol, atName, atSymbol⟩ := Option.bind_eq_some_iff.1 defined
    obtain ⟨name, _, found⟩ := Option.bind_eq_some_iff.1 atName
    have holds : r.table.Holds (.classDef decl) := ⟨name, symbol, found, atSymbol⟩
    exact classType_ends given (fun atBase t member => deeper t (table.tupleBase holds atBase t member))
      (fun atBase field member => deeper field.2 (table.recordBase holds atBase field member)) p
  · exact keep _
  · exact keep _
  · exact .failAt _ _

section Forms

variable (noHooks : r.hooks = .empty) (table : r.LightTable heaviest)

include noHooks table

theorem expr_keeps {n : Nat} {t a : Ty} {level : Nesting} {p q : Progress}
    (ran : (r.recursion n).expr t level p = some (a, q)) : q.scope = p.scope :=
  ((recursion_obeys (rule_fits table) noHooks n).expr t level p a q ran).2.1

theorem signature_ends {s : Signature} {level inner : Nesting} {p : Progress}
    (parts : ∀ t ∈ (Ty.callable s).children, r.ExprEnds limit t inner) (bounds : r.BoundsEnd limit p.scope s level) :
    EndsWithin limit (fun n => r.signature (r.recursion n) s level inner) p := by
  have opens : EndsWithin limit (fun _ => if r.flags.definingAlias then Pure.pure s.bindings else r.bindVariables s)
      { p with scope := p.scope.functionFrame } := by
    split
    · exact .pure _
    · exact .always rfl
  simp only [signature_eq]
  refine .inFrame (opens.bind fun n bindings q ran => ?_)
  obtain ⟨inside, rfl⟩ := (signatureBindings_ensures s p _ _ ran).2
  refine (EndsWithin.mapM (P := fun q => q.scope = r.innerScope p.scope s) s.args
    (fun t _ n q a q' same ran => (expr_keeps noHooks table ran).trans same)
    (fun t member q _ => parts t (List.mem_append_left _ member) q) inside).bind fun n args q₁ ranArgs => ?_
  have keptArgs := ((exprs_ensures (rule_fits table) (recursion_obeys (rule_fits table) noHooks n) s.args inner q)
    args q₁ ranArgs).2.1
  refine (parts s.ret (List.mem_append_right _ (List.mem_singleton_self _)) q₁).bind fun n ret q₂ ranRet => ?_
  have keptRet := expr_keeps noHooks table ranRet
  refine (EndsWithin.mapM (P := fun q => q.scope = r.innerScope p.scope s) (r.innerBindings p.scope s) ?_ ?_
    (keptRet.trans (keptArgs.trans inside))).andThen fun _ _ => .pure _
  · intro binding _ n q made q' same ran
    exact ((typeVarBinding_ensures (rule_fits table) (recursion_obeys (rule_fits table) noHooks n) binding level q)
      made q' ran).2.1.trans same
  · intro binding member q same
    refine (args_end (bounds binding member).1 q).bind fun n values q' ran => ?_
    have kept := (args_ensures (rule_fits table) (recursion_obeys (rule_fits table) noHooks n) binding.values level q
      values q' ran).2.1
    exact ((bounds binding member).2 q' (kept.trans same)).andThen fun _ _ => .pure _

theorem callableForm_ends {ref : Reference} {level : Nesting} {p : Progress}
    (parts : ∀ s, r.formSignature? ref = some s → ∀ t ∈ (Ty.callable s).children, r.ExprEnds limit t level.deeper)
    (bounds : ∀ s, r.formSignature? ref = some s → r.BoundsEnd limit p.scope s level) :
    EndsWithin limit (fun n => r.callableForm (r.recursion n) ref level) p := by
  have finish {s : Signature} (isSignature : r.formSignature? ref = some s) {q : Progress}
      (kept : q.scope = p.scope) : EndsWithin limit (fun n => r.signature (r.recursion n) s level level.deeper) q :=
    signature_ends noHooks table (parts s isSignature) (kept ▸ bounds s isSignature)
  unfold callableForm
  split
  · rename_i atArgs
    refine (EndsWithin.always (m := r.omittedArguments ref) rfl).bind fun _ filler q ran => ?_
    obtain ⟨kept, rfl⟩ := (omittedArguments_ensures ref p filler q ran).2
    exact finish (by simp [formSignature?, atArgs]) kept
  · rename_i items pos ret atArgs
    dsimp only
    refine (EndsWithin.reportAll _).bind fun _ _ q ran => ?_
    have kept : q.scope = p.scope := by
      cases ran
      rfl
    split
    · rename_i parameters read
      exact finish (by simp [formSignature?, atArgs, read]) kept
    · exact .pure _
  · rename_i pos ret atArgs
    exact finish (by simp [formSignature?, atArgs]) rfl
  · exact .failAt _ _
  · exact .failAt _ _

theorem specialForm_ends {form : SpecialForm} {ref : Reference} {level : Nesting} {p : Progress}
    (args : ∀ t ∈ ref.args, r.ExprEnds limit t level.deeper)
    (signature : form = .callable → ∀ s, r.formSignature? ref = some s →
      (∀ t ∈ (Ty.callable s).children, r.ExprEnds limit t level.deeper) ∧ r.BoundsEnd limit p.scope s level)
    (literals : form = .literal → ∀ t ∈ ref.args, r.LiteralsEnd limit t level) :
    EndsWithin limit (fun n => r.specialForm (r.recursion n) form ref level) p := by
  cases form with
  | noneType | any | noReturn => exact .pure _
  | final => exact .failAt _ _
  | tuple => exact tupleForm_ends args p
  | union => exact (args_end args p).andThen fun _ _ => .pure _
  | optional =>
    unfold specialForm
    dsimp only
    split
    · rename_i item atArgs
      exact (args item (by simp [atArgs]) p).andThen fun _ _ => .pure _
    · exact .failAt _ _
  | callable =>
    exact callableForm_ends noHooks table (fun s read => (signature rfl s read).1) fun s read => (signature rfl s read).2
  | classObject => exact classObjectForm_ends args p
  | classVar => exact classVarForm_ends args p
  | literal => exact literalForm_ends (literals rfl) p
  | annotated =>
    unfold specialForm
    dsimp only
    split
    · rename_i item _ _ atArgs
      exact args item (by simp [atArgs]) p
    · exact .failAt _ _

theorem reference_ends {ref : Reference} {level : Nesting} {p : Progress} (light : r.Light heaviest (.named ref))
    (deeper : ∀ t, r.Light heaviest t → r.ExprEnds limit t level.deeper)
    (bounds : ∀ s, r.formSignature? ref = some s → r.BoundsEnd limit p.scope s level)
    (literals : r.isLiteralForm ref → ∀ t ∈ ref.args, r.LiteralsEnd limit t level) (inLiteral : Bool) :
    EndsWithin limit (fun n => r.reference (r.recursion n) ref level inLiteral) p := by
  have args : ∀ t ∈ ref.args, r.ExprEnds limit t level.deeper := fun t member => deeper t (light.child member)
  suffices plain : EndsWithin limit (fun n => r.plainReference (r.recursion n) ref level inLiteral) p from
    plain.andThen fun _ _ => .pure _
  unfold plainReference
  split
  · exact .pure _
  · rename_i symbol found
    split
    · exact .always rfl
    · exact pendingType_ends _ args p
    · rename_i d notPending defined
      have holds := SymbolTable.holds_of_lookup found defined
      simp only [symbolType_eq noHooks]
      refine EndsWithin.bind ?_ fun n _ q ran => ?_
      · split
        · exact .report _ _
        · exact .pure _
      have kept : q.scope = p.scope := by
        split at ran <;> cases ran <;> rfl
      refine EndsWithin.scope.bind fun n s q' ran => ?_
      cases ran
      split
      · rename_i form isForm _
        refine specialForm_ends noHooks table args ?_ ?_
        · exact fun _ s read => ⟨fun t member => deeper t (light.form read t member), kept ▸ bounds s read⟩
        · rintro rfl
          exact literals (isLiteralForm_of_form found isForm)
      · exact definedType_ends table holds _ deeper args inLiteral q

/-- Resolving an expression at a level ends if it does at the next one, if the bounds of its own variables can be
resolved at this one, and if the parameters of the literal form that it may be can be read. -/
theorem expr_ends {t : Ty} {level : Nesting} {p : Progress} (light : r.Light heaviest t)
    (deeper : ∀ t, r.Light heaviest t → r.ExprEnds limit t level.deeper)
    (bounds : ∀ s, (∀ binding ∈ s.bindings, binding ∈ t.declared) → r.BoundsEnd limit p.scope s level)
    (literals : ∀ ref, t = .named ref → r.isLiteralForm ref → ∀ arg ∈ ref.args, r.LiteralsEnd limit arg level) :
    EndsWithin (limit + 1) (fun n => (r.recursion n).expr t level) p := by
  have parts : ∀ c ∈ t.children, r.ExprEnds limit c level.deeper := fun c member => deeper c (light.child member)
  refine .of_succ ?_
  change EndsWithin limit (fun n => r.expr (r.recursion n) t level) p
  unfold expr
  split
  · exact .failAt _ _
  cases t with
  | any | noneType | never | deleted | inst | typeVar | literal => exact .pure _
  | bracketed | argument | ellipsis => exact .always rfl
  | named ref =>
    refine reference_ends noHooks table light deeper (fun s read => bounds s fun binding member => ?_) (literals ref rfl) false
    rw [formSignature?_bindings read] at member
    cases member
  | callable s => exact signature_ends noHooks table parts (bounds s fun _ member => member)
  | tuple shape => exact tupleType_ends parts p
  | record shape =>
    have fields : ∀ field ∈ shape.fields, r.ExprEnds limit field.2 level.deeper :=
      fun field member => parts field.2 (List.mem_map_of_mem member)
    exact (fields_end fields p).andThen fun _ _ => .pure _
  | scalar value className note pos =>
    unfold scalarType
    dsimp only
    split
    · exact .always rfl
    · exact .pure _
  | star item pos => exact (parts item (List.mem_singleton_self _) p).andThen fun _ _ => .pure _
  | union members pos => exact (args_end parts p).andThen fun _ _ => .pure _
  | classObject item pos => exact (parts item (List.mem_singleton_self _) p).andThen fun _ _ => .pure _
  | forward fullname args pos => exact forwardType_ends table deeper parts p

end Forms

end Resolver

end TypeResolution
