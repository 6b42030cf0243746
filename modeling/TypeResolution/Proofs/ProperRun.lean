import TypeResolution.Proofs.ProperTypes

namespace TypeResolution

open Resolve

/-- All that a parameter of a literal stands for is proper, and it does stand for something. -/
def Resolver.ProperLiterals (r : Resolver) (found : Option (List Ty)) : Prop :=
  ∃ ts, found = some ts ∧ ∀ t ∈ ts, t.Everywhere r.Proper

/-- The recursive calls make proper types of proper types, or there is something to complain about. -/
structure Recursion.WarrantsProper (again : Recursion) (r : Resolver) : Prop where
  expr {t : Ty} (level : Nesting) : t.Everywhere r.Proper → Warrants (again.expr t level) (·.Everywhere r.Proper)
  literalName {ref : Reference} (level : Nesting) : (Ty.named ref).Everywhere r.Proper →
    Warrants (again.literalName ref level) (·.Everywhere r.Proper)
  literals (index : Nat) {t : Ty} (pos : Position) (level : Nesting) : t.Everywhere r.Proper →
    Warrants (again.literals index t pos level) r.ProperLiterals

namespace Resolver

variable {r : Resolver} {again : Recursion} [again.Steady]

section Parts

omit [again.Steady]

theorem omittedArguments_warrants (ref : Reference) : Warrants (r.omittedArguments ref) (·.Everywhere r.Proper) := by
  have reported := Warrants.reportAll (omittedAny r.disallowsOmitted ref.pos none ref.name).2
  refine reported.bind fun _ noErrors => .pure ?_
  rw [not_disallowed_of_noErrors noErrors]
  exact omitted_proper ref.pos

theorem fixArity_warrants {i : Instance} {fromAlias : Bool} {written : Option String}
    (sound : r.Proper (.inst i) ∨ r.FillsArguments i.head) (args : ∀ t ∈ i.args, t.Everywhere r.Proper) :
    Warrants (r.fixArity i fromAlias written) fun j => (Ty.inst j).Everywhere r.Proper := by
  have repaired (none : r.flags.definingAlias = false → NoErrors (fixInstance i r.disallowsOmitted fromAlias written).2) :=
    repaired_proper (r := r) sound args none
  unfold Resolver.repaired at repaired
  unfold fixArity
  split
  · rename_i definingAlias
    rw [if_pos definingAlias] at repaired
    refine .pure (repaired fun using_ => ?_)
    rw [definingAlias] at using_
    cases using_
  · rename_i using_
    rw [if_neg using_] at repaired
    exact (Warrants.reportAll _).bind fun _ noErrors => .pure (repaired fun _ => noErrors)

/-- Instances with arguments are proper, whatever their class. -/
theorem proper_or_fills {head : ClassHead} {args : List Ty} {pos : Position} (fills : args = [] → r.FillsArguments head) :
    r.Proper (.inst (.of head args pos)) ∨ r.FillsArguments head := by
  by_cases noArgs : args = []
  · exact .inr (fills noArgs)
  · exact .inl (proper_of_args noArgs)

theorem requiredInstance_warrants (fullname : String) (pos : Position) :
    Warrants (r.requiredInstance fullname pos) fun found => found.isSome := by
  unfold requiredInstance
  split
  · exact .pure rfl
  · split
    · exact .raiseFirst (by decide)
    · exact .reportFirst pos rfl

theorem literalOf_warrants (value : LiteralValue) (className : String) (pos : Position) :
    Warrants (r.literalOf value className pos) r.ProperLiterals := by
  rw [literalOf_eq]
  refine (requiredInstance_warrants _ pos).map fun found present => ?_
  obtain ⟨fallback, rfl⟩ := Option.isSome_iff_exists.1 present
  refine ⟨_, rfl, fun t member => ?_⟩
  rw [List.mem_singleton.1 member]
  exact Ty.everywhere_of_leaf rfl trivial

theorem noLiteral_warrants (pos : Position) {problem : Problem} (isError : problem.severity = .error) :
    Warrants (noLiteral pos problem) r.ProperLiterals := .reportFirst pos isError

end Parts

/-- If no arguments come of it, there were none. -/
theorem args_kept (ts : List Ty) (level : Nesting) : Warrants (again.args ts level) fun made => made = [] → ts = [] :=
  (Warrants.length_mapM (again.arg · level) ts).mono fun made same none => by
    rw [none] at same
    exact List.length_eq_zero_iff.1 same.symm

variable (proper : again.WarrantsProper r)

section Calls

include proper

omit [again.Steady] in
theorem arg_warrants {t : Ty} (given : t.Everywhere r.Proper) (level : Nesting) :
    Warrants (again.arg t level) (·.Everywhere r.Proper) := proper.expr level.deeper given

theorem args_warrants {ts : List Ty} (given : ∀ t ∈ ts, t.Everywhere r.Proper) (level : Nesting) :
    Warrants (again.args ts level) fun made => ∀ t ∈ made, t.Everywhere r.Proper :=
  Warrants.mapM fun t member => arg_warrants proper (given t member) level

theorem fields_warrants {fields : List (String × Ty)} (given : ∀ field ∈ fields, field.2.Everywhere r.Proper)
    (level : Nesting) :
    Warrants (again.fields fields level) fun made => ∀ t ∈ made.map Prod.snd, t.Everywhere r.Proper := by
  have each : Warrants (again.fields fields level) fun made => ∀ field ∈ made, field.2.Everywhere r.Proper :=
    Warrants.mapM fun field member => (arg_warrants proper (given field member) level).map fun _ made => made
  exact each.mono fun made all => List.forall_mem_map.2 all

end Calls

/-! Literals -/

section Literals

include proper

theorem literalsOf_warrants (index : Nat) {t : Ty} (given : t.Everywhere r.Proper) (pos : Position) (level : Nesting) :
    Warrants (r.literalsOf again index t pos level) r.ProperLiterals := by
  unfold literalsOf
  split
  · rename_i origin _ _
    have notError : origin ≠ .error ∧ origin ≠ .specialForm := given.root
    rw [if_neg (by simp [notError])]
    exact noLiteral_warrants pos rfl
  · exact literalOf_warrants _ _ _
  · dsimp only
    split
    · exact noLiteral_warrants pos rfl
    · exact noLiteral_warrants pos rfl
  · exact .pure ⟨_, rfl, by simpa using given⟩
  · exact .pure ⟨_, rfl, by simpa using given⟩
  · refine .pure ⟨_, rfl, fun t member => ?_⟩
    rw [List.mem_singleton.1 member]
    exact Ty.everywhere_of_leaf rfl trivial
  · exact Warrants.collectWhile fun member atMember => proper.literals index pos level (given.child atMember)
  · exact noLiteral_warrants pos rfl

theorem literals_warrants (index : Nat) {t : Ty} (given : t.Everywhere r.Proper) (pos : Position) (level : Nesting) :
    Warrants (r.literals again index t pos level) r.ProperLiterals := by
  unfold literals
  split
  · split
    · exact literalOf_warrants _ _ _
    · exact (proper.literalName level.deeper given).bind fun _ made => literalsOf_warrants proper index made pos level
  · exact literalsOf_warrants proper index given pos level

theorem literalForm_warrants {ref : Reference} (given : ∀ t ∈ ref.args, t.Everywhere r.Proper) (level : Nesting) :
    Warrants (r.literalForm again ref level) (·.Everywhere r.Proper) := by
  rw [literalForm_eq]
  split
  · exact .failAt _ rfl
  · have collected : Warrants (collectWhile (fun numbered => r.literals again numbered.2 numbered.1 ref.pos level)
        (ref.args.zipIdx 1)) r.ProperLiterals := by
      refine Warrants.collectWhile fun numbered member => ?_
      have inArgs : numbered.1 ∈ ref.args := List.fst_mem_of_mem_zipIdx member
      exact literals_warrants proper numbered.2 (given _ inArgs) ref.pos level
    refine collected.map ?_
    rintro _ ⟨ts, rfl, all⟩
    exact r.proper_ofMembers.makeUnion all ref.pos

end Literals

/-! Callables -/

omit [again.Steady] in
theorem ofItem_fails_loudly {item : Ty} (given : r.Proper item) : Parameter.ofItem r.table item ≠ .error none := by
  intro failed
  unfold Parameter.ofItem at failed
  split at failed
  · split at failed
    · cases given
    · repeat' split at failed
      all_goals cases failed
  · cases failed

omit [again.Steady] in
theorem ofItems_fails_loudly {items : List Ty} (given : ∀ t ∈ items, r.Proper t) {pos : Position}
    (unread : (Parameter.ofItems r.table items pos).1 = none) : (Parameter.ofItems r.table items pos).2 ≠ [] := by
  have loud : items.mapM (Parameter.ofItem r.table) ≠ .error none := fun failed => by
    obtain ⟨_, item, _, rfl, _, failed⟩ := first_of_mapM_error failed
    exact ofItem_fails_loudly (given item (List.mem_append_right _ List.mem_cons_self)) failed
  unfold Parameter.ofItems at unread ⊢
  split
  · rename_i report failed
    intro silent
    rw [failed] at loud
    exact loud (congrArg _ (Option.toList_eq_nil_iff.1 silent))
  · rename_i parameters read
    rw [read] at unread
    cases unread

omit [again.Steady] in
/-- Arguments of `Callable` that stand for no signature are reported. -/
theorem formReports_of_unread {ref : Reference} (given : ∀ t ∈ ref.args, t.Everywhere r.Proper)
    (unread : r.formSignature? ref = none) : ¬ NoErrors (r.formReports ref) := by
  intro noErrors
  have silent := noErrors.nil_of_onTheSide (r.formReports_onTheSide ref)
  unfold formReports at silent
  split at silent
  · rename_i atArgs
    simp [formSignature?, atArgs] at unread
  · rename_i items pos ret atArgs
    have list : (Ty.bracketed items pos).Everywhere r.Proper := given _ (by simp [atArgs])
    have notRead : (Parameter.ofItems r.table items pos).1 = none := by simpa [formSignature?, atArgs] using unread
    exact ofItems_fails_loudly (fun t member => (list.child member).root) notRead silent
  · rename_i atArgs
    simp [formSignature?, atArgs] at unread
  · cases silent
  · cases silent

section Callables

include proper

theorem signatureParts_warrants {s : Signature} (given : ∀ c ∈ (Ty.callable s).children, c.Everywhere r.Proper)
    (bindings : List TypeVarBinding) (level inner : Nesting) :
    Warrants (r.signatureParts again s bindings level inner) (·.Everywhere r.Proper) := by
  have args : Warrants (s.args.mapM fun t => again.expr t inner) fun made => ∀ t ∈ made, t.Everywhere r.Proper :=
    Warrants.mapM fun t member => proper.expr inner (given t (List.mem_append_left _ member))
  have ret := proper.expr inner (given s.ret (List.mem_append_right _ (List.mem_singleton_self _)))
  refine args.bind fun args inArgs => ret.bind fun ret atRet => .andThen fun bindings => .pure ?_
  refine Ty.everywhere_iff.2 ⟨trivial, fun c member => ?_⟩
  rcases List.mem_append.1 member with member | member
  · exact inArgs c member
  · rw [List.mem_singleton.1 member]
    exact atRet

theorem signature_warrants {s : Signature} (given : ∀ c ∈ (Ty.callable s).children, c.Everywhere r.Proper)
    (level inner : Nesting) : Warrants (r.signature again s level inner) (·.Everywhere r.Proper) := by
  rw [signature_within]
  exact .andThen fun _ => .andThen fun _ => .within _ (signatureParts_warrants proper given _ level inner)

theorem callableForm_warrants {ref : Reference} (given : ∀ t ∈ ref.args, t.Everywhere r.Proper) (level : Nesting) :
    Warrants (r.callableForm again ref level) (·.Everywhere r.Proper) := by
  rw [callableForm_eq]
  refine (Warrants.reportAll _).bind fun _ noErrors => ?_
  cases isForm : r.formSignature? ref with
  | none => exact absurd noErrors (formReports_of_unread given isForm)
  | some signature =>
    refine signature_warrants proper ?_ level level.deeper
    refine formSignature?_children isForm (fun noArgs => ?_) (any_proper (by decide) _ _)
      (fun _ _ atList _ member => atList.child member)
      (fun _ _ _ _ atArgument => atArgument.child (List.mem_singleton_self _)) given
    unfold formReports at noErrors
    rw [noArgs] at noErrors
    rw [not_disallowed_of_noErrors noErrors]
    exact omitted_proper ref.pos

end Callables

/-! Special forms -/

section SpecialForms

include proper

variable {ref : Reference} (given : ∀ t ∈ ref.args, t.Everywhere r.Proper) (level : Nesting)

include given

theorem tupleForm_warrants : Warrants (r.tupleForm again ref level) (·.Everywhere r.Proper) := by
  have ofClass (head : ClassHead) {item : Ty} (made : item.Everywhere r.Proper) :
      (Ty.inst (.of head [item] ref.pos)).Everywhere r.Proper := by
    refine Ty.everywhere_iff.2 ⟨proper_of_args (List.cons_ne_nil _ _), fun t member => ?_⟩
    rw [List.mem_singleton.1 member]
    exact made
  unfold tupleForm
  split
  · split
    · exact .raiseFirst (by decide)
    · exact .reportFirst _ rfl
  · rename_i decl _
    split
    · exact (omittedArguments_warrants ref).map fun _ made => ofClass decl.head made
    · rename_i item _ atArgs
      exact (arg_warrants proper (given item (by simp [atArgs])) level).map fun _ made => ofClass decl.head made
    · exact (args_warrants proper given level).map fun _ made => Ty.everywhere_iff.2 ⟨trivial, made⟩

theorem classObjectForm_warrants : Warrants (r.classObjectForm again ref level) (·.Everywhere r.Proper) := by
  unfold classObjectForm
  split
  · refine (omittedArguments_warrants ref).map fun filler made => Ty.everywhere_iff.2 ⟨trivial, fun t member => ?_⟩
    rw [List.mem_singleton.1 member]
    exact made
  · rename_i item others atArgs
    have only : Warrants (again.arg item level >>= fun item => pure (item.makeClassObject ref.pos)) (·.Everywhere r.Proper) :=
      (arg_warrants proper (given item (by simp [atArgs])) level).map fun _ made =>
        r.proper_ofMembers.makeClassObject made ref.pos
    split
    · exact .andThen fun _ => only
    · exact only

theorem classVarForm_warrants : Warrants (classVarForm again ref level) (·.Everywhere r.Proper) := by
  rw [classVarForm_eq]
  refine .andThen fun _ => ?_
  unfold classVarArgument
  split
  · exact .pure (omitted_proper ref.pos)
  · rename_i item atArgs
    refine (arg_warrants proper (given item (by simp [atArgs])) level).bind fun item made => ?_
    split
    · exact .pure made
    · exact .failAt _ rfl
  · exact .failAt _ rfl

theorem specialForm_warrants (form : SpecialForm) : Warrants (r.specialForm again form ref level) (·.Everywhere r.Proper) := by
  cases form with
  | noneType | noReturn => exact .pure (Ty.everywhere_of_leaf rfl trivial)
  | any => exact .pure (any_proper (by decide) _ _)
  | final => exact .failAt _ rfl
  | tuple => exact tupleForm_warrants proper given level
  | callable => exact callableForm_warrants proper given level
  | classObject => exact classObjectForm_warrants proper given level
  | classVar => exact classVarForm_warrants proper given level
  | literal => exact literalForm_warrants proper given level
  | union => exact (args_warrants proper given level).map fun _ made => r.proper_ofMembers.makeUnion made ref.pos
  | optional =>
    unfold specialForm
    dsimp only
    split
    · rename_i item atArgs
      exact (arg_warrants proper (given item (by simp [atArgs])) level).map fun _ made => r.proper_ofMembers.makeOptional made
    · exact .failAt _ rfl
  | annotated =>
    unfold specialForm
    dsimp only
    split
    · rename_i item _ _ atArgs
      exact arg_warrants proper (given item (by simp [atArgs])) level
    · exact .failAt _ rfl

end SpecialForms

/-! Definitions -/

omit [again.Steady] in
theorem bareResult_warrants (written : String) {head : ClassHead} {args : List Ty} (pos : Position)
    (given : ∀ v ∈ args, v.Everywhere r.Proper) (fills : args = [] → r.FillsArguments head) :
    Warrants (r.aliasResult written (.inst (.of head args pos))) (·.Everywhere r.Proper) :=
  (fixArity_warrants (proper_or_fills fills) given).map fun _ repaired => repaired

omit [again.Steady] in
theorem aliasResult_warrants (written : String) {t : Ty} (expanded : t.Everywhere r.Proper) :
    Warrants (r.aliasResult written t) (·.Everywhere r.Proper) := by
  cases t with
  | inst i =>
    have args : ∀ t ∈ i.args, t.Everywhere r.Proper := fun _ member => expanded.child member
    exact (fixArity_warrants (.inl expanded.root) args).map fun _ repaired => repaired
  | _ => exact .pure expanded

theorem noType_warrants (ref : Reference) (level : Nesting) {problem : Problem} (isError : problem.severity = .error)
    (notes : List Problem) : Warrants (noType again ref level problem notes) (·.Everywhere r.Proper) :=
  .andThen fun _ => .reportFirst ref.pos isError

theorem pendingType_warrants (decl : PendingDecl) (ref : Reference) (level : Nesting) :
    Warrants (r.pendingType again decl ref level) (·.Everywhere r.Proper) := by
  unfold pendingType
  split
  · exact .failAt _ rfl
  · split
    · refine .raiseFirst ?_
      split <;> decide
    · exact .raiseFirst (by decide)

theorem variableType_warrants (decl : VariableDecl) (fullname : String) (ref : Reference) (level : Nesting)
    (inLiteral : Bool) : Warrants (variableType again decl fullname ref level inLiteral) (·.Everywhere r.Proper) := by
  unfold variableType
  split
  · exact .pure (any_proper (by decide) _ _)
  · split
    · exact .pure (Ty.everywhere_of_leaf rfl trivial)
    · exact .failAt _ rfl
  · exact noType_warrants ref level rfl _

theorem typeVarType_warrants (fullname : String) {ref : Reference} (given : (Ty.named ref).Everywhere r.Proper)
    (level : Nesting) : Warrants (r.typeVarType again fullname ref level) (·.Everywhere r.Proper) := by
  have bound (binding : TypeVarBinding) : (Ty.typeVar binding ref.pos).Everywhere r.Proper :=
    Ty.everywhere_of_leaf rfl trivial
  rw [typeVarType_eq]
  refine .andThen fun s => ?_
  unfold variableFound
  split
  · split
    · exact .failAt _ rfl
    · split
      · exact .pure (bound _)
      · exact .andThen fun _ => .pure (bound _)
  · split
    · exact .pure given
    · exact noType_warrants ref level rfl _

section Definitions

variable (table : r.ProperTable)

include table proper

theorem classType_warrants {decl : ClassDecl} (holds : r.table.Holds (.classDef decl)) {args : List Ty}
    (given : ∀ t ∈ args, t.Everywhere r.Proper) (fills : args = [] → r.FillsArguments decl.head) (pos : Position)
    (level : Nesting) :
    Warrants (r.classType again decl args pos level) (·.Everywhere r.Proper) := by
  rw [classType_eq]
  split
  · exact (args_warrants proper given level).map fun _ made => Ty.everywhere_iff.2 ⟨trivial, made⟩
  · rw [classInstance_eq]
    refine ((args_warrants proper given level).both (args_kept args level)).bind fun resolved ⟨made, kept⟩ => ?_
    have sound : r.Proper (.inst (.of decl.head resolved pos)) ∨ r.FillsArguments decl.head :=
      proper_or_fills fun noArgs => fills (kept noArgs)
    refine (fixArity_warrants sound made).bind fun i repaired => ?_
    unfold classBase
    split
    · rename_i base _ atBase
      split
      · exact .failAt _ rfl
      · exact (args_warrants proper (table.tupleBase holds atBase) level).map fun _ items =>
          Ty.everywhere_iff.2 ⟨trivial, items⟩
    · rename_i base _ atBase
      split
      · exact .failAt _ rfl
      · exact (fields_warrants proper (table.recordBase holds atBase) level).map fun _ fields =>
          Ty.everywhere_iff.2 ⟨trivial, fields⟩
    · exact .pure repaired

theorem aliasType_warrants {decl : AliasDecl} (holds : r.table.Holds (.aliasDef decl)) (fullname : String)
    {ref : Reference} (given : ∀ t ∈ ref.args, t.Everywhere r.Proper)
    (fills : ref.args = [] → ∀ head, (Definition.aliasDef decl).instantiates? = some head → r.FillsArguments head)
    (level : Nesting) : Warrants (r.aliasType again decl fullname ref level) (·.Everywhere r.Proper) := by
  rw [aliasType_eq]
  refine .andThen fun _ => ((args_warrants proper given level).both (args_kept _ level)).bind fun args ⟨made, kept⟩ => ?_
  refine (Warrants.reportAll _).bind fun _ noErrors => ?_
  rcases expand_proper table holds made noErrors with ⟨head, ofAlias, expanded⟩ | expanded
  · have filled : args = [] → r.FillsArguments head := fun noArgs => fills (kept noArgs) head ofAlias
    rw [expanded]
    exact bareResult_warrants ref.name ref.pos made filled
  · exact aliasResult_warrants ref.name expanded

theorem definedType_warrants {ref : Reference} {symbol : Symbol} {d : Definition}
    (found : r.table.lookup ref.name = some symbol) (defined : symbol.definition = some d)
    (given : (Ty.named ref).Everywhere r.Proper) (level : Nesting) (inLiteral : Bool) :
    Warrants (r.definedType again d symbol.fullname ref level inLiteral) (·.Everywhere r.Proper) := by
  have holds := SymbolTable.holds_of_lookup found defined
  have parts : ∀ t ∈ ref.args, t.Everywhere r.Proper := fun t member => given.child member
  have fills : ref.args = [] → ∀ head, d.instantiates? = some head → r.FillsArguments head := by
    simpa [FillsAt, found, defined] using given.root.2
  cases d with
  | classDef decl => exact classType_warrants proper table holds parts (fun noArgs => fills noArgs _ rfl) ref.pos level
  | aliasDef decl => exact aliasType_warrants proper table holds _ parts fills level
  | variableDef decl => exact variableType_warrants decl _ ref level inLiteral
  | typeVarDef decl => exact typeVarType_warrants _ given level
  | pendingDef decl => exact pendingType_warrants decl ref level
  | moduleDef _ | functionDef _ | decoratorDef _ => exact noType_warrants ref level rfl _

theorem symbolType_warrants (noHooks : r.hooks = .empty) {ref : Reference} {symbol : Symbol} {d : Definition}
    (found : r.table.lookup ref.name = some symbol) (defined : symbol.definition = some d)
    (given : (Ty.named ref).Everywhere r.Proper) (level : Nesting) (inLiteral : Bool) :
    Warrants (r.symbolType again d symbol.fullname ref level inLiteral) (·.Everywhere r.Proper) := by
  have parts : ∀ t ∈ ref.args, t.Everywhere r.Proper := fun t member => given.child member
  have next (s : Scope) : Warrants (r.formOrDefined again d symbol.fullname ref level inLiteral s) (·.Everywhere r.Proper) := by
    unfold formOrDefined
    split
    · exact specialForm_warrants proper parts level _
    · exact definedType_warrants proper table found defined given level inLiteral
  rw [symbolType_eq noHooks]
  change Warrants (_ >>= fun _ => scope >>= r.formOrDefined again d symbol.fullname ref level inLiteral) _
  exact .andThen fun _ => .andThen next

theorem reference_warrants (noHooks : r.hooks = .empty) {ref : Reference} (given : (Ty.named ref).Everywhere r.Proper)
    (level : Nesting) (inLiteral : Bool) :
    Warrants (r.reference again ref level inLiteral) (·.Everywhere r.Proper) := by
  have plain : Warrants (r.plainReference again ref level inLiteral) (·.Everywhere r.Proper) := by
    obtain ⟨symbol, found⟩ : ∃ symbol, r.table.lookup ref.name = some symbol := Option.isSome_iff_exists.1 given.root.1
    unfold plainReference
    rw [found]
    dsimp only
    split
    · exact .reportFirst _ rfl
    · exact pendingType_warrants _ ref level
    · rename_i defined
      exact symbolType_warrants proper table noHooks found defined given level inLiteral
  refine plain.map fun resolved made => ?_
  split
  · exact r.proper_ofMembers.makeOptional made
  · exact made

end Definitions

/-! Expressions -/

theorem scalarProblem_severity (value : Option LiteralValue) (className : String) :
    (scalarProblem value className).severity = .error := by
  unfold scalarProblem
  repeat' split
  all_goals rfl

omit [again.Steady] in
theorem scalarType_warrants (reports : r.flags.reportInvalidTypes = true) (value : Option LiteralValue) (className : String)
    (note : Option String) (pos : Position) :
    Warrants (r.scalarType value className note pos) (·.Everywhere r.Proper) := by
  unfold scalarType
  rw [if_pos reports]
  exact .reportFirst pos (scalarProblem_severity value className)

section Expressions

variable (table : r.ProperTable)

include proper

theorem tupleType_warrants {shape : TupleShape} (given : ∀ t ∈ shape.items, t.Everywhere r.Proper) (level : Nesting) :
    Warrants (r.tupleType again shape level) (·.Everywhere r.Proper) := by
  unfold tupleType
  split
  · refine (Warrants.reportAll _).bind fun _ noErrors => ?_
    have bare := noErrors ⟨shape.pos, .bareTuple⟩ List.mem_cons_self
    cases bare
  · split
    · exact .reportFirst _ rfl
    · exact (args_warrants proper given level).map fun _ made => Ty.everywhere_iff.2 ⟨trivial, made⟩

include table

theorem forwardType_warrants (fullname : Option String) {args : List Ty} (given : ∀ t ∈ args, t.Everywhere r.Proper)
    (filled : r.FillsAt (fullname.bind r.table.find?) args) (pos : Position) (level : Nesting) :
    Warrants (r.forwardType again fullname args pos level) (·.Everywhere r.Proper) := by
  have toCome : Warrants (if r.table.finalPass then failAt pos (.unresolvedCycle ((fullname.map shortName).getD "?"))
      else do
        raise .deferred
        pure (.forward fullname args pos)) (·.Everywhere r.Proper) := by
    split
    · exact .failAt _ rfl
    · exact .raiseFirst (by decide)
  unfold forwardType
  split
  · rename_i decl defined
    have fills : args = [] → r.FillsArguments decl.head := fun noArgs => filled noArgs _ (by rw [defined]; rfl)
    obtain ⟨symbol, found, defined⟩ := Option.bind_eq_some_iff.1 defined
    obtain ⟨name, _, atName⟩ := Option.bind_eq_some_iff.1 found
    have holds : r.table.Holds (.classDef decl) := ⟨name, symbol, atName, defined⟩
    exact classType_warrants proper table holds given fills pos level
  · exact toCome
  · exact toCome
  · exact .failAt _ rfl

theorem expr_warrants (noHooks : r.hooks = .empty) (reports : r.flags.reportInvalidTypes = true) {t : Ty}
    (given : t.Everywhere r.Proper) (level : Nesting) : Warrants (r.expr again t level) (·.Everywhere r.Proper) := by
  rw [expr_eq]
  split
  · exact .failAt _ rfl
  have parts : ∀ c ∈ t.children, c.Everywhere r.Proper := fun c member => given.child member
  cases t with
  | named ref => exact reference_warrants proper table noHooks given level false
  | any | noneType | never | deleted | inst | typeVar | literal => exact .pure given
  | bracketed items pos =>
    refine (Warrants.reportAll _).bind fun _ noErrors => ?_
    have asType := noErrors ⟨pos, .bracketedAsType⟩ List.mem_cons_self
    cases asType
  | argument | ellipsis => exact .reportFirst _ rfl
  | callable s => exact signature_warrants proper parts level level.deeper
  | tuple shape => exact tupleType_warrants proper parts level
  | record shape =>
    have fields := fields_warrants proper (fun field member => parts field.2 (List.mem_map_of_mem member)) level
    exact fields.map fun _ made => Ty.everywhere_iff.2 ⟨trivial, made⟩
  | scalar value className note pos => exact scalarType_warrants reports value className note pos
  | star item pos =>
    refine (arg_warrants proper (parts item (List.mem_singleton_self _)) level).map fun item made => ?_
    refine Ty.everywhere_iff.2 ⟨trivial, fun t member => ?_⟩
    rw [List.mem_singleton.1 member]
    exact made
  | union members pos => exact (args_warrants proper parts level).map fun _ made => r.proper_ofMembers.makeUnion made pos
  | classObject item pos =>
    exact (arg_warrants proper (parts item (List.mem_singleton_self _)) level).map fun _ made =>
      r.proper_ofMembers.makeClassObject made pos
  | forward fullname args pos => exact forwardType_warrants proper table fullname parts given.root pos level

end Expressions

/-- However deep the recursion goes, what it makes of proper types without a complaint is proper. -/
theorem recursion_warrants (table : r.ProperTable) (noHooks : r.hooks = .empty) (reports : r.flags.reportInvalidTypes = true)
    (bound : Nat) : (r.recursion bound).WarrantsProper r := by
  induction bound with
  | zero => exact ⟨fun _ _ => .stuck, fun _ _ => .stuck, fun _ _ _ _ _ => .stuck⟩
  | succ bound ih =>
    exact ⟨fun level given => expr_warrants ih table noHooks reports given level,
      fun level given => reference_warrants ih table noHooks given level true,
      fun index _ pos level given => literals_warrants ih index given pos level⟩

end Resolver

end TypeResolution
