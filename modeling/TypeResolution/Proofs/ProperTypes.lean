import TypeResolution.Proofs.AliasDepth
import TypeResolution.Proofs.Inherited
import TypeResolution.Proofs.Warrants

namespace TypeResolution

/-- What the alias means may be one of the arguments that it is given: it stands for a formal, or for a union, of which one
member may be left. -/
def AliasDecl.mayBeArgument (a : AliasDecl) : Bool :=
  !a.formals.isEmpty && (a.target.isUnion || a.target.formalName?.any fun name => decide (name ∈ a.formals))

/-- The class that instances are made of where this is used. -/
def Definition.instantiates? : Definition → Option ClassHead
  | .classDef decl => some decl.head
  | .aliasDef decl => if decl.formals.isEmpty && decl.isBare then decl.targetClass? else none
  | _ => none

/-- A flexible alias without arguments, which stands for nothing. -/
def Instance.Hollow (i : Instance) : Prop := i.head.fullname = flexibleAlias ∧ i.args = []

namespace Resolver

variable {r : Resolver}

/-- There is an alias that may turn out to be one of its arguments. -/
def PassesArguments (r : Resolver) : Prop := ∃ decl, r.table.Holds (.aliasDef decl) ∧ decl.mayBeArgument

/-- Instances of the class are given arguments where none are written, if it matters. -/
def FillsArguments (r : Resolver) (head : ClassHead) : Prop :=
  r.PassesArguments → head.fullname = flexibleAlias → r.flags.definingAlias = false ∧ head.arity ≠ 0

/-- What is made with these arguments where the symbol is used is not left without any, if it matters. -/
def FillsAt (r : Resolver) (symbol : Option Symbol) (args : List Ty) : Prop :=
  args = [] → ∀ head, (symbol.bind (·.definition)).bind Definition.instantiates? = some head → r.FillsArguments head

/-- Nothing is wrong with a type itself: it is no `Any` for an error or for a name without a meaning, if it is a name the
table knows it, if it is a parameter in the form of a call it names its form, and it neither is nor becomes a flexible alias
without arguments that something else may turn out to be. -/
def Proper (r : Resolver) : Ty → Prop
  | .any origin _ _ => origin ≠ .error ∧ origin ≠ .specialForm
  | .named ref => (r.table.lookup ref.name).isSome ∧ r.FillsAt (r.table.lookup ref.name) ref.args
  | .argument _ _ form _ => form.isSome
  | .inst i => r.PassesArguments → ¬ i.Hollow
  | .forward fullname args _ => r.FillsAt (fullname.bind r.table.find?) args
  | _ => True

/-- All types that are read in the table are proper, the formals in the targets of aliases apart. -/
structure ProperTable (r : Resolver) : Prop where
  target {decl : AliasDecl} : r.table.Holds (.aliasDef decl) → decl.TargetAllows r.Proper
  notHollow {decl : AliasDecl} {i : Instance} : r.table.Holds (.aliasDef decl) → decl.target = .inst i → ¬ i.Hollow
  tupleBase {decl : ClassDecl} {base : TupleShape} : r.table.Holds (.classDef decl) → decl.tupleBase = some base →
    ∀ t ∈ base.items, t.Everywhere r.Proper
  recordBase {decl : ClassDecl} {base : RecordShape} : r.table.Holds (.classDef decl) → decl.recordBase = some base →
    ∀ field ∈ base.fields, field.2.Everywhere r.Proper

theorem proper_of_args {i : Instance} (given : i.args ≠ []) : r.Proper (.inst i) := fun _ hollow => given hollow.2

theorem any_proper {origin : AnyOrigin} (harmless : origin ≠ .error ∧ origin ≠ .specialForm) (missing : Option String)
    (pos : Position) : (Ty.any origin missing pos).Everywhere r.Proper := Ty.everywhere_of_leaf rfl harmless

theorem omitted_proper (pos : Position) : (Ty.anyAt .omittedArguments pos).Everywhere r.Proper :=
  any_proper (by decide) none pos

theorem proper_ofMembers (r : Resolver) : Ty.OfMembers (·.Everywhere r.Proper) where
  never _ := Ty.everywhere_of_leaf rfl trivial
  noneType _ := Ty.everywhere_of_leaf rfl trivial
  union _ _ all := Ty.everywhere_iff.2 ⟨trivial, all⟩
  member all _ member := all.child member
  classObject _ _ all := by
    refine Ty.everywhere_iff.2 ⟨trivial, fun c member => ?_⟩
    rw [List.mem_singleton.1 member]
    exact all

theorem proper_withPos {t : Ty} (proper : r.Proper t) (pos : Position) : r.Proper (t.withPos pos) := by
  cases t <;> exact proper

theorem proper_withChildren {t : Ty} (proper : r.Proper t) {cs : List Ty} (sameLength : cs.length = t.children.length) :
    r.Proper (t.withChildren cs) := by
  have none_of_none (noneLeft : cs = []) : t.children = [] := by
    rw [noneLeft] at sameLength
    exact List.length_eq_zero_iff.1 sameLength.symm
  cases t with
  | inst i =>
    rintro passes ⟨flexible, noArgs⟩
    exact proper passes ⟨flexible, none_of_none noArgs⟩
  | named ref => exact ⟨proper.1, fun noArgs => proper.2 (none_of_none noArgs)⟩
  | forward fullname args pos => exact fun noArgs => proper (none_of_none noArgs)
  | _ => exact proper

theorem rebuild_proper {t : Ty} (proper : r.Proper t) {cs : List Ty} (sameLength : cs.length = t.children.length)
    (all : ∀ c ∈ cs, c.Everywhere r.Proper) : (t.rebuild cs).Everywhere r.Proper := by
  cases t using Ty.unionCases with
  | union ms pos => exact r.proper_ofMembers.makeUnion all pos
  | other t notUnion =>
    rw [Ty.rebuild_of_not_union notUnion]
    refine Ty.everywhere_iff.2 ⟨proper_withChildren proper sameLength, ?_⟩
    rwa [Ty.children_withChildren t cs sameLength]

theorem everywhere_proper_withPos {t : Ty} (all : t.Everywhere r.Proper) (pos : Position) :
    (t.withPos pos).Everywhere r.Proper :=
  all.moved (proper_withPos all.root pos)

/-- Where proper types are substituted for all that is not proper, all is. -/
theorem replaceFormals_proper {formals : List String} {values : List Ty} {pos : Position}
    (given : ∀ v ∈ values, v.Everywhere r.Proper) {t : Ty}
    (all : t.Everywhere fun x => r.Proper x ∨ (substitute? formals values x).isSome) :
    (replaceFormals formals values pos t).Everywhere r.Proper := by
  induction t using Ty.inductionOn with
  | step t ih =>
    rw [replaceFormals_eq]
    split
    · rename_i value found
      exact given value (mem_of_substitute? found)
    · rename_i kept
      have proper : r.Proper t := all.root.resolve_right fun isFormal => by
        rw [kept] at isFormal
        cases isFormal
      split
      · rename_i leaf
        exact Ty.everywhere_of_leaf (List.isEmpty_iff.1 leaf) proper
      · have parts : ∀ c ∈ t.children.map (replaceFormals formals values pos), c.Everywhere r.Proper := by
          intro c member
          obtain ⟨source, atChild, rfl⟩ := List.mem_map.1 member
          exact ih source atChild (all.child atChild)
        exact everywhere_proper_withPos (rebuild_proper proper (List.length_map _) parts) pos

/-- What an instance in a target becomes is no hollow one if the target is not. -/
theorem replaceFormals_notHollow {a : AliasDecl} {values : List Ty} {pos : Position} (generic : a.formals ≠ [])
    (fixed : a.mayBeArgument = false) (notHollow : ∀ i, a.target = .inst i → ¬ i.Hollow) {j : Instance}
    (made : replaceFormals a.formals values pos a.target = .inst j) : ¬ j.Hollow := by
  have someFormals : a.formals.isEmpty = false := by simp [generic]
  have notUnion : a.target.isUnion = false := by
    cases isUnion : a.target.isUnion with
    | false => rfl
    | true => simp [AliasDecl.mayBeArgument, someFormals, isUnion] at fixed
  have kept : substitute? a.formals values a.target = none := by
    unfold substitute?
    cases atName : a.target.formalName? with
    | none => rfl
    | some name =>
      have notFormal : name ∉ a.formals := by simpa [AliasDecl.mayBeArgument, someFormals, notUnion, atName] using fixed
      simp [List.idxOf?_eq_none_iff.2 notFormal]
  rw [replaceFormals_eq, kept] at made
  dsimp only at made
  split at made
  · exact notHollow j made
  · rw [Ty.rebuild_of_not_union notUnion] at made
    cases atTarget : a.target with
    | inst i =>
      rw [atTarget] at made
      cases made
      rintro ⟨flexible, noArgs⟩
      exact notHollow i atTarget ⟨flexible, List.map_eq_nil_iff.1 noArgs⟩
    | _ =>
      rw [atTarget] at made
      cases made

end Resolver

/-! What is made where there is nothing to complain about. -/

theorem not_disallowed_of_noErrors {disallowed : Bool} {pos : Position} {fullname : Option String} {description : String}
    (none : NoErrors (omittedAny disallowed pos fullname description).2) : disallowed = false := by
  have silent := none.nil_of_onTheSide (omittedAny_onTheSide _ _ _ _)
  cases disallowed with
  | false => rfl
  | true => cases silent

/-- Where there is no complaint, an instance is kept, or it is given arguments in place of none. -/
theorem fixInstance_of_noErrors {i : Instance} {disallowAny fromAlias : Bool} {written : Option String}
    (none : NoErrors (fixInstance i disallowAny fromAlias written).2) :
    (i.args.length = i.head.arity ∧ (fixInstance i disallowAny fromAlias written).1 = i) ∨
      (i.args = [] ∧ (fixInstance i disallowAny fromAlias written).1 =
        { i with args := List.replicate i.head.arity (.anyAt .omittedArguments i.pos) }) := by
  have silent := none.nil_of_onTheSide (fixInstance_onTheSide _ _ _ _)
  unfold fixInstance at none silent ⊢
  split
  · rename_i expected
    exact .inl ⟨by simpa [Instance.hasExpectedArity] using expected, rfl⟩
  · rename_i unexpected
    rw [if_neg unexpected] at none silent
    split
    · rename_i noArgs
      rw [if_pos noArgs] at none
      rw [not_disallowed_of_noErrors none]
      exact .inr ⟨List.isEmpty_iff.1 noArgs, rfl⟩
    · rename_i wrong
      rw [if_neg wrong] at silent
      cases silent

theorem substitute_of_noErrors {t : Ty} {formals : List String} {values : List Ty} {pos : Position}
    (none : NoErrors (substitute t formals values pos).2) :
    (substitute t formals values pos).1 = replaceFormals formals values pos t := by
  have silent := none.nil_of_onTheSide (substitute_onTheSide _ _ _ _)
  unfold substitute at silent ⊢
  refine substituteAt_uncut ?_
  cases cut : (substituteAt formals values pos t 0).2 with
  | false => rfl
  | true => simp [cut] at silent

theorem substituteAny_of_noErrors {t : Ty} {formals : List String} {pos : Position} {disallowAny : Bool}
    {written : Option String} (none : NoErrors (substituteAny t formals pos false disallowAny written).2) :
    (substituteAny t formals pos false disallowAny written).1 =
      replaceFormals formals (List.replicate formals.length (.anyAt .omittedArguments pos)) pos t := by
  have silent := none.nil_of_onTheSide (substituteAny_onTheSide _ _ _ _ _ _)
  unfold substituteAny at none silent ⊢
  cases disallowAny with
  | false => exact substitute_of_noErrors fun report member => none report (List.mem_append_right _ member)
  | true => cases silent

/-- What an alias means where there is no complaint. -/
theorem AliasDecl.expand_of_noErrors {a : AliasDecl} {args : List Ty} {pos : Position} {written : Option String}
    {disallowAny : Bool} (none : NoErrors (a.expand args pos written disallowAny).2) :
    (∃ head, (Definition.aliasDef a).instantiates? = some head ∧
        (a.expand args pos written disallowAny).1 = .inst (.of head args pos)) ∨
      (a.formals = [] ∧ (a.expand args pos written disallowAny).1 = a.target) ∨
      (∃ values, values.length = a.formals.length ∧ (∀ v ∈ values, v = .anyAt .omittedArguments pos) ∧
        (a.expand args pos written disallowAny).1 = replaceFormals a.formals values pos a.target) ∨
      (a.formals ≠ [] ∧ args.length = a.formals.length ∧
        (a.expand args pos written disallowAny).1 = openFlexible (replaceFormals a.formals args pos a.target)) := by
  have silent := none.nil_of_onTheSide (a.expand_onTheSide _ _ _ _)
  cases args with
  | nil =>
    by_cases generic : a.formals = []
    · unfold expand
      rw [generic]
      dsimp only
      split
      · rename_i head isBare atClass
        exact .inl ⟨head, by simp [Definition.instantiates?, generic, isBare, atClass], rfl⟩
      · exact .inr (.inl ⟨rfl, rfl⟩)
    · rw [expand_omitted generic] at none ⊢
      refine .inr (.inr (.inl ⟨_, List.length_replicate, fun v member => ?_, substituteAny_of_noErrors none⟩))
      exact (List.mem_replicate.1 member).2
  | cons arg args =>
    by_cases number : (arg :: args).length = a.formals.length
    · have generic : a.formals ≠ [] := by
        intro noFormals
        rw [noFormals] at number
        cases number
      rw [expand_applied generic number] at none ⊢
      exact .inr (.inr (.inr ⟨generic, number, by rw [substitute_of_noErrors none]⟩))
    · rw [expand_cons] at silent ⊢
      split at silent
      · rename_i head noFormals isBare atClass
        exact .inl ⟨head, by simp [Definition.instantiates?, noFormals, isBare, atClass], rfl⟩
      · rw [if_neg number] at silent
        cases silent

namespace Resolver

variable {r : Resolver}

/-- A repair without a complaint leaves an instance proper, or makes it so. -/
theorem repaired_proper {i : Instance} {fromAlias : Bool} {written : Option String}
    (sound : r.Proper (.inst i) ∨ r.FillsArguments i.head) (args : ∀ t ∈ i.args, t.Everywhere r.Proper)
    (none : r.flags.definingAlias = false → NoErrors (fixInstance i r.disallowsOmitted fromAlias written).2) :
    (Ty.inst (r.repaired i fromAlias written)).Everywhere r.Proper := by
  unfold repaired
  split
  · rename_i definingAlias
    refine Ty.everywhere_iff.2 ⟨?_, args⟩
    rintro passes hollow
    rcases sound with proper | fills
    · exact proper passes hollow
    · rw [(fills passes hollow.1).1] at definingAlias
      cases definingAlias
  · rename_i using_
    rcases fixInstance_of_noErrors (none (Bool.eq_false_iff.2 using_)) with ⟨expected, kept⟩ | ⟨noArgs, filled⟩
    · rw [kept]
      refine Ty.everywhere_iff.2 ⟨?_, args⟩
      rintro passes hollow
      rcases sound with proper | fills
      · exact proper passes hollow
      · refine (fills passes hollow.1).2 ?_
        rw [← expected, hollow.2]
        rfl
    · rw [filled]
      refine Ty.everywhere_iff.2 ⟨?_, fun t member => ?_⟩
      · rintro passes ⟨flexible, hollow⟩
        have noVariables : i.head.arity = 0 := (List.replicate_eq_nil_iff _).1 hollow
        rcases sound with proper | fills
        · exact proper passes ⟨flexible, noArgs⟩
        · exact (fills passes flexible).2 noVariables
      · rw [(List.mem_replicate.1 member).2]
        exact omitted_proper i.pos

/-- What an alias means with proper arguments, if there is nothing to complain about, is proper, or it is an instance of its
class with the arguments. -/
theorem expand_proper (table : r.ProperTable) {a : AliasDecl} (holds : r.table.Holds (.aliasDef a)) {args : List Ty}
    (given : ∀ v ∈ args, v.Everywhere r.Proper) {pos : Position} {written : Option String} {disallowAny : Bool}
    (none : NoErrors (a.expand args pos written disallowAny).2) :
    (∃ head, (Definition.aliasDef a).instantiates? = some head ∧
        (a.expand args pos written disallowAny).1 = .inst (.of head args pos)) ∨
      (a.expand args pos written disallowAny).1.Everywhere r.Proper := by
  have allowed := table.target holds
  rcases AliasDecl.expand_of_noErrors none with bare | ⟨noFormals, made⟩ | ⟨values, sameNumber, fillers, made⟩ |
    ⟨generic, sameNumber, made⟩
  · exact .inl bare
  · rw [made]
    exact .inr (allowed.whole noFormals)
  · have proper : ∀ v ∈ values, v.Everywhere r.Proper := fun v member => fillers v member ▸ omitted_proper pos
    rw [made]
    exact .inr (replaceFormals_proper proper (allowed.substituted sameNumber))
  · have whole : (replaceFormals a.formals args pos a.target).Everywhere r.Proper :=
      replaceFormals_proper given (allowed.substituted sameNumber)
    rw [made]
    refine .inr ?_
    unfold AliasDecl.openFlexible
    split
    · rename_i i atRoot
      rw [atRoot] at whole
      split
      · rename_i flexible
        have notHollow : ¬ i.Hollow := by
          cases fixed : a.mayBeArgument with
          | true => exact whole.root ⟨a, holds, fixed⟩
          | false => exact replaceFormals_notHollow generic fixed (fun _ => table.notHollow holds) atRoot
        cases last : i.args.getLast? with
        | none => exact absurd ⟨by simpa using flexible, List.getLast?_eq_none_iff.1 last⟩ notHollow
        | some t => exact whole.child (List.mem_of_getLast? last)
      · exact whole
    · exact whole

end Resolver

end TypeResolution
