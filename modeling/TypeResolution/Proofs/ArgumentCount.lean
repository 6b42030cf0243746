import TypeResolution.Proofs.NodeRule
import TypeResolution.Proofs.Prelude

namespace TypeResolution

/-- An instance has as many arguments as its class has type variables. -/
def Ty.RightCount : Ty → Prop
  | .inst i => i.hasExpectedArity
  | _ => True

theorem Ty.rightCount_ofNodes : Ty.OfNodes Ty.RightCount where
  inst {i j} sameHead sameNumber counted := by
    simp only [RightCount, Instance.hasExpectedArity, beq_iff_eq] at counted ⊢
    rw [sameHead, sameNumber, counted]
  union _ _ := trivial
  move _ _ := trivial
  other {t} notInstance _ := by
    cases t <;> trivial

/-- What is asked of a table: `tuple` has one type variable, and the instances in the targets of aliases and in
the bases of classes have the right number of arguments, except that the target itself may have a wrong one. -/
structure SymbolTable.RightCounts (table : SymbolTable) : Prop where
  tuple {decl : ClassDecl} : table.findClass? "builtins.tuple" = some decl → decl.head.arity = 1
  target {decl : AliasDecl} : table.Holds (.aliasDef decl) →
    ∀ c ∈ decl.target.children, c.Everywhere Ty.RightCount
  tupleBase {decl : ClassDecl} {base : TupleShape} : table.Holds (.classDef decl) →
    decl.tupleBase = some base → ∀ t ∈ base.items, t.Everywhere Ty.RightCount
  recordBase {decl : ClassDecl} {base : RecordShape} : table.Holds (.classDef decl) →
    decl.recordBase = some base → ∀ field ∈ base.fields, field.2.Everywhere Ty.RightCount

theorem SymbolTable.rightCounts_withPrelude (module : String) : (withPrelude module).RightCounts where
  tuple found := by
    unfold findClass? at found
    split at found
    · rename_i decl defined
      obtain ⟨symbol, atName, atSymbol⟩ := Option.bind_eq_some_iff.1 defined
      obtain ⟨d, member, rfl, named⟩ := find?_withPrelude atName
      cases atSymbol
      cases found
      exact Prelude.arity_tuple member named
    · cases found
  target holds := by
    obtain ⟨_, _, _, rfl⟩ := Prelude.aliasDef_mem (holds_withPrelude holds)
    intro c member
    cases member
  tupleBase holds atBase := by
    rw [(Prelude.noBases (holds_withPrelude holds)).1] at atBase
    cases atBase
  recordBase holds atBase := by
    rw [(Prelude.noBases (holds_withPrelude holds)).2] at atBase
    cases atBase

theorem fixInstance_hasExpectedArity (i : Instance) (disallowAny fromAlias : Bool) (written : Option String) :
    (fixInstance i disallowAny fromAlias written).1.hasExpectedArity := by
  unfold fixInstance
  split
  · assumption
  · split
    · simp [Instance.hasExpectedArity]
    · simp [Instance.hasExpectedArity]

namespace Resolver

variable {r : Resolver}

/-- After its repair, an instance whose arguments are right is right everywhere. -/
theorem repaired_rightCount (using_ : r.flags.definingAlias = false) {i : Instance} (fromAlias : Bool)
    (written : Option String) (args : ∀ t ∈ i.args, t.Everywhere Ty.RightCount) :
    (Ty.inst (r.repaired i fromAlias written)).Everywhere Ty.RightCount := by
  refine Ty.everywhere_iff.2 ⟨?_, fun t member => ?_⟩
  · unfold repaired
    rw [using_]
    exact fixInstance_hasExpectedArity i r.disallowsOmitted fromAlias written
  · exact repaired_args_everywhere Ty.rightCount_ofNodes args t member

theorem repairedRoot_rightCount (using_ : r.flags.definingAlias = false) (written : String) {t : Ty}
    (below : ∀ c ∈ t.children, c.Everywhere Ty.RightCount) :
    (r.repairedRoot written t).Everywhere Ty.RightCount := by
  cases t with
  | inst i => exact repaired_rightCount using_ true (some written) below
  | _ => exact Ty.everywhere_iff.2 ⟨trivial, below⟩

/-- An expression whose own instances are right is read in parts whose instances are right. -/
theorem reads_rightCount (right : r.table.RightCounts) : r.ReadsBases fun _ t => t.Everywhere Ty.RightCount :=
  .everywhere (fun _ isAny => (Ty.rightCount_ofNodes.everywhere_of_isAny isAny).root) (fun _ _ => trivial)
    (fun holds _ atBase => right.tupleBase holds atBase) (fun holds _ atBase => right.recordBase holds atBase)

/-- Instances are made with the right number of arguments: by a repair, or because the class `tuple` has one
type variable. -/
theorem rule_rightCount (using_ : r.flags.definingAlias = false) (right : r.table.RightCounts) :
    r.Rule (fun _ t => t.Everywhere Ty.RightCount) fun _ _ t => t.Everywhere Ty.RightCount := by
  refine .ofNodes Ty.rightCount_ofNodes (reads_rightCount right) (fun _ all => all)
    (fun all _ t member => all.child member) (fun all _ _ _ t member => all.child member) ?_ ?_ ?_
  · intro s ref decl item _ found made
    refine Ty.everywhere_iff.2 ⟨?_, ?_⟩
    · simp [Ty.RightCount, Instance.hasExpectedArity, Instance.of, right.tuple found]
    · simpa [Ty.children, Instance.of] using made
  · intro s decl written args pos _ _ _ made
    exact repaired_rightCount using_ false none made
  · intro s decl ref args t uses _ _ made expanded
    exact repairedRoot_rightCount using_ ref.name (expanded.below Ty.rightCount_ofNodes (right.target uses.holds) made)

end Resolver

/-- Whatever is written, and however a class is reached, an instance that comes out of resolution has as many
arguments as its class has type variables. -/
theorem Resolver.resolution_rightCount {r : Resolver} (noHooks : r.hooks = .empty)
    (using_ : r.flags.definingAlias = false) (right : r.table.RightCounts) {p q : Progress} {result : Resolution} :
    (∀ t : Ty, t.Everywhere Ty.RightCount → r.resolve t p = some (result, q) →
      result.type.Everywhere Ty.RightCount) ∧
    (∀ s : Signature, (Ty.callable s).Everywhere Ty.RightCount → r.resolveSignature s p = some (result, q) →
      result.type.Everywhere Ty.RightCount) := by
  have rule := rule_rightCount using_ right
  constructor
  · intro t given ran
    obtain ⟨_, _, _, _, _, made⟩ := resolve_made rule noHooks ran given
    exact made
  · intro s given ran
    obtain ⟨_, _, _, _, _, made⟩ := resolveSignature_made rule noHooks ran given
    exact made

/-- `List[dict]`, where the dictionary is given two arguments. -/
theorem Resolver.resolution_rightCount_nested :
    ∃ result q, (ofPrelude "m").resolve (.named (.of "typing.List" [.named (.of "dict" [])])) (.start .root) =
      some (result, q) ∧ result.type.Everywhere Ty.RightCount := by
  have ends : ((ofPrelude "m").resolve (.named (.of "typing.List" [.named (.of "dict" [])])) (.start .root)).isSome :=
    rfl
  obtain ⟨⟨result, q⟩, ran⟩ := Option.isSome_iff_exists.1 ends
  have given : (Ty.named (.of "typing.List" [.named (.of "dict" [])])).Everywhere Ty.RightCount := by
    refine Ty.everywhere_iff.2 ⟨trivial, fun c member => ?_⟩
    rw [List.mem_singleton.1 member]
    exact Ty.everywhere_of_leaf rfl trivial
  exact ⟨result, q, ran, (resolution_rightCount rfl rfl (SymbolTable.rightCounts_withPrelude "m")).1 _ given ran⟩

end TypeResolution
