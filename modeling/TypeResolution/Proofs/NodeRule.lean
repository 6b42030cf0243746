import TypeResolution.Proofs.Expansion
import TypeResolution.Proofs.ReferenceRun

namespace TypeResolution

/-- The arguments after a repair are those before it, or nothing but `Any`. -/
theorem mem_fixInstance_args {i : Instance} {disallowAny fromAlias : Bool} {written : Option String} {t : Ty}
    (member : t ∈ (fixInstance i disallowAny fromAlias written).1.args) : t ∈ i.args ∨ t.isAny := by
  unfold fixInstance at member
  split at member
  · exact .inl member
  · split at member
    · rw [(List.mem_replicate.1 member).2]
      exact .inr (omittedAny_isAny _ _ _ _)
    · rw [(List.mem_replicate.1 member).2]
      exact .inr rfl

namespace Resolver

variable {r : Resolver} {P : Ty → Prop}

theorem repaired_head (i : Instance) (fromAlias : Bool) (written : Option String) :
    (r.repaired i fromAlias written).head = i.head := by
  unfold repaired fixInstance
  split
  · rfl
  · split
    · rfl
    · split <;> rfl

/-- What holds everywhere in the arguments of an instance holds everywhere in those of its repair. -/
theorem repaired_args_everywhere (nodes : Ty.OfNodes P) {i : Instance} {fromAlias : Bool} {written : Option String}
    (args : ∀ t ∈ i.args, t.Everywhere P) : ∀ t ∈ (r.repaired i fromAlias written).args, t.Everywhere P := by
  intro t member
  unfold repaired at member
  split at member
  · exact args t member
  · rcases mem_fixInstance_args member with member | isAny
    · exact args t member
    · exact nodes.everywhere_of_isAny isAny

/-- What holds everywhere in an expression holds everywhere in the parts that are read of it. -/
theorem Reads.everywhere (any : ∀ t : Ty, t.isAny → P t)
    (signatures : ∀ s : Signature, s.bindings = [] → P (.callable s)) : r.Reads fun _ t => t.Everywhere P where
  children _ all _ member := all.child member
  signature all _ member := all.child member
  form {s ref symbol signature} all found isForm read := by
    refine Ty.everywhere_iff.2 ⟨signatures signature (formSignature?_bindings read), ?_⟩
    exact formSignature?_parts read (fun t isAny => Ty.everywhere_of_leaf (Ty.children_of_isAny isAny) (any t isAny))
      (fun _ _ atList _ member => atList.child member) (fun _ _ _ _ atArgument => atArgument.child (by simp [Ty.children]))
      (fun _ member => all.child member)
  args all _ _ _ member := all.child member
  forward all _ _ member := all.child member

theorem ReadsBases.everywhere (any : ∀ t : Ty, t.isAny → P t)
    (signatures : ∀ s : Signature, s.bindings = [] → P (.callable s))
    (tupleBase : ∀ {s decl written base}, r.table.Holds (.classDef decl) →
      r.ReadsClass (fun _ t => t.Everywhere P) s decl written → decl.tupleBase = some base →
      ∀ t ∈ base.items, t.Everywhere P)
    (recordBase : ∀ {s decl written base}, r.table.Holds (.classDef decl) →
      r.ReadsClass (fun _ t => t.Everywhere P) s decl written → decl.recordBase = some base →
      ∀ field ∈ base.fields, field.2.Everywhere P) :
    r.ReadsBases fun _ t => t.Everywhere P where
  toReads := .everywhere any signatures
  tupleBase := tupleBase
  recordBase := recordBase

/-- When a property of single types holds everywhere in a result: in what is kept, and in the instances. -/
theorem Rule.ofNodes {In : Scope → Ty → Prop} (nodes : Ty.OfNodes P) (reads : r.ReadsBases In)
    (settled : ∀ {s t}, t.isSettled → In s t → t.Everywhere P)
    (forward : ∀ {s fullname args pos}, In s (.forward fullname args pos) →
      (∀ name ∈ fullname, r.table.findClass? name = none) → ∀ t ∈ args, t.Everywhere P)
    (freeVariable : ∀ {s ref symbol decl}, In s (.named ref) → r.table.lookup ref.name = some symbol →
      symbol.definition = some (.typeVarDef decl) → s.find? symbol.fullname = none → ∀ t ∈ ref.args, t.Everywhere P)
    (tupleInstance : ∀ {s ref decl item}, In s (.named ref) → r.table.findClass? "builtins.tuple" = some decl →
      item.Everywhere P → (Ty.inst (.of decl.head [item] ref.pos)).Everywhere P)
    (classInstance : ∀ {s decl written args} (pos : Position), r.table.Holds (.classDef decl) →
      r.ReadsClass In s decl written → args.length = written.length → (∀ t ∈ args, t.Everywhere P) →
      (Ty.inst (r.repaired (.of decl.head args pos) false none)).Everywhere P)
    (expansion : ∀ {s decl ref args t}, r.UsesAlias ref decl → In s (.named ref) →
      args.length = ref.args.length → (∀ t ∈ args, t.Everywhere P) → decl.Expansion args ref.pos t →
      (r.repairedRoot ref.name t).Everywhere P) :
    r.Rule In fun _ _ t => t.Everywhere P where
  reads := reads.toReads
  widen _ _ _ made := made
  keepSettled := settled
  keepForward given notClass _ _ := Ty.everywhere_iff.2 ⟨nodes.other rfl rfl, forward given notClass⟩
  keepVariable given found _ defined free _ :=
    Ty.everywhere_iff.2 ⟨nodes.other rfl rfl, freeVariable given found defined free⟩
  makeAny _ _ _ := nodes.everywhere_of_isAny rfl
  makeNone _ := Ty.everywhere_of_leaf rfl (nodes.other rfl rfl)
  makeNever _ := Ty.everywhere_of_leaf rfl (nodes.other rfl rfl)
  makeLiteral _ := Ty.everywhere_of_leaf rfl (nodes.other rfl rfl)
  makeVariable _ _ := Ty.everywhere_of_leaf rfl (nodes.other rfl rfl)
  makeUnion pos all := nodes.ofMembers.makeUnion all pos
  makeOptional all := nodes.ofMembers.makeOptional all
  makeClassObject pos all := nodes.ofMembers.makeClassObject all pos
  makeStar _ all := Ty.everywhere_iff.2 ⟨nodes.other rfl rfl, by simpa [Ty.children] using all⟩
  makeTuple _ _ _ all := Ty.everywhere_iff.2 ⟨nodes.other rfl rfl, all⟩
  makeRecord _ _ _ all := by
    refine Ty.everywhere_iff.2 ⟨nodes.other rfl rfl, fun t member => ?_⟩
    obtain ⟨field, atField, rfl⟩ := List.mem_map.1 member
    exact all field atField
  makeTupleBase _ _ holds given atBase made :=
    Ty.everywhere_iff.2 ⟨nodes.other rfl rfl, made (reads.tupleBase holds given atBase)⟩
  makeRecordBase _ _ holds given atBase made := by
    refine Ty.everywhere_iff.2 ⟨nodes.other rfl rfl, fun t member => ?_⟩
    obtain ⟨field, atField, rfl⟩ := List.mem_map.1 member
    exact made (reads.recordBase holds given atBase) field atField
  makeCallable _ _ _ all := Ty.everywhere_iff.2 ⟨nodes.other rfl rfl, all⟩
  makeForward _ _ _ _ all := Ty.everywhere_iff.2 ⟨nodes.other rfl rfl, all⟩
  makeName _ _ _ _ _ _ _ all := Ty.everywhere_iff.2 ⟨nodes.other rfl rfl, all⟩
  makeTupleInstance := tupleInstance
  makeInstance := classInstance
  makeAlias uses given sameNumber all := expansion uses given sameNumber all (AliasDecl.expand_expansion _ _ _ _ _)

end Resolver

end TypeResolution
