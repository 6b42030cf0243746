import TypeResolution.Proofs.NodeRule

namespace TypeResolution

namespace Ty

/-- The forms that are made of parts in whatever scope they stand; no union is made of nothing. -/
def isComposed : Ty → Bool
  | .any .. | .noneType _ | .never .. | .literal _ | .inst _ | .tuple _ | .record _ | .classObject .. | .star .. => true
  | .union ms _ => !ms.isEmpty
  | _ => false

/-- A property `H` that a type has if its parts have it and its own form is one that `Q` allows. -/
structure Inherited (Q H : Ty → Prop) : Prop where
  composed {t : Ty} : t.isComposed → Q t
  rebuilt {t : Ty} (cs : List Ty) : t.isUnion = false → Q t → Q (t.withChildren cs)
  node {t : Ty} : Q t → (∀ c ∈ t.children, H c) → H t
  part {t c : Ty} : t.isUnion || t.isInstance → H t → c ∈ t.children → H c
  move {t : Ty} (pos : Position) : H t → H (t.withPos pos)

namespace Inherited

/-- A type has `P` everywhere if its parts do and its own form is one that `Q` allows. -/
theorem everywhere {Q P : Ty → Prop} (weaken : ∀ {t}, Q t → P t) (composed : ∀ {t : Ty}, t.isComposed → Q t)
    (rebuilt : ∀ {t : Ty} (cs : List Ty), Q t → Q (t.withChildren cs))
    (moved : ∀ {t : Ty} (pos : Position), P t → P (t.withPos pos)) : Inherited Q (Everywhere P) where
  composed := composed
  rebuilt cs _ := rebuilt cs
  node atRoot parts := everywhere_iff.2 ⟨weaken atRoot, parts⟩
  part _ all member := all.child member
  move pos all := all.moved (moved pos all.root)

variable {Q H : Ty → Prop} (inherited : Inherited Q H)

include inherited

theorem compose {t : Ty} (composed : t.isComposed) (parts : ∀ c ∈ t.children, H c) : H t :=
  inherited.node (inherited.composed composed) parts

theorem leaf {t : Ty} (composed : t.isComposed) (noParts : t.children = []) : H t :=
  inherited.compose composed (by simp [noParts])

theorem any {t : Ty} (isAny : t.isAny) : H t := by
  have composed : t.isComposed := by cases t <;> first | rfl | cases isAny
  exact inherited.leaf composed (children_of_isAny isAny)

theorem whole {t : Ty} (all : t.Everywhere Q) : H t := by
  induction t using inductionOn with
  | step t ih => exact inherited.node all.root fun c member => ih c member (all.child member)

theorem ofMembers : OfMembers H where
  never _ := inherited.leaf rfl rfl
  noneType _ := inherited.leaf rfl rfl
  union {ms} pos form all := by
    have notEmpty : (Ty.union ms pos).isComposed := by
      cases ms with
      | nil => exact absurd form.several (by decide)
      | cons => rfl
    exact inherited.compose notEmpty all
  member holds _ member := inherited.part rfl holds member
  classObject _ _ holds := by
    refine inherited.compose rfl fun c member => ?_
    rw [List.mem_singleton.1 member]
    exact holds

theorem rebuild {t : Ty} (atRoot : Q t) {cs : List Ty} (sameLength : cs.length = t.children.length)
    (all : ∀ c ∈ cs, H c) : H (t.rebuild cs) := by
  cases t using Ty.unionCases with
  | union ms pos => exact inherited.ofMembers.makeUnion all pos
  | other t notUnion =>
    rw [rebuild_of_not_union notUnion]
    refine inherited.node (inherited.rebuilt cs notUnion atRoot) fun c member => all c ?_
    rwa [children_withChildren t cs sameLength] at member

/-- A type in which a formal stands for each part whose form is not allowed has `H` once the formals are replaced. -/
theorem substituteAt {formals : List String} {values : List Ty} {pos : Position} (given : ∀ v ∈ values, H v) {t : Ty}
    (all : t.Everywhere fun x => Q x ∨ (substitute? formals values x).isSome) (depth : Nat) :
    H (substituteAt formals values pos t depth).1 := by
  induction t using inductionOn generalizing depth with
  | step t ih =>
    rw [substituteAt_eq]
    split
    · rename_i value found
      exact given value (mem_of_substitute? found)
    · rename_i notFormal
      have allowed : Q t := by
        rcases all.root with allowed | isFormal
        · exact allowed
        · rw [notFormal] at isFormal
          cases isFormal
      split
      · rename_i leaf
        exact inherited.node allowed (by simp [List.isEmpty_iff.1 leaf])
      · split
        · exact inherited.any rfl
        · refine inherited.move pos (inherited.rebuild allowed (by simp) fun c member => ?_)
          simp only [List.map_map, List.mem_map, Function.comp_apply] at member
          obtain ⟨source, atChild, rfl⟩ := member
          exact ih source atChild (all.child atChild) (depth + 1)

theorem openFlexible {t : Ty} (holds : H t) : H (AliasDecl.openFlexible t) := by
  unfold AliasDecl.openFlexible
  split
  · rename_i i
    split
    · cases last : i.args.getLast? with
      | none => exact inherited.any rfl
      | some t => exact inherited.part rfl holds (List.mem_of_getLast? last)
    · exact holds
  · exact holds

end Inherited

end Ty

/-- The forms in the target of an alias are allowed, those of its formals apart. -/
def AliasDecl.TargetAllows (Q : Ty → Prop) (a : AliasDecl) : Prop :=
  a.target.Everywhere fun x => Q x ∨ ∃ name ∈ a.formals, x.formalName? = some name

theorem substitute?_isSome {formals : List String} {values : List Ty} {t : Ty} {name : String}
    (sameNumber : values.length = formals.length) (named : t.formalName? = some name) (member : name ∈ formals) :
    (substitute? formals values t).isSome := by
  obtain ⟨index, atIndex⟩ : ∃ index, formals.idxOf? name = some index := by
    cases found : formals.idxOf? name with
    | none => exact absurd member (List.idxOf?_eq_none_iff.1 found)
    | some index => exact ⟨index, rfl⟩
  have inRange : index < values.length := by
    rw [sameNumber]
    exact (List.idxOf?_eq_some_iff.1 atIndex).1
  simp [substitute?, named, atIndex, inRange]

/-- A form in the target that is not allowed is one that a value is substituted for. -/
theorem AliasDecl.TargetAllows.substituted {Q : Ty → Prop} {a : AliasDecl} (allowed : a.TargetAllows Q) {values : List Ty}
    (sameNumber : values.length = a.formals.length) :
    a.target.Everywhere fun x => Q x ∨ (substitute? a.formals values x).isSome :=
  Ty.Everywhere.imp allowed fun _ => Or.imp_right fun ⟨_, member, named⟩ => substitute?_isSome sameNumber named member

/-- The target of an alias without formals is allowed as a whole. -/
theorem AliasDecl.TargetAllows.whole {Q : Ty → Prop} {a : AliasDecl} (allowed : a.TargetAllows Q) (noFormals : a.formals = []) :
    a.target.Everywhere Q :=
  Ty.Everywhere.imp allowed fun _ here => here.resolve_right fun ⟨_, member, _⟩ => by
    rw [noFormals] at member
    cases member

namespace Ty.Inherited

variable {Q H : Ty → Prop} (inherited : Inherited Q H)

include inherited

theorem expansion {a : AliasDecl} {args : List Ty} {pos : Position} {t : Ty} (expanded : a.Expansion args pos t)
    (allowed : a.TargetAllows Q) (given : ∀ v ∈ args, H v) : H t := by
  cases expanded with
  | bare => exact inherited.compose rfl given
  | target noFormals => exact inherited.whole (allowed.whole noFormals)
  | filled sameNumber areAny =>
    exact inherited.substituteAt (fun v member => inherited.any (areAny v member)) (allowed.substituted sameNumber) 0
  | applied sameNumber =>
    exact inherited.openFlexible (inherited.substituteAt given (allowed.substituted sameNumber) 0)

variable {r : Resolver}

theorem repaired {i : Instance} {fromAlias : Bool} {written : Option String} (args : ∀ t ∈ i.args, H t) :
    H (.inst (r.repaired i fromAlias written)) := by
  refine inherited.compose rfl fun t member => ?_
  change t ∈ (r.repaired i fromAlias written).args at member
  unfold Resolver.repaired at member
  split at member
  · exact args t member
  · rcases mem_fixInstance_args member with member | isAny
    · exact args t member
    · exact inherited.any isAny

theorem repairedRoot {t : Ty} (written : String) (holds : H t) : H (r.repairedRoot written t) := by
  by_cases isInstance : t.isInstance = true
  · cases t with
    | inst i => exact inherited.repaired fun c member => inherited.part rfl holds member
    | _ => cases isInstance
  · have kept : r.repairedRoot written t = t := by
      cases t <;> first | rfl | exact absurd rfl isInstance
    rw [kept]
    exact holds

end Ty.Inherited

/-- When every result has a property that types get from their parts. What is left to see to are the forms that
are kept, variables, callables, and references that stay in a result. -/
theorem Resolver.Rule.ofInherited {r : Resolver} {In : Scope → Ty → Prop} {Out : Progress → Progress → Ty → Prop}
    {Q : Ty → Prop} (inherited : ∀ p q, Ty.Inherited Q (Out p q)) (reads : r.ReadsBases In)
    (targets : ∀ {s ref decl}, In s (.named ref) → r.UsesAlias ref decl → decl.TargetAllows Q)
    (widen : ∀ {p p' q q' t}, p'.Precedes p → p'.scope = p.scope → q.Precedes q' → Out p q t → Out p' q' t)
    (keepSettled : ∀ {p q t}, t.isSettled → In p.scope t → Out p q t)
    (keepForward : ∀ {p q fullname args pos}, In p.scope (.forward fullname args pos) →
      (∀ name ∈ fullname, r.table.findClass? name = none) → r.table.finalPass = false → q.status ≠ .complete →
      Out p q (.forward fullname args pos))
    (keepVariable : ∀ {p q ref symbol decl}, In p.scope (.named ref) → r.table.lookup ref.name = some symbol →
      SpecialForm.ofName? symbol.fullname = none → symbol.definition = some (.typeVarDef decl) →
      p.scope.find? symbol.fullname = none → r.flags.allowUnboundVariables || r.flags.definingAlias →
      Out p q (.named ref))
    (makeVariable : ∀ {p q fullname binding} (pos : Position), p.scope.find? fullname = some binding →
      Out p q (.typeVar binding pos))
    (makeCallable : ∀ {p q signature args ret bindings} (fallback : Option Instance),
      In p.scope (.callable signature) →
      List.Forall₂ (BindingMade In Out { p with scope := r.innerScope p.scope signature } q)
        (r.innerBindings p.scope signature) bindings →
      (∀ t ∈ args ++ [ret], Out { p with scope := r.innerScope p.scope signature } q t) →
      Out p q (.callable { signature with args := args, ret := ret, fallback := fallback, bindings := bindings }))
    (makeForward : ∀ {p q args} (fullname : Option String) (pos : Position), r.table.finalPass = false →
      q.status ≠ .complete → (∀ t ∈ args, Out p q t) → Out p q (.forward fullname args pos))
    (makeName : ∀ {p q ref symbol d args}, In p.scope (.named ref) → r.table.lookup ref.name = some symbol →
      SpecialForm.ofName? symbol.fullname = none → symbol.definition = some d → d.isNoType →
      (∃ problem : Problem, problem.RejectsName ∧ ⟨ref.pos, problem⟩ ∈ p.newReports q) → (∀ t ∈ args, Out p q t) →
      Out p q (.named (ref.withArgs args))) :
    r.Rule In Out where
  reads := reads.toReads
  widen := widen
  keepSettled := keepSettled
  keepForward := keepForward
  keepVariable := keepVariable
  makeAny _ _ _ := (inherited _ _).any rfl
  makeNone _ := (inherited _ _).leaf rfl rfl
  makeNever _ := (inherited _ _).leaf rfl rfl
  makeLiteral _ := (inherited _ _).leaf rfl rfl
  makeVariable := makeVariable
  makeUnion pos all := (inherited _ _).ofMembers.makeUnion all pos
  makeOptional holds := (inherited _ _).ofMembers.makeOptional holds
  makeClassObject pos holds := (inherited _ _).ofMembers.makeClassObject holds pos
  makeStar _ holds := by
    refine (inherited _ _).compose rfl fun t member => ?_
    rw [List.mem_singleton.1 member]
    exact holds
  makeTuple _ _ _ all := (inherited _ _).compose rfl all
  makeRecord _ _ _ all := by
    refine (inherited _ _).compose rfl fun t member => ?_
    obtain ⟨field, atField, rfl⟩ := List.mem_map.1 member
    exact all field atField
  makeTupleBase _ _ holds given atBase made :=
    (inherited _ _).compose rfl (made (reads.tupleBase holds given atBase))
  makeRecordBase _ _ holds given atBase made := by
    refine (inherited _ _).compose rfl fun t member => ?_
    obtain ⟨field, atField, rfl⟩ := List.mem_map.1 member
    exact made (reads.recordBase holds given atBase) field atField
  makeCallable := makeCallable
  makeForward := makeForward
  makeName given found plain defined isNoType reported _ := makeName given found plain defined isNoType reported
  makeTupleInstance _ _ holds := by
    refine (inherited _ _).compose rfl fun t member => ?_
    rw [List.mem_singleton.1 member]
    exact holds
  makeInstance _ _ _ _ all := (inherited _ _).repaired all
  makeAlias uses given _ all :=
    (inherited _ _).repairedRoot _
      ((inherited _ _).expansion (AliasDecl.expand_expansion _ _ _ _ _) (targets given uses) all)

end TypeResolution
