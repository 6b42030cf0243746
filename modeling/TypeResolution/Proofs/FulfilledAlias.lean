import TypeResolution.Proofs.Fulfilment

namespace TypeResolution

namespace Arrivals

variable {r : Resolver} (new : Arrivals r)

/-- The second types are what the first come to. -/
abbrev Follow (xs ys : List Ty) : Prop := List.Forall₂ (fun x y => y ≈ new.fulfil x) xs ys

variable {new}

theorem Follow.map {xs ys : List Ty} (follow : new.Follow xs ys) : List.Forall₂ (· ≈ ·) ys (xs.map new.fulfil) := by
  induction follow with
  | nil => exact .nil
  | cons here _ ih => exact .cons here ih

variable (new)

theorem fulfil_inst (i : Instance) : new.fulfil (.inst i) = .inst { i with args := i.args.map new.fulfil } :=
  new.fulfil_of_form rfl rfl

theorem fulfil_of_isAny {t : Ty} (isAny : t.isAny) : new.fulfil t = t := by
  cases t <;> first | exact new.fulfil_of_form rfl rfl | cases isAny

/-- An instance is repaired alike before and after the classes come. -/
theorem fulfil_repaired (i : Instance) (fromAlias : Bool) (written : Option String) :
    new.fulfil (.inst (r.repaired i fromAlias written)) =
      .inst (r.repaired { i with args := i.args.map new.fulfil } fromAlias written) := by
  have filled {t : Ty} (isAny : t.isAny) (n : Nat) : (List.replicate n t).map new.fulfil = List.replicate n t := by
    rw [List.map_replicate, new.fulfil_of_isAny isAny]
  rw [fulfil_inst]
  simp only [Resolver.repaired, fixInstance, Instance.hasExpectedArity, List.length_map, List.isEmpty_iff_length_eq_zero]
  split
  · rfl
  · split
    · rfl
    · split
      · rw [filled (omittedAny_isAny _ _ _ _)]
      · rw [filled (t := .error) rfl]

theorem kempt_of_not_due {t : Ty} (none : new.due t = false) : new.Kempt t := by
  cases t <;> first | trivial | exact .inr fun m member => new.due_child none member

theorem everywhere_kempt_of_not_due {t : Ty} (none : new.due t = false) : t.Everywhere new.Kempt := fun _ inside =>
  new.kempt_of_not_due (new.due_eq_false_iff.2 ((new.due_eq_false_iff.1 none).of_inside inside))

section Substitution

variable {formals : List String} {xs ys : List Ty} {pos : Position} (kempt : ∀ x ∈ xs, new.Kempt x)

include kempt

theorem substituteAt_kempt {t : Ty} (none : new.due t = false) (depth : Nat) :
    new.Kempt (substituteAt formals xs pos t depth).1 := by
  rw [substituteAt_eq]
  split
  · rename_i value found
    exact kempt value (mem_of_substitute? found)
  · split
    · exact new.kempt_of_not_due none
    · split
      · trivial
      · exact new.kempt_of_flatUnion (Ty.flatUnion_ofNodes.withPos pos (t.rebuild_flatUnion _))

/-- Substitution in a type in which nothing is due goes along with the arguments. -/
theorem fulfil_substituteAt (follow : new.Follow xs ys) {t : Ty} (none : new.due t = false) (depth : Nat) :
    (substituteAt formals ys pos t depth).1 ≈ new.fulfil (substituteAt formals xs pos t depth).1 := by
  induction t using Ty.inductionOn generalizing depth with
  | step t ih =>
    have alternatives := substitute?_forall₂ formals follow t
    rw [substituteAt_eq t, substituteAt_eq t]
    rcases alternatives with ⟨absent, absent'⟩ | ⟨x, y, found, found', equal⟩
    · rw [absent, absent']
      dsimp only
      split
      · rw [new.fulfil_of_not_due none]
      · split
        · rw [new.fulfil_of_isAny rfl]
        · have parts : new.Follow ((t.children.map fun c => substituteAt formals xs pos c (depth + 1)).map Prod.fst)
              ((t.children.map fun c => substituteAt formals ys pos c (depth + 1)).map Prod.fst) := by
            simp only [List.map_map, List.forall₂_map_left_iff, List.forall₂_map_right_iff]
            exact List.forall₂_same.2 fun c member => ih c member (new.due_child none member) (depth + 1)
          have tidy : ∀ part ∈ (t.children.map fun c => substituteAt formals xs pos c (depth + 1)).map Prod.fst,
              new.Kempt part := by
            intro part member
            simp only [List.map_map, List.mem_map, Function.comp_apply] at member
            obtain ⟨c, member, rfl⟩ := member
            exact new.substituteAt_kempt kempt (new.due_child none member) (depth + 1)
          have sameLength : ((t.children.map fun c => substituteAt formals xs pos c (depth + 1)).map Prod.fst).length =
              t.children.length := by simp
          generalize (t.children.map fun c => substituteAt formals xs pos c (depth + 1)).map Prod.fst = cs at *
          generalize (t.children.map fun c => substituteAt formals ys pos c (depth + 1)).map Prod.fst = ds at *
          have here : new.awaits t = false := (new.due_eq_false_iff.1 none).root
          have rebuilt : t.rebuild ds ≈ new.fulfil (t.rebuild cs) :=
            Setoid.trans (t.rebuild_congr (Follow.map parts) (parts.length_eq.symm.trans sameLength))
              (Setoid.symm (new.fulfil_rebuild here sameLength tidy))
          exact Setoid.trans (Ty.withPos_equal _ pos)
            (Setoid.trans rebuilt (new.fulfil_congr (Setoid.symm (Ty.withPos_equal _ pos))))
    · rw [found, found']
      exact equal

end Substitution

variable {new}

/-- An instance that a class that has come means is of this class, and is repaired. -/
theorem inst_of_applied {decl : ClassDecl} {args : List Ty}
    {pos : Position} {i : Instance} (equal : .inst i ≈ new.applied decl args pos) :
    i.head.fullname = decl.fullname ∧ (r.flags.definingAlias = false → i.args.length = decl.head.arity) := by
  have ofClass {made : Instance} (head : made.head = decl.head) (right : r.flags.definingAlias = false → made.hasExpectedArity)
      (equal : Ty.inst i ≈ .inst made) :
      i.head.fullname = decl.fullname ∧ (r.flags.definingAlias = false → i.args.length = decl.head.arity) := by
    cases Ty.matches_of_beq equal with
    | inst equal =>
      obtain ⟨sameClass, args, _⟩ := Instance.beq_iff.1 equal
      refine ⟨by rw [sameClass, head]; rfl, fun using_ => ?_⟩
      have counted := right using_
      rw [Instance.hasExpectedArity, beq_iff_eq, head] at counted
      rw [args.length_eq, counted]
  unfold Arrivals.applied at equal
  split at equal
  · cases made : new.bare decl with
    | inst i' =>
      rw [made] at equal
      obtain ⟨head, right⟩ := new.bare_repaired made
      exact ofClass head right equal
    | _ =>
      rw [made] at equal
      cases Ty.matches_of_beq equal
  · split at equal
    · cases Ty.matches_of_beq equal
    · refine ofClass (Resolver.repaired_head _ _ _) (fun using_ => ?_) equal
      unfold Resolver.repaired
      rw [using_]
      exact fixInstance_hasExpectedArity _ _ _ _

/-- What comes to an instance was one, or it waits for the class. -/
theorem inst_of_single {t : Ty} (single : t.isUnion = false) {j : Instance} (equal : .inst j ≈ new.fulfil t) :
    new.awaits t ∨ ∃ i, t = .inst i := by
  cases here : new.awaits t with
  | true => exact .inl rfl
  | false =>
    right
    rw [new.fulfil_of_form single here] at equal
    cases t <;> first | exact ⟨_, rfl⟩ | cases Ty.matches_of_beq equal

/-- A union comes to an instance if all its members come to the same, among them one in which a class is due. -/
theorem inst_of_union {ms : List Ty} {pos : Position} (kempt : new.Kempt (.union ms pos)) {j : Instance}
    (equal : .inst j ≈ new.fulfil (.union ms pos)) :
    ∃ m ∈ ms, new.due m ∧ .inst j ≈ new.fulfil m ∧ (new.awaits m ∨ ∃ i, m = .inst i) := by
  have dueness : new.due (.union ms pos) = true := by
    by_contra none
    rw [new.fulfil_of_not_due (Bool.eq_false_iff.2 none)] at equal
    cases Ty.matches_of_beq equal
  have flat : UnionForm ms := new.flatUnion_of_due kempt dueness
  have members := (new.members_fulfil kempt).symm.trans (Ty.members_of_equal equal).symm
  rw [Ty.FlatUnion.members_union flat, Ty.members_of_not_union (t := .inst j) rfl] at members
  rw [new.due_eq, show new.awaits (.union ms pos) = false from rfl, Bool.false_or, List.any_eq_true] at dueness
  obtain ⟨m, member, dueness⟩ := dueness
  obtain ⟨_, atInstance, sameType⟩ := members.left _ (List.mem_map_of_mem member)
  rw [List.mem_singleton.1 atInstance] at sameType
  have sameType := Setoid.symm sameType
  exact ⟨m, member, dueness, sameType, inst_of_single (flat.flat m member) sameType⟩

end Arrivals

namespace AliasDecl

/-- An alias that hands its arguments to the class that is its target. -/
def IsBareClass (a : AliasDecl) : Prop := a.formals = [] ∧ a.isBare = true ∧ a.targetClass?.isSome

theorem expand_bare {a : AliasDecl} (noFormals : a.formals = []) (isBare : a.isBare = true) {head : ClassHead}
    (isClass : a.targetClass? = some head) (args : List Ty) (pos : Position) (written : Option String) (disallowAny : Bool) :
    a.expand args pos written disallowAny = (.inst (.of head args pos), []) := by
  cases args <;> simp [expand, noFormals, isBare, isClass]

/-- Any other alias substitutes its arguments, if they are as many as its formals. -/
theorem expand_cons_of_not_bare {a : AliasDecl} (notBare : ¬ a.IsBareClass) (arg : Ty) (args : List Ty) (pos : Position)
    (written : Option String) (disallowAny : Bool) : a.expand (arg :: args) pos written disallowAny =
      if (arg :: args).length = a.formals.length then
        (openFlexible (substitute a.target a.formals (arg :: args) pos).1, (substitute a.target a.formals (arg :: args) pos).2)
      else ((substituteAny a.target a.formals pos true false none).1,
        ⟨pos, .aliasArgumentCount a.formals.length (arg :: args).length⟩ ::
          (substituteAny a.target a.formals pos true false none).2) := by
  rw [expand_cons]
  split
  · rename_i head noFormals isBare isClass
    exact absurd ⟨noFormals, isBare, by simp [isClass]⟩ notBare
  · rfl

/-- With as many arguments of either kind an alias is expanded in the same way. -/
theorem expand_alike (a : AliasDecl) {xs ys : List Ty} (sameLength : xs.length = ys.length) (pos : Position)
    (written : Option String) (disallowAny : Bool) :
    (∃ head, (a.expand xs pos written disallowAny).1 = .inst (.of head xs pos) ∧
      (a.expand ys pos written disallowAny).1 = .inst (.of head ys pos)) ∨
    ((a.expand xs pos written disallowAny).1 = (a.expand ys pos written disallowAny).1 ∧
      a.Expansion [] pos (a.expand xs pos written disallowAny).1) ∨
    ((a.expand xs pos written disallowAny).1 = openFlexible (substituteAt a.formals xs pos a.target 0).1 ∧
      (a.expand ys pos written disallowAny).1 = openFlexible (substituteAt a.formals ys pos a.target 0).1) := by
  match xs, ys, sameLength with
  | [], [], _ => exact .inr (.inl ⟨rfl, a.expand_expansion [] pos written disallowAny⟩)
  | x :: xs, y :: ys, sameLength =>
    by_cases bare : a.IsBareClass
    · obtain ⟨noFormals, isBare, isClass⟩ := bare
      obtain ⟨head, atClass⟩ := Option.isSome_iff_exists.1 isClass
      exact .inl ⟨head, by rw [expand_bare noFormals isBare atClass], by rw [expand_bare noFormals isBare atClass]⟩
    · rw [expand_cons_of_not_bare bare, expand_cons_of_not_bare bare]
      by_cases count : (x :: xs).length = a.formals.length
      · rw [if_pos count, if_pos (sameLength.symm.trans count)]
        exact .inr (.inr ⟨rfl, rfl⟩)
      · obtain ⟨values, length, areAny, equal⟩ := substituteAny_filled a.target a.formals pos true false none
        rw [if_neg count, if_neg fun equal => count (sameLength.trans equal)]
        exact .inr (.inl ⟨rfl, equal ▸ .filled length areAny⟩)

end AliasDecl

namespace Arrivals

variable {r : Resolver} (new : Arrivals r) {arity : String → Nat}

/-- If a single instance is all that is left of a union when the classes have come, none of the members in which a class is due
would be opened or repaired if it stood alone. -/
def Stays : Ty → Prop
  | .union ms pos => (∃ j, .inst j ≈ new.fulfil (.union ms pos)) →
    ∀ m ∈ ms, new.due m → m.NotFlexible ∧ (r.flags.definingAlias = false → m.RightCount)
  | _ => True

/-- The classes that have come have as many type variables as all instances of their names. -/
def OfArity (arity : String → Nat) : Prop :=
  r.flags.definingAlias = false → ∀ {fullname decl}, new.class? fullname = some decl → decl.head.arity = arity decl.fullname

variable {new}

/-- What a reference to a class that has come is resolved to is not opened by an alias, and it is repaired already. -/
theorem plain_of_awaits (ofArity : new.OfArity arity) {t : Ty} (here : new.awaits t) {j : Instance}
    (equal : .inst j ≈ new.fulfil t) :
    j.head.fullname ≠ flexibleAlias ∧ (r.flags.definingAlias = false → j.args.length = arity j.head.fullname) := by
  cases t with
  | forward fullname args pos =>
    cases fullname with
    | none => cases here
    | some fullname =>
      obtain ⟨decl, come⟩ := Option.isSome_iff_exists.1 (show (new.class? fullname).isSome = true from here)
      rw [new.fulfil_forward come] at equal
      obtain ⟨named, counted⟩ := inst_of_applied equal
      rw [named]
      exact ⟨new.notFlexible come, fun using_ => (counted using_).trans (ofArity using_ come)⟩
  | _ => cases here

/-- The same holds of what is left of a union. -/
theorem plain_of_union (ofArity : new.OfArity arity) {ms : List Ty} {pos : Position} (kempt : new.Kempt (.union ms pos))
    (stays : new.Stays (.union ms pos))
    (heads : r.flags.definingAlias = false → (Ty.union ms pos).Everywhere (Ty.HeadOf arity)) {j : Instance}
    (equal : .inst j ≈ new.fulfil (.union ms pos)) :
    j.head.fullname ≠ flexibleAlias ∧ (r.flags.definingAlias = false → j.args.length = arity j.head.fullname) := by
  have single : ∃ j, .inst j ≈ new.fulfil (.union ms pos) := ⟨j, equal⟩
  obtain ⟨m, member, dueness, equal, waits | ⟨i, rfl⟩⟩ := inst_of_union kempt equal
  · exact plain_of_awaits ofArity waits equal
  · obtain ⟨plain, right⟩ := stays single _ member dueness
    rw [new.fulfil_inst] at equal
    cases Ty.matches_of_beq equal with
    | inst equal =>
      obtain ⟨sameClass, args, _⟩ := Instance.beq_iff.1 equal
      refine ⟨fun flexible => plain (sameClass.symm.trans flexible), fun using_ => ?_⟩
      have counted : i.hasExpectedArity = true := right using_
      have head : i.head.arity = arity i.head.fullname := ((heads using_).child member).root
      rw [Instance.hasExpectedArity, beq_iff_eq, head] at counted
      rw [args.length_eq, List.length_map, counted, sameClass]

/-- An instance that stands for its last argument is opened before the classes come if it is opened after. -/
theorem fulfil_openFlexible (ofArity : new.OfArity arity) {x y : Ty} (kempt : new.Kempt x) (stays : new.Stays x)
    (heads : r.flags.definingAlias = false → x.Everywhere (Ty.HeadOf arity)) (equal : y ≈ new.fulfil x) :
    AliasDecl.openFlexible y ≈ new.fulfil (AliasDecl.openFlexible x) := by
  by_cases isInstance : ∃ i, x = .inst i
  · obtain ⟨i, rfl⟩ := isInstance
    refine Setoid.trans (AliasDecl.openFlexible_congr equal) ?_
    rw [new.fulfil_inst]
    by_cases flexible : i.head.fullname = flexibleAlias
    · rw [AliasDecl.openFlexible_inst flexible, AliasDecl.openFlexible_inst (i := { i with args := _ }) flexible,
        List.getLast?_map]
      cases i.args.getLast? with
      | none =>
        rw [Option.map_none, Option.getD_none, new.fulfil_of_isAny rfl]
      | some last => exact Setoid.refl _
    · rw [AliasDecl.openFlexible_of_notFlexible (t := .inst i) flexible,
        AliasDecl.openFlexible_of_notFlexible (t := .inst { i with args := _ }) flexible, new.fulfil_inst]
  · have kept : AliasDecl.openFlexible x = x :=
      AliasDecl.openFlexible_of_notFlexible (by cases x <;> first | trivial | exact absurd ⟨_, rfl⟩ isInstance)
    have kept' : AliasDecl.openFlexible y = y := by
      refine AliasDecl.openFlexible_of_notFlexible ?_
      cases y with
      | inst j =>
        cases x using Ty.unionCases with
        | union ms pos => exact (plain_of_union ofArity kempt stays heads equal).1
        | other x single =>
          exact (plain_of_awaits ofArity ((inst_of_single single equal).resolve_right isInstance) equal).1
      | _ => trivial
    rwa [kept, kept']

/-- An instance is repaired before the classes come if it is repaired after. -/
theorem fulfil_repairedRoot (ofArity : new.OfArity arity) {x y : Ty} (kempt : new.Kempt x) (stays : new.Stays x)
    (heads : r.flags.definingAlias = false → x.Everywhere (Ty.HeadOf arity))
    (head : r.flags.definingAlias = false → y.HeadOf arity) (equal : y ≈ new.fulfil x) (written : String) :
    r.repairedRoot written y ≈ new.fulfil (r.repairedRoot written x) := by
  by_cases isInstance : ∃ i, x = .inst i
  · obtain ⟨i, rfl⟩ := isInstance
    rw [new.fulfil_inst] at equal
    cases y with
    | inst j =>
      rw [Resolver.repairedRoot, Resolver.repairedRoot, new.fulfil_repaired]
      refine Resolver.repaired_congr (j := { i with args := i.args.map new.fulfil }) (fun using_ => ?_) equal true _ _
      have sameClass : j.head.fullname = i.head.fullname := (Instance.beq_iff.1 equal).1
      have atX : i.head.arity = arity i.head.fullname := (heads using_).root
      have atY : j.head.arity = arity j.head.fullname := head using_
      rw [atX, atY, sameClass]
    | _ => cases Ty.matches_of_beq equal
  · have kept : r.repairedRoot written x = x := by
      refine r.repairedRoot_eq written ?_
      rintro ⟨i, isInst, _⟩
      exact isInstance ⟨i, isInst⟩
    rw [kept]
    cases y with
    | inst j =>
      have counted : r.flags.definingAlias = false → j.args.length = arity j.head.fullname := by
        cases x using Ty.unionCases with
        | union ms pos => exact (plain_of_union ofArity kempt stays heads equal).2
        | other x single =>
          exact (plain_of_awaits ofArity ((inst_of_single single equal).resolve_right isInstance) equal).2
      have keptLater : r.repairedRoot written (.inst j) = .inst j := by
        cases using_ : r.flags.definingAlias with
        | true => simp [Resolver.repairedRoot, Resolver.repaired, using_]
        | false =>
          refine r.repairedRoot_eq written ?_
          rintro ⟨i, isInst, wrong⟩
          cases isInst
          have atY : j.head.arity = arity j.head.fullname := head using_
          rw [Instance.hasExpectedArity, counted using_, atY, beq_self_eq_true] at wrong
          cases wrong
      rwa [keptLater]
    | _ => exact equal

/-- A use of an alias comes to the use of the alias with what the arguments come to, unless it is a union of which an
instance is left that would be opened or repaired. -/
theorem fulfil_expansion (ofArity : new.OfArity arity) {a : AliasDecl} (resolved : new.due a.target = false) {xs ys : List Ty}
    (kempt : ∀ x ∈ xs, new.Kempt x) (follow : new.Follow xs ys)
    (heads : r.flags.definingAlias = false → a.target.Everywhere (Ty.HeadOf arity) ∧
      (∀ x ∈ xs, x.Everywhere (Ty.HeadOf arity)) ∧ ∀ y ∈ ys, y.Everywhere (Ty.HeadOf arity))
    (pos : Position) (written : String)
    (tidy : new.Kempt (r.repairedRoot written (a.expand xs pos (some written) r.disallowsOmitted).1))
    (stays : new.Stays (r.repairedRoot written (a.expand xs pos (some written) r.disallowsOmitted).1)) :
    r.repairedRoot written (a.expand ys pos (some written) r.disallowsOmitted).1 ≈
      new.fulfil (r.repairedRoot written (a.expand xs pos (some written) r.disallowsOmitted).1) := by
  rcases a.expand_alike follow.length_eq pos (some written) r.disallowsOmitted with
    ⟨head, atXs, atYs⟩ | ⟨same, expansion⟩ | ⟨atXs, atYs⟩
  · rw [atXs, atYs, Resolver.repairedRoot, Resolver.repairedRoot, new.fulfil_repaired]
    have equal := Instance.of_congr head follow.map pos pos
    exact Resolver.repaired_congr (i := .of head ys pos) (j := .of head (xs.map new.fulfil) pos) (fun _ => rfl) equal true _ _
  · rw [← same]
    have none : new.due (r.repairedRoot written (a.expand xs pos (some written) r.disallowsOmitted).1) = false := by
      refine new.notDue_inherited.repairedRoot written (new.notDue_inherited.expansion expansion ?_ (by simp))
      exact fun x reached => .inl ((new.due_eq_false_iff.1 resolved) x reached)
    rw [new.fulfil_of_not_due none]
  · rw [atXs] at tidy stays ⊢
    rw [atYs]
    have nodes := Ty.headOf_ofNodes arity
    have equal : (substituteAt a.formals ys pos a.target 0).1 ≈ new.fulfil (substituteAt a.formals xs pos a.target 0).1 :=
      new.fulfil_substituteAt kempt follow resolved 0
    have headsX (using_ : r.flags.definingAlias = false) :
        (substituteAt a.formals xs pos a.target 0).1.Everywhere (Ty.HeadOf arity) :=
      substituteAt_everywhere nodes (heads using_).2.1 (heads using_).1 0
    have headsY (using_ : r.flags.definingAlias = false) :
        (substituteAt a.formals ys pos a.target 0).1.Everywhere (Ty.HeadOf arity) :=
      substituteAt_everywhere nodes (heads using_).2.2 (heads using_).1 0
    generalize (substituteAt a.formals xs pos a.target 0).1 = x at *
    generalize (substituteAt a.formals ys pos a.target 0).1 = y at *
    -- A union is neither opened nor repaired, so that what is known of the result is known of it on the way.
    have opened : AliasDecl.openFlexible y ≈ new.fulfil (AliasDecl.openFlexible x) := by
      refine fulfil_openFlexible ofArity ?_ ?_ headsX equal
      · cases x <;> trivial
      · cases x <;> trivial
    have openedX (using_ : r.flags.definingAlias = false) := AliasDecl.openFlexible_everywhere nodes (headsX using_)
    have openedY (using_ : r.flags.definingAlias = false) := (AliasDecl.openFlexible_everywhere nodes (headsY using_)).root
    generalize AliasDecl.openFlexible x = x at *
    refine fulfil_repairedRoot ofArity ?_ ?_ openedX openedY opened written
    · cases x <;> trivial
    · cases x <;> trivial

end Arrivals

end TypeResolution
