import TypeResolution.Proofs.AliasUse
import TypeResolution.Proofs.NestedSubstitution

namespace TypeResolution

namespace Ty

/-- Equal types are as high as each other. -/
theorem height_of_equal {a b : Ty} (equal : a ≈ b) : a.height = b.height := by
  have low {a b : Ty} (equal : a ≈ b) : b.height ≤ a.height := by
    induction b using inductionOn generalizing a with
    | step b ih =>
      refine height_le_iff.2 fun d member => ?_
      obtain ⟨c, atSource, equal⟩ := child_of_beq equal member
      exact (ih d member equal).trans_lt (height_child_lt atSource)
  exact Nat.le_antisymm (low (Setoid.symm equal)) (low equal)

theorem equal_of_isAny {a b : Ty} (first : a.isAny) (second : b.isAny) : a ≈ b := by
  cases a with
  | any =>
    cases b with
    | any => exact Matches.any.beq
    | _ => cases second
  | _ => cases first

/-- No type equals one of its parts. -/
theorem child_unequal {t c : Ty} (member : c ∈ t.children) : ¬ c ≈ t := by
  intro equal
  have lower := height_child_lt member
  rw [height_of_equal equal] at lower
  exact Nat.lt_irrefl _ lower

end Ty

/-- What is made of a type by substitution equals what is made of it with values that equal the others one by one, and the
same is cut off. -/
theorem substituteAt_congr (formals : List String) {values values' : List Ty}
    (related : List.Forall₂ (· ≈ ·) values values') (pos : Position) (t : Ty) (depth : Nat) :
    (substituteAt formals values pos t depth).1 ≈ (substituteAt formals values' pos t depth).1 ∧
      (substituteAt formals values pos t depth).2 = (substituteAt formals values' pos t depth).2 := by
  induction t using Ty.inductionOn generalizing depth with
  | step t ih =>
    rw [substituteAt_eq, substituteAt_eq]
    rcases substitute?_forall₂ formals related t with ⟨none, none'⟩ | ⟨x, y, found, found', equal⟩
    · rw [none, none']
      dsimp only
      split
      · exact ⟨Setoid.refl _, rfl⟩
      · split
        · exact ⟨Setoid.refl _, rfl⟩
        · constructor
          · refine Ty.withPos_congr (t.rebuild_congr ?_ (by simp)) pos pos
            simp only [List.map_map, List.forall₂_map_left_iff, List.forall₂_map_right_iff]
            exact List.forall₂_same.2 fun c atChild => (ih c atChild (depth + 1)).1
          · rw [List.any_map, List.any_map, Bool.eq_iff_iff, List.any_eq_true, List.any_eq_true]
            exact exists_congr fun c => and_congr_right fun atChild => by
              rw [Function.comp_apply, Function.comp_apply, (ih c atChild (depth + 1)).2]
    · rw [found, found']
      exact ⟨equal, rfl⟩

namespace AliasDecl

/-- An instance that stands for its last argument does not equal it. -/
theorem openFlexible_equal_iff (t : Ty) : openFlexible t ≈ t ↔ t.NotFlexible := by
  refine ⟨fun equal => ?_, fun plain => ?_⟩
  · cases t with
    | inst i =>
      intro flexible
      rw [openFlexible_inst flexible] at equal
      cases last : i.args.getLast? with
      | none =>
        rw [last] at equal
        cases equal
      | some c =>
        rw [last] at equal
        exact Ty.child_unequal (t := .inst i) (List.mem_of_getLast? last) equal
    | _ => trivial
  · rw [openFlexible_of_notFlexible plain]

/-- Neither the type nor, if it is a union, one of its members is an instance that stands for its last argument. -/
def NoneFlexible (t : Ty) : Prop := ∀ m ∈ t.members, m.NotFlexible

theorem noneFlexible_iff {t : Ty} (single : t.isUnion = false) : NoneFlexible t ↔ t.NotFlexible := by
  rw [NoneFlexible, Ty.members_of_not_union single, List.forall_mem_singleton]

theorem NoneFlexible.root {t : Ty} (plain : NoneFlexible t) : t.NotFlexible := by
  cases t using Ty.unionCases with
  | union => trivial
  | other t single => exact (noneFlexible_iff single).1 plain

theorem noneFlexible_ofMembers : Ty.OfMembers NoneFlexible where
  never _ := (noneFlexible_iff rfl).2 trivial
  noneType _ := (noneFlexible_iff rfl).2 trivial
  union {ms} pos form all := by
    have flat : (Ty.union ms pos).FlatUnion := form
    rw [NoneFlexible, flat.members_union]
    exact fun m member => (all m member).root
  member all m atMember x member := by
    refine all x ?_
    rw [Ty.members, Ty.membersOfAll_eq]
    exact List.mem_flatMap.2 ⟨m, atMember, member⟩
  classObject _ _ _ := (noneFlexible_iff rfl).2 trivial

theorem NoneFlexible.withChildren {t : Ty} (single : t.isUnion = false) (plain : NoneFlexible t) (cs : List Ty) :
    NoneFlexible (t.withChildren cs) := by
  refine (noneFlexible_iff ((t.isUnion_withChildren cs).trans single)).2 ?_
  have plain := plain.root
  cases t <;> exact plain

theorem NoneFlexible.withPos {t : Ty} (plain : NoneFlexible t) (pos : Position) : NoneFlexible (t.withPos pos) := by
  cases t with
  | union => exact plain
  | _ => exact (noneFlexible_iff rfl).2 plain.root

/-- With `Any` for the formals, no such instance is made of what was none. -/
theorem substituteAt_noneFlexible {formals : List String} {values : List Ty} (areAny : ∀ v ∈ values, v.isAny) {t : Ty}
    (plain : NoneFlexible t) (pos : Position) (depth : Nat) : NoneFlexible (substituteAt formals values pos t depth).1 := by
  have ofAny {v : Ty} (isAny : v.isAny) : NoneFlexible v := by
    cases v with
    | any => exact (noneFlexible_iff rfl).2 trivial
    | _ => cases isAny
  induction t using Ty.inductionOn generalizing depth with
  | step t ih =>
    rw [substituteAt_eq]
    split
    · rename_i value found
      exact ofAny (areAny value (mem_of_substitute? found))
    · split
      · exact plain
      · split
        · exact ofAny rfl
        · refine NoneFlexible.withPos ?_ pos
          cases t using Ty.unionCases with
          | union ms at_ =>
            refine noneFlexible_ofMembers.makeUnion (fun c member => ?_) at_
            simp only [List.map_map, List.mem_map, Function.comp_apply] at member
            obtain ⟨source, atChild, rfl⟩ := member
            exact ih source atChild (noneFlexible_ofMembers.member plain source atChild) (depth + 1)
          | other t single =>
            rw [Ty.rebuild_of_not_union single]
            exact plain.withChildren single _

/-- Where arguments may be omitted, the formals become `Any` without a report. -/
theorem substituteAny_permitted (t : Ty) (formals : List String) (pos : Position) (written : Option String) :
    substituteAny t formals pos false false written =
      substitute t formals (List.replicate formals.length (.anyAt .omittedArguments pos)) pos := rfl

/-- A generic alias without arguments, where they may be omitted, reports what it reports when it is applied to `Any` for
each formal, and the latter means what an instance that stands for its last argument stands for in the former. So the two
are equal exactly if the former is no such instance, and it is none unless the target is one or a union of some. -/
theorem expand_omitted_iff {a : AliasDecl} (generic : a.formals ≠ []) {anys : List Ty}
    (sameNumber : anys.length = a.formals.length) (areAny : ∀ v ∈ anys, v.isAny) (pos : Position)
    (written written' : Option String) (disallowAny : Bool) :
    (a.expand anys pos written' disallowAny).2 = (a.expand [] pos written false).2 ∧
    ((a.expand anys pos written' disallowAny).1 == openFlexible (a.expand [] pos written false).1) = true ∧
    (((a.expand [] pos written false).1 == (a.expand anys pos written' disallowAny).1) = true ↔
      (a.expand [] pos written false).1.NotFlexible) ∧
    (a.target.isUnion = false → ((a.expand [] pos written false).1.NotFlexible ↔ a.target.NotFlexible)) ∧
    ((∀ m ∈ a.target.members, m.NotFlexible) → (a.expand [] pos written false).1.NotFlexible) := by
  rw [expand_omitted generic, expand_applied generic sameNumber, substituteAny_permitted]
  let fillers := List.replicate a.formals.length (Ty.anyAt .omittedArguments pos)
  have fillersAny : ∀ v ∈ fillers, v.isAny := fun v member => by
    rw [(List.mem_replicate.1 member).2]
    rfl
  have related : List.Forall₂ (· ≈ ·) anys fillers := by
    refine List.forall₂_iff_get.2 ⟨sameNumber.trans List.length_replicate.symm, fun i within within' => ?_⟩
    exact Ty.equal_of_isAny (areAny _ (List.get_mem anys ⟨i, within⟩)) (fillersAny _ (List.get_mem fillers ⟨i, within'⟩))
  obtain ⟨equal, sameCut⟩ := substituteAt_congr a.formals related pos a.target 0
  have opened := openFlexible_congr equal
  have plain : NoneFlexible a.target → (substituteAt a.formals fillers pos a.target 0).1.NotFlexible := fun plain =>
    (substituteAt_noneFlexible fillersAny plain pos 0).root
  refine ⟨?_, opened, ?_, fun single => ⟨fun made => ?_, fun target => plain ((noneFlexible_iff single).2 target)⟩, plain⟩
  · simp only [substitute]
    rw [sameCut]
  · rw [← openFlexible_equal_iff]
    exact ⟨fun same => Setoid.symm (Setoid.trans same opened), fun same => Setoid.symm (Setoid.trans opened same)⟩
  · cases atTarget : a.target with
    | inst i =>
      obtain ⟨j, madeOf, sameHead⟩ := substituteAt_inst a.formals fillers pos i
      rw [substitute, atTarget, madeOf] at made
      exact Ty.notFlexible_of_head sameHead.symm made
    | _ => trivial

/-- The alias `A[T] = List[T]`, bare and applied to `Any`. -/
theorem expand_omitted_iff_list :
    (Resolver.listAlias.expand [] .unknown (some "A") false).1 ==
      (Resolver.listAlias.expand [.anyAt .explicit .unknown] .unknown (some "A") false).1 := by
  have generic : Resolver.listAlias.formals ≠ [] := by decide
  have plain : Resolver.listAlias.target.NotFlexible := by
    simp [Resolver.listAlias, Ty.NotFlexible, Instance.of, flexibleAlias]
  have areAny : ∀ v ∈ [Ty.anyAt .explicit .unknown], v.isAny := by decide
  obtain ⟨_, _, same, single, _⟩ := expand_omitted_iff generic rfl areAny .unknown (some "A") (some "A") false
  exact same.2 ((single rfl).2 plain)

/-- The alias `A[T] = FlexibleAlias[T, int]`. -/
def flexibleIntAlias : AliasDecl :=
  ⟨"m.A", .inst (.of ⟨flexibleAlias, ["T", "U"], false⟩
    [.named (.of "T" []), .inst (.of (.plain "builtins.int") [] .unknown)] .unknown), ["T"], false, []⟩

/-- `A[Any]` is `int`, and the bare `A` is not. -/
theorem expand_omitted_iff_flexible :
    (flexibleIntAlias.expand [.anyAt .explicit .unknown] .unknown (some "A") false).1 =
      .inst (.of (.plain "builtins.int") [] .unknown) ∧
    ((flexibleIntAlias.expand [] .unknown (some "A") false).1 ==
      (flexibleIntAlias.expand [.anyAt .explicit .unknown] .unknown (some "A") false).1) = false :=
  ⟨rfl, rfl⟩

end AliasDecl

end TypeResolution
