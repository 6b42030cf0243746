import TypeResolution.Proofs.AliasDepth
import TypeResolution.Proofs.EqualForms
import TypeResolution.Proofs.Inherited

namespace TypeResolution

/-! How deep types are nested -/

theorem foldr_max_le_iff {α : Type} (f : α → Nat) (xs : List α) (n : Nat) :
    xs.foldr (fun x deepest => max (f x) deepest) 0 ≤ n ↔ ∀ x ∈ xs, f x ≤ n := by
  induction xs with
  | nil => simp
  | cons x xs ih => simp [ih]

namespace Ty

/-- How many types stand around the one that is nested the deepest. -/
def height : Ty → Nat := fold fun _ parts => parts.foldr (fun part deepest => max (part + 1) deepest) 0

theorem height_eq (t : Ty) : t.height = t.children.foldr (fun c deepest => max (c.height + 1) deepest) 0 := by
  rw [height, fold_eq, List.foldr_map]

theorem height_le_iff {t : Ty} {n : Nat} : t.height ≤ n ↔ ∀ c ∈ t.children, c.height < n := by
  rw [height_eq, foldr_max_le_iff]
  rfl

theorem height_child_lt {t c : Ty} (member : c ∈ t.children) : c.height < t.height :=
  height_le_iff.1 (Nat.le_refl _) c member

theorem height_of_inside {x t : Ty} (inside : Inside x t) : x.height ≤ t.height := by
  induction inside with
  | here => exact Nat.le_refl _
  | child member _ ih => exact Nat.le_trans ih (Nat.le_of_lt (height_child_lt member))

theorem height_withPos (t : Ty) (pos : Position) : (t.withPos pos).height = t.height := by
  rw [height_eq, height_eq, children_withPos]

theorem height_makeUnion_le {ts : List Ty} {n : Nat} (each : ∀ t ∈ ts, t.height < n) (pos : Position) :
    (makeUnion ts pos).height ≤ n := by
  have low : ∀ m ∈ firstOccurrences (ts.flatMap members), m.height < n := by
    intro m member
    obtain ⟨t, atItem, atMember⟩ := List.mem_flatMap.1 (mem_of_mem_firstOccurrences member)
    exact Nat.lt_of_le_of_lt (height_of_inside (inside_of_mem_members t m atMember)) (each t atItem)
  unfold makeUnion
  split
  · exact height_le_iff.2 (List.forall_mem_nil _)
  · rename_i t single
    exact Nat.le_of_lt (low t (by simp [single]))
  · exact height_le_iff.2 low

theorem height_rebuild_le {t : Ty} {cs : List Ty} (sameLength : cs.length = t.children.length) {n : Nat}
    (each : ∀ c ∈ cs, c.height < n) : (t.rebuild cs).height ≤ n := by
  cases t using Ty.unionCases with
  | union ms pos => exact height_makeUnion_le each pos
  | other t notUnion =>
    rw [rebuild_of_not_union notUnion, height_le_iff, children_withChildren t cs sameLength]
    exact each

end Ty

/-- The height of the highest of the types. -/
def deepest (ts : List Ty) : Nat := ts.foldr (fun t deepest => max t.height deepest) 0

theorem height_le_deepest {ts : List Ty} {t : Ty} (member : t ∈ ts) : t.height ≤ deepest ts :=
  (foldr_max_le_iff Ty.height ts _).1 (Nat.le_refl _) t member

/-! Substitution that nothing is cut off from -/

section Replaced

variable {formals : List String} {values : List Ty} {pos : Position}

theorem replaced_of_formal {t value : Ty} (found : substitute? formals values t = some value) :
    replaceFormals formals values pos t = value := by
  rw [replaceFormals_eq, found]

theorem replaced_of_leaf {t : Ty} (notFormal : substitute? formals values t = none) (leaf : t.children = []) :
    replaceFormals formals values pos t = t := by
  simp [replaceFormals_eq _ _ _ t, notFormal, leaf]

theorem replaced_of_node {t : Ty} (notFormal : substitute? formals values t = none) (parts : t.children ≠ []) :
    replaceFormals formals values pos t = (t.rebuild (t.children.map (replaceFormals formals values pos))).withPos pos := by
  simp [replaceFormals_eq _ _ _ t, notFormal, parts]

/-- In a type that is not nested too deep nothing is cut off. -/
theorem substituteAt_of_fits {t : Ty} {depth : Nat} (fits : depth + t.height ≤ maxSubstitutionDepth) :
    substituteAt formals values pos t depth = (replaceFormals formals values pos t, false) := by
  induction t using Ty.inductionOn generalizing depth with
  | step t ih =>
    rw [substituteAt_eq]
    cases found : substitute? formals values t with
    | some value => rw [replaced_of_formal found]
    | none =>
      by_cases leaf : t.children = []
      · simp [replaced_of_leaf found leaf, leaf]
      · obtain ⟨c, member⟩ := List.exists_mem_of_ne_nil _ leaf
        have shallow : ¬ maxSubstitutionDepth ≤ depth := by
          have below := Ty.height_child_lt member
          omega
        have results : (t.children.map fun c => substituteAt formals values pos c (depth + 1)) =
            t.children.map fun c => (replaceFormals formals values pos c, false) := by
          refine List.map_congr_left fun c member => ih c member ?_
          have below := Ty.height_child_lt member
          omega
        simp only [List.isEmpty_iff, leaf, if_false, shallow, results, replaced_of_node found leaf]
        simp [Function.comp_def]

theorem substitute_of_fits {t : Ty} (fits : t.height ≤ maxSubstitutionDepth) :
    substitute t formals values pos = (replaceFormals formals values pos t, []) := by
  have here : substituteAt formals values pos t 0 = (replaceFormals formals values pos t, false) :=
    substituteAt_of_fits (by omega)
  simp [substitute, here]

/-- Substitution makes a type higher by no more than the highest value. -/
theorem height_replaced_le (t : Ty) : (replaceFormals formals values pos t).height ≤ t.height + deepest values := by
  induction t using Ty.inductionOn with
  | step t ih =>
    cases found : substitute? formals values t with
    | some value =>
      rw [replaced_of_formal found]
      exact Nat.le_add_left_of_le (height_le_deepest (mem_of_substitute? found))
    | none =>
      by_cases leaf : t.children = []
      · rw [replaced_of_leaf found leaf]
        exact Nat.le_add_right _ _
      · rw [replaced_of_node found leaf, Ty.height_withPos]
        refine Ty.height_rebuild_le (by simp) fun c member => ?_
        obtain ⟨source, atChild, rfl⟩ := List.mem_map.1 member
        have below := Ty.height_child_lt atChild
        have bound := ih source atChild
        omega

/-- The place of a substitution does not count. -/
theorem replaced_moved (p q : Position) (t : Ty) :
    replaceFormals formals values p t ≈ replaceFormals formals values q t := by
  induction t using Ty.inductionOn with
  | step t ih =>
    cases found : substitute? formals values t with
    | some value =>
      rw [replaced_of_formal found, replaced_of_formal found]
    | none =>
      by_cases leaf : t.children = []
      · rw [replaced_of_leaf found leaf, replaced_of_leaf found leaf]
      · rw [replaced_of_node found leaf, replaced_of_node found leaf]
        refine Ty.withPos_congr (t.rebuild_congr ?_ (by simp)) p q
        simp only [List.forall₂_map_left_iff, List.forall₂_map_right_iff]
        exact List.forall₂_same.2 ih

/-- A type in which a formal stands for each part whose form is not allowed has `H` once the formals are replaced. -/
theorem Ty.Inherited.replaced {Q H : Ty → Prop} (inherited : Ty.Inherited Q H) (given : ∀ v ∈ values, H v) {t : Ty}
    (all : t.Everywhere fun x => Q x ∨ (substitute? formals values x).isSome) :
    H (replaceFormals formals values pos t) := by
  induction t using Ty.inductionOn with
  | step t ih =>
    cases found : substitute? formals values t with
    | some value =>
      rw [replaced_of_formal found]
      exact given value (mem_of_substitute? found)
    | none =>
      have allowed : Q t := all.root.resolve_right (by simp [found])
      by_cases leaf : t.children = []
      · rw [replaced_of_leaf found leaf]
        exact inherited.node allowed (by simp [leaf])
      · rw [replaced_of_node found leaf]
        refine inherited.move pos (inherited.rebuild allowed (by simp) fun c member => ?_)
        obtain ⟨source, atChild, rfl⟩ := List.mem_map.1 member
        exact ih source atChild (all.child atChild)

end Replaced

namespace Ty

/-- The type is no variable of one of these names. -/
def NoVariableOf (names : List String) : Ty → Prop
  | .typeVar binding _ => binding.name ∉ names
  | _ => True

/-- What is named by the second formals is named by the first ones too, so that none of it is left for the second. -/
def ReplacedFirst (first second : List String) (t : Ty) : Prop :=
  ∀ name ∈ t.formalName?, name ∈ second → name ∈ first

instance (names : List String) (t : Ty) : Decidable (t.NoVariableOf names) :=
  match t with
  | .typeVar binding _ => inferInstanceAs (Decidable (binding.name ∉ names))
  | .inst _ | .tuple _ | .record _ | .callable _ | .union .. | .classObject .. | .star .. | .argument .. | .forward ..
  | .named _ | .bracketed .. | .any .. | .noneType _ | .never .. | .deleted .. | .literal _ | .ellipsis _ | .scalar .. =>
    .isTrue trivial

instance (first second : List String) (t : Ty) : Decidable (t.ReplacedFirst first second) :=
  inferInstanceAs (Decidable (∀ name ∈ t.formalName?, name ∈ second → name ∈ first))

theorem formalName?_withChildren (t : Ty) (cs : List Ty) : (t.withChildren cs).formalName? = t.formalName? := by
  cases t <;> rfl

theorem noVariableOf_withPos {names : List String} {t : Ty} (pos : Position) (here : t.NoVariableOf names) :
    (t.withPos pos).NoVariableOf names := by
  cases t <;> exact here

theorem noVariableOf_inherited (names : List String) :
    Inherited (NoVariableOf names) (Everywhere (NoVariableOf names)) := by
  refine .everywhere id (fun {t} composed => ?_) (fun {t} cs atRoot => ?_) fun pos => noVariableOf_withPos pos
  · cases t <;> trivial
  · cases t <;> exact atRoot

end Ty

section Congruence

variable {formals : List String} {values : List Ty} {pos : Position}

theorem substitute?_of_not_named {t : Ty} (notNamed : ∀ name, t.formalName? = some name → name ∉ formals) :
    substitute? formals values t = none := by
  unfold substitute?
  cases named : t.formalName? with
  | none => rfl
  | some name =>
    rw [Option.bind_some, List.idxOf?_eq_none_iff.2 (notNamed name named)]
    rfl

/-- Equal references stand for the same; equal variables need not have the same name. -/
theorem substitute?_of_equal {a b : Ty} (equal : a ≈ b) (noA : a.NoVariableOf formals) (noB : b.NoVariableOf formals) :
    substitute? formals values a = substitute? formals values b := by
  cases Ty.matches_of_beq equal with
  | named name =>
    have sameName := congrArg some name
    unfold substitute?
    simp only [Ty.formalName?, sameName]
  | typeVar =>
    have apart {binding : TypeVarBinding} {pos : Position} (none : (Ty.typeVar binding pos).NoVariableOf formals) :
        substitute? formals values (.typeVar binding pos) = Option.none := by
      refine substitute?_of_not_named fun name named => ?_
      cases named
      exact none
    rw [apart noA, apart noB]
  | _ => rfl

/-- Equal types stay equal when the same is substituted in both. -/
theorem replaced_congr {a b : Ty} (equal : a ≈ b) (noA : a.Everywhere (Ty.NoVariableOf formals))
    (noB : b.Everywhere (Ty.NoVariableOf formals)) :
    replaceFormals formals values pos a ≈ replaceFormals formals values pos b := by
  induction a using Ty.inductionOn generalizing b with
  | step a ih =>
    have same : substitute? formals values a = substitute? formals values b :=
      substitute?_of_equal equal noA.root noB.root
    cases found : substitute? formals values a with
    | some value =>
      rw [replaced_of_formal found, replaced_of_formal (same.symm.trans found)]
    | none =>
      have found' := same.symm.trans found
      have sameLeaf : a.children = [] ↔ b.children = [] := by
        simp only [List.eq_nil_iff_forall_not_mem]
        constructor
        · intro leaf d member
          obtain ⟨c, atSource, _⟩ := Ty.child_of_beq equal member
          exact leaf c atSource
        · intro leaf c member
          obtain ⟨d, atTarget, _⟩ := Ty.child_of_beq (Setoid.symm equal) member
          exact leaf d atTarget
      by_cases leaf : a.children = []
      · rwa [replaced_of_leaf found leaf, replaced_of_leaf found' (sameLeaf.1 leaf)]
      · rw [replaced_of_node found leaf, replaced_of_node found' (mt sameLeaf.2 leaf)]
        refine Ty.withPos_congr (Ty.rebuild_map_congr equal fun c member d member' equal => ?_) pos pos
        exact ih c member equal (noA.child member) (noB.child member')

end Congruence

section Unions

variable {formals : List String} {values : List Ty} {pos : Position}

theorem Ty.FlatUnion.replaced_equal {t : Ty} (flat : t.FlatUnion) (notFormal : substitute? formals values t = none) :
    replaceFormals formals values pos t ≈ t.rebuild (t.children.map (replaceFormals formals values pos)) := by
  by_cases leaf : t.children = []
  · have notUnion : t.isUnion = false := by
      cases t with
      | union ms =>
        have several := flat.several
        rw [show ms = [] from leaf] at several
        exact absurd several (by decide)
      | _ => rfl
    have kept := t.withChildren_children
    rw [leaf] at kept
    rw [replaced_of_leaf notFormal leaf, leaf, List.map_nil, Ty.rebuild_of_not_union notUnion, kept]
  · rw [replaced_of_node notFormal leaf]
    exact Ty.withPos_equal _ pos

variable (flatValues : ∀ v ∈ values, v.FlatUnion)

include flatValues

theorem replaced_flatUnion {t : Ty} (flat : t.FlatUnion) : (replaceFormals formals values pos t).FlatUnion := by
  cases found : substitute? formals values t with
  | some value =>
    rw [replaced_of_formal found]
    exact flatValues value (mem_of_substitute? found)
  | none =>
    by_cases leaf : t.children = []
    · rwa [replaced_of_leaf found leaf]
    · rw [replaced_of_node found leaf]
      exact Ty.flatUnion_ofNodes.withPos pos (t.rebuild_flatUnion _)

/-- The members that a flat type has after a substitution are those that its members have after it. -/
theorem members_replaced {t : Ty} (flat : t.FlatUnion) : SameTypes (replaceFormals formals values pos t).members
    (t.members.flatMap fun m => (replaceFormals formals values pos m).members) := by
  cases t using Ty.unionCases with
  | union ms at_ =>
    have opens : (Ty.union ms at_).members = ms := Ty.FlatUnion.members_union flat
    have made : replaceFormals formals values pos (.union ms at_) ≈
        .makeUnion (ms.map (replaceFormals formals values pos)) at_ :=
      flat.replaced_equal rfl
    rw [opens]
    refine (Ty.members_of_equal made).trans (Ty.members_makeUnion_map flat (fun m member => ?_) at_)
    exact replaced_flatUnion flatValues (Ty.flatUnion_of_not_union (flat.flat m member))
  | other t notUnion =>
    rw [Ty.members_of_not_union notUnion, List.flatMap_singleton]
    exact .refl _

/-- It is the same to substitute in a union and to make a union of what it was substituted in. -/
theorem replaced_makeUnion {ts : List Ty} (flat : ∀ t ∈ ts, t.FlatUnion)
    (none : ∀ t ∈ ts, t.Everywhere (Ty.NoVariableOf formals)) (at_ : Position) :
    replaceFormals formals values pos (.makeUnion ts at_) ≈
      .makeUnion (ts.map (replaceFormals formals values pos)) at_ := by
  have flatMade := Ty.makeUnion_flatUnion ts at_
  have noneMade := (Ty.noVariableOf_inherited formals).ofMembers.makeUnion none at_
  refine Ty.map_makeUnion ?_ (fun _ => replaced_flatUnion flatValues) (fun t member => ?_)
    fun x atSource y atTarget equal => ?_
  · rw [replaced_of_leaf rfl rfl]
  · rcases List.mem_cons.1 member with rfl | member
    · exact members_replaced flatValues flatMade
    · exact members_replaced flatValues (flat t member)
  · obtain ⟨t, member, inside⟩ := List.mem_flatMap.1 atTarget
    exact replaced_congr equal (noneMade.of_inside (Ty.inside_of_mem_members _ x atSource))
      ((none t member).of_inside (Ty.inside_of_mem_members t y inside))

/-- A substitution in a type that is no formal goes on in what the type is made anew of. -/
theorem replaced_rebuild {t : Ty} (notFormal : substitute? formals values t = none) {cs : List Ty}
    (sameLength : cs.length = t.children.length) (flat : ∀ c ∈ cs, c.FlatUnion)
    (none : ∀ c ∈ cs, c.Everywhere (Ty.NoVariableOf formals)) :
    replaceFormals formals values pos (t.rebuild cs) ≈ t.rebuild (cs.map (replaceFormals formals values pos)) := by
  cases t using Ty.unionCases with
  | union ms at_ => exact replaced_makeUnion flatValues flat none at_
  | other t notUnion =>
    have notUnion' := (t.isUnion_withChildren cs).trans notUnion
    have notFormal' : substitute? formals values (t.withChildren cs) = Option.none := by
      rw [substitute?, Ty.formalName?_withChildren]
      exact notFormal
    have made : replaceFormals formals values pos (t.withChildren cs) ≈ _ :=
      (Ty.flatUnion_of_not_union notUnion').replaced_equal notFormal'
    rw [Ty.rebuild_of_not_union notUnion', Ty.children_withChildren t cs sameLength,
      Ty.withChildren_withChildren _ _ _ (by simp)] at made
    rwa [Ty.rebuild_of_not_union notUnion, Ty.rebuild_of_not_union notUnion]

end Unions

/-! One substitution after another -/

theorem substitute?_map (formals : List String) (values : List Ty) (f : Ty → Ty) (t : Ty) :
    substitute? formals (values.map f) t = (substitute? formals values t).map f := by
  unfold substitute?
  cases t.formalName? with
  | none => rfl
  | some name =>
    simp only [Option.bind_some]
    cases formals.idxOf? name <;> simp

section Composition

variable {formals formals' : List String} {values values' : List Ty} (sameNumber : values.length = formals.length)
  (flatValues : ∀ v ∈ values, v.FlatUnion) (flatValues' : ∀ v ∈ values', v.FlatUnion)
  (noVariable : ∀ v ∈ values, v.Everywhere (Ty.NoVariableOf formals'))

include sameNumber

theorem Ty.ReplacedFirst.isSome_of_named {t : Ty} (first : t.ReplacedFirst formals formals') {name : String}
    (named : t.formalName? = some name) (member : name ∈ formals') : (substitute? formals values t).isSome :=
  substitute?_isSome sameNumber named (first name named member)

theorem Ty.ReplacedFirst.noVariable_or_isSome {t : Ty} (first : t.ReplacedFirst formals formals') :
    t.NoVariableOf formals' ∨ (substitute? formals values t).isSome := by
  cases t with
  | typeVar binding =>
    by_cases member : binding.name ∈ formals'
    · exact .inr (first.isSome_of_named sameNumber rfl member)
    · exact .inl member
  | _ => exact .inl trivial

include noVariable

theorem replaced_noVariable {t : Ty} (first : t.Everywhere (Ty.ReplacedFirst formals formals')) (pos : Position) :
    (replaceFormals formals values pos t).Everywhere (Ty.NoVariableOf formals') :=
  (Ty.noVariableOf_inherited formals').replaced noVariable
    (first.imp fun x (first : x.ReplacedFirst formals formals') => first.noVariable_or_isSome sameNumber)

include flatValues flatValues'

/-- In a type that is no formal both substitutions are made in the children. -/
theorem replaced_replaced_of_not_formal {t : Ty} (notFormal : substitute? formals values t = none)
    (flat : t.Everywhere Ty.FlatUnion) (first : t.Everywhere (Ty.ReplacedFirst formals formals')) (p q : Position) :
    replaceFormals formals' values' q (replaceFormals formals values p t) ≈
      t.rebuild ((t.children.map (replaceFormals formals values p)).map (replaceFormals formals' values' q)) := by
  have notFormal' : substitute? formals' values' t = none := by
    refine substitute?_of_not_named fun name named member => ?_
    have isFormal := first.root.isSome_of_named sameNumber named member
    rw [notFormal] at isFormal
    cases isFormal
  have noParts : ∀ c ∈ t.children.map (replaceFormals formals values p), c.Everywhere (Ty.NoVariableOf formals') := by
    intro c member
    obtain ⟨source, atChild, rfl⟩ := List.mem_map.1 member
    exact replaced_noVariable sameNumber noVariable (first.child atChild) p
  have flatParts : ∀ c ∈ t.children.map (replaceFormals formals values p), c.FlatUnion := by
    intro c member
    obtain ⟨source, atChild, rfl⟩ := List.mem_map.1 member
    exact replaced_flatUnion flatValues (flat.child atChild).root
  have noRoot : t.NoVariableOf formals' :=
    (first.root.noVariable_or_isSome sameNumber).resolve_right (by simp [notFormal])
  have noRebuilt := (Ty.noVariableOf_inherited formals').rebuild noRoot (by simp) noParts
  calc replaceFormals formals' values' q (replaceFormals formals values p t)
      ≈ replaceFormals formals' values' q (t.rebuild (t.children.map (replaceFormals formals values p))) :=
        replaced_congr (flat.root.replaced_equal notFormal) (replaced_noVariable sameNumber noVariable first p) noRebuilt
    _ ≈ t.rebuild ((t.children.map (replaceFormals formals values p)).map (replaceFormals formals' values' q)) :=
        replaced_rebuild flatValues' notFormal' (by simp) flatParts noParts

theorem replaced_replaced {t : Ty} (flat : t.Everywhere Ty.FlatUnion)
    (first : t.Everywhere (Ty.ReplacedFirst formals formals')) (p q p' q' : Position) :
    replaceFormals formals' values' q (replaceFormals formals values p t) ≈
      replaceFormals formals (values.map (replaceFormals formals' values' q')) p' t := by
  induction t using Ty.inductionOn with
  | step t ih =>
    have inSecond := substitute?_map formals values (replaceFormals formals' values' q') t
    cases found : substitute? formals values t with
    | some value =>
      rw [found] at inSecond
      rw [replaced_of_formal found, replaced_of_formal inSecond]
      exact replaced_moved q q' value
    | none =>
      rw [found] at inSecond
      have parts : List.Forall₂ (· ≈ ·)
          ((t.children.map (replaceFormals formals values p)).map (replaceFormals formals' values' q))
          (t.children.map (replaceFormals formals (values.map (replaceFormals formals' values' q')) p')) := by
        simp only [List.map_map, List.forall₂_map_left_iff, List.forall₂_map_right_iff, Function.comp_apply]
        exact List.forall₂_same.2 fun c member => ih c member (flat.child member) (first.child member)
      calc replaceFormals formals' values' q (replaceFormals formals values p t)
          ≈ t.rebuild ((t.children.map (replaceFormals formals values p)).map (replaceFormals formals' values' q)) :=
            replaced_replaced_of_not_formal sameNumber flatValues flatValues' noVariable found flat first p q
        _ ≈ t.rebuild (t.children.map (replaceFormals formals (values.map (replaceFormals formals' values' q')) p')) :=
            t.rebuild_congr parts (by simp)
        _ ≈ replaceFormals formals (values.map (replaceFormals formals' values' q')) p' t :=
            Setoid.symm (flat.root.replaced_equal inSecond)

end Composition

/-- To substitute in a type and then in what comes of it is to substitute, once, values in which the second substitution
has been made. Nothing is cut off on either side. -/
theorem substitute_substitute {t : Ty} {formals formals' : List String} {values values' : List Ty}
    (sameNumber : values.length = formals.length) (flat : t.Everywhere Ty.FlatUnion)
    (flatValues : ∀ v ∈ values, v.FlatUnion) (flatValues' : ∀ v ∈ values', v.FlatUnion)
    (first : t.Everywhere (Ty.ReplacedFirst formals formals'))
    (noVariable : ∀ v ∈ values, v.Everywhere (Ty.NoVariableOf formals'))
    (fits : t.height + deepest values ≤ maxSubstitutionDepth) (p q p' q' : Position) :
    ∃ once twice atOnce : Ty, ∃ filled : List Ty,
      substitute t formals values p = (once, []) ∧ substitute once formals' values' q = (twice, []) ∧
      List.Forall₂ (fun v w => substitute v formals' values' q' = (w, [])) values filled ∧
      substitute t formals filled p' = (atOnce, []) ∧ (twice == atOnce) = true := by
  have highest : (replaceFormals formals values p t).height ≤ t.height + deepest values := height_replaced_le t
  refine ⟨_, _, _, values.map (replaceFormals formals' values' q'), substitute_of_fits (by omega),
    substitute_of_fits (by omega), ?_, substitute_of_fits (by omega), ?_⟩
  · refine List.forall₂_map_right_iff.2 (List.forall₂_same.2 fun v member => substitute_of_fits ?_)
    have below := height_le_deepest member
    omega
  · exact replaced_replaced sameNumber flatValues flatValues' noVariable flat first p q p' q'

/-- The type `A | list[A] | B`. -/
def formalsInUnion : Ty :=
  .union [.named (.of "A" []), .named (.of "list" [.named (.of "A" [])]), .named (.of "B" [])] .unknown

/-- With `X` for `A` and `Y | None` for `B`, and then `int` for `X` and for `Y`, two members become one. -/
theorem substitute_substitute_merging : ∃ once twice atOnce : Ty, ∃ filled : List Ty,
    substitute formalsInUnion ["A", "B"] [.named (.of "X" []), .union [.named (.of "Y" []), .noneType .unknown] .unknown]
      ⟨1, 0⟩ = (once, []) ∧
    substitute once ["X", "Y"] [.named (.of "int" []), .named (.of "int" [])] ⟨2, 0⟩ = (twice, []) ∧
    List.Forall₂ (fun v w => substitute v ["X", "Y"] [.named (.of "int" []), .named (.of "int" [])] ⟨3, 0⟩ = (w, []))
      [.named (.of "X" []), .union [.named (.of "Y" []), .noneType .unknown] .unknown] filled ∧
    substitute formalsInUnion ["A", "B"] filled ⟨4, 0⟩ = (atOnce, []) ∧ (twice == atOnce) = true :=
  substitute_substitute rfl (by decide) (by decide) (by decide) (by decide) (by decide) (by decide) _ _ _ _

end TypeResolution
