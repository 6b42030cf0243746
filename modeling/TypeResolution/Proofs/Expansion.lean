import Mathlib.Data.List.Forall2
import TypeResolution.Proofs.Inside

namespace TypeResolution

/-! Substitution -/

section Substitution

variable {P : Ty → Prop} (nodes : Ty.OfNodes P) {formals : List String} {values : List Ty} {pos : Position}

theorem substituteAt_eq (t : Ty) (depth : Nat) :
    substituteAt formals values pos t depth =
      match substitute? formals values t with
      | some value => (value, false)
      | none =>
        if t.children.isEmpty then (t, false)
        else if maxSubstitutionDepth ≤ depth then (.anyAt .error pos, true)
        else
          let results := t.children.map fun c => substituteAt formals values pos c (depth + 1)
          ((t.rebuild (results.map Prod.fst)).withPos pos, results.any Prod.snd) := by
  unfold substituteAt
  rw [Ty.fold_eq]
  simp only [List.map_map]
  rfl

theorem mem_of_substitute? {t value : Ty} (found : substitute? formals values t = some value) : value ∈ values := by
  obtain ⟨name, _, found⟩ := Option.bind_eq_some_iff.1 found
  obtain ⟨index, _, found⟩ := Option.bind_eq_some_iff.1 found
  exact List.mem_of_getElem? found

/-- Values that correspond one by one stand for the same formals. -/
theorem substitute?_forall₂ (formals : List String) {R : Ty → Ty → Prop} {values values' : List Ty}
    (related : List.Forall₂ R values values') (t : Ty) :
    (substitute? formals values t = none ∧ substitute? formals values' t = none) ∨
      ∃ x y, substitute? formals values t = some x ∧ substitute? formals values' t = some y ∧ R x y := by
  unfold substitute?
  cases t.formalName? with
  | none => exact .inl ⟨rfl, rfl⟩
  | some name =>
    simp only [Option.bind_some]
    cases formals.idxOf? name with
    | none => exact .inl ⟨rfl, rfl⟩
    | some index =>
      simp only [Option.bind_some]
      by_cases inRange : index < values.length
      · have inRange' : index < values'.length := related.length_eq ▸ inRange
        refine .inr ⟨values[index], values'[index], List.getElem?_eq_getElem inRange, List.getElem?_eq_getElem inRange', ?_⟩
        exact related.get inRange inRange'
      · have sameLength := related.length_eq
        exact .inl ⟨List.getElem?_eq_none (by omega), List.getElem?_eq_none (by omega)⟩

/-- Substitution in an instance makes an instance of the same class. -/
theorem substituteAt_inst (formals : List String) (values : List Ty) (pos : Position) (i : Instance) :
    ∃ j, (substituteAt formals values pos (.inst i) 0).1 = .inst j ∧ j.head = i.head := by
  have notFormal : substitute? formals values (.inst i) = none := rfl
  rw [substituteAt_eq, notFormal]
  dsimp only
  split
  · exact ⟨i, rfl, rfl⟩
  · split
    · rename_i tooDeep
      exact absurd tooDeep (by decide)
    · exact ⟨_, rfl, rfl⟩

include nodes

theorem substituteAt_everywhere (given : ∀ v ∈ values, v.Everywhere P) {t : Ty} (all : t.Everywhere P)
    (depth : Nat) : (substituteAt formals values pos t depth).1.Everywhere P := by
  induction t using Ty.inductionOn generalizing depth with
  | step t ih =>
    rw [substituteAt_eq]
    split
    · rename_i value found
      exact given value (mem_of_substitute? found)
    · split
      · exact all
      · split
        · exact Ty.everywhere_of_leaf rfl (nodes.other rfl rfl)
        · refine (Ty.rebuild_everywhere nodes all.root (by simp) fun c member => ?_).withPos nodes pos
          simp only [List.map_map, List.mem_map, Function.comp_apply] at member
          obtain ⟨source, atChild, rfl⟩ := member
          exact ih source atChild (all.child atChild) (depth + 1)

/-- What holds below the root of a type holds below the root of what is made of it by substitution. -/
theorem substituteAt_below (given : ∀ v ∈ values, v.Everywhere P) {t : Ty}
    (below : ∀ c ∈ t.children, c.Everywhere P) (depth : Nat) :
    ∀ c ∈ (substituteAt formals values pos t depth).1.children, c.Everywhere P := by
  rw [substituteAt_eq]
  split
  · rename_i value found
    exact fun c member => (given value (mem_of_substitute? found)).child member
  · split
    · exact below
    · split
      · intro c member
        cases member
      · have parts : ∀ c ∈ (t.children.map fun c => substituteAt formals values pos c (depth + 1)).map Prod.fst,
            c.Everywhere P := by
          intro c member
          simp only [List.map_map, List.mem_map, Function.comp_apply] at member
          obtain ⟨source, atChild, rfl⟩ := member
          exact substituteAt_everywhere nodes given (below source atChild) (depth + 1)
        intro c member
        rw [Ty.children_withPos] at member
        cases t using Ty.unionCases with
        | union ms at_ => exact (nodes.ofMembers.makeUnion parts at_).child member
        | other t notUnion =>
          rw [Ty.rebuild_of_not_union notUnion, Ty.children_withChildren _ _ (by simp)] at member
          exact parts c member

end Substitution

/-! Expansion -/

theorem omittedAny_isAny (disallowed : Bool) (pos : Position) (fullname : Option String) (description : String) :
    (omittedAny disallowed pos fullname description).1.isAny := by
  unfold omittedAny
  split <;> rfl

namespace AliasDecl

theorem openFlexible_everywhere {P : Ty → Prop} (nodes : Ty.OfNodes P) {t : Ty} (all : t.Everywhere P) :
    (openFlexible t).Everywhere P := by
  unfold openFlexible
  split
  · rename_i i
    split
    · cases last : i.args.getLast? with
      | none => exact nodes.everywhere_of_isAny rfl
      | some t => exact all.child (List.mem_of_getLast? last)
    · exact all
  · exact all

/-- What an alias may be expanded to: its class with the arguments, its target, or its target with something
substituted for the formals. -/
inductive Expansion (a : AliasDecl) (args : List Ty) (pos : Position) : Ty → Prop
  | bare {head : ClassHead} : a.targetClass? = some head → Expansion a args pos (.inst (.of head args pos))
  | target : a.formals = [] → Expansion a args pos a.target
  | filled {values : List Ty} : values.length = a.formals.length → (∀ v ∈ values, v.isAny) →
      Expansion a args pos (substituteAt a.formals values pos a.target 0).1
  | applied : args.length = a.formals.length →
      Expansion a args pos (openFlexible (substituteAt a.formals args pos a.target 0).1)

theorem substituteAny_filled (t : Ty) (formals : List String) (pos : Position) (fromError disallowAny : Bool)
    (written : Option String) : ∃ values : List Ty, values.length = formals.length ∧ (∀ v ∈ values, v.isAny) ∧
      (substituteAny t formals pos fromError disallowAny written).1 = (substituteAt formals values pos t 0).1 := by
  have fillers (filler : Ty) (isAny : filler.isAny) : ∀ v ∈ List.replicate formals.length filler, v.isAny := by
    intro v member
    rwa [(List.mem_replicate.1 member).2]
  unfold substituteAny
  cases disallowAny with
  | true =>
    simp only [if_true]
    exact ⟨_, List.length_replicate, fillers _ (omittedAny_isAny _ _ _ _), rfl⟩
  | false =>
    exact ⟨_, List.length_replicate, fillers (.anyAt (if fromError then .error else .omittedArguments) pos) rfl, rfl⟩

theorem expand_expansion (a : AliasDecl) (args : List Ty) (pos : Position) (written : Option String)
    (disallowAny : Bool) : a.Expansion args pos (a.expand args pos written disallowAny).1 := by
  have filled (fromError disallowed : Bool) (name : Option String) :
      a.Expansion args pos (substituteAny a.target a.formals pos fromError disallowed name).1 := by
    obtain ⟨values, length, areAny, equal⟩ := substituteAny_filled a.target a.formals pos fromError disallowed name
    rw [equal]
    exact .filled length areAny
  unfold expand
  split
  · exact filled false disallowAny written
  · rename_i noFormals
    split
    · rename_i head _ _ atClass
      exact .bare atClass
    · exact .target noFormals
  · split
    · rename_i head _ _ atClass
      exact .bare atClass
    · split
      · rename_i sameNumber
        exact .applied sameNumber
      · exact filled true false none

/-- What an alias means with arguments. -/
theorem expand_cons (a : AliasDecl) (arg : Ty) (args : List Ty) (pos : Position) (written : Option String)
    (disallowAny : Bool) :
    a.expand (arg :: args) pos written disallowAny =
      match a.formals, a.isBare, a.targetClass? with
      | [], true, some head => (.inst (.of head (arg :: args) pos), [])
      | _, _, _ =>
        if (arg :: args).length = a.formals.length then
          (openFlexible (substitute a.target a.formals (arg :: args) pos).1,
            (substitute a.target a.formals (arg :: args) pos).2)
        else
          ((substituteAny a.target a.formals pos true false none).1,
            ⟨pos, .aliasArgumentCount a.formals.length (arg :: args).length⟩ ::
              (substituteAny a.target a.formals pos true false none).2) := by
  unfold expand
  cases a.formals <;> rfl

/-- What a generic alias means without arguments. -/
theorem expand_omitted {a : AliasDecl} (generic : a.formals ≠ []) (pos : Position) (written : Option String)
    (disallowAny : Bool) :
    a.expand [] pos written disallowAny = substituteAny a.target a.formals pos false disallowAny written := by
  unfold expand
  cases formals : a.formals with
  | nil => exact absurd formals generic
  | cons => rfl

/-- What a generic alias means with an argument for each formal. -/
theorem expand_applied {a : AliasDecl} {args : List Ty} (generic : a.formals ≠ []) (sameNumber : args.length = a.formals.length)
    (pos : Position) (written : Option String) (disallowAny : Bool) :
    a.expand args pos written disallowAny =
      (openFlexible (substitute a.target a.formals args pos).1, (substitute a.target a.formals args pos).2) := by
  cases args with
  | nil => exact absurd (List.length_eq_zero_iff.1 sameNumber.symm) generic
  | cons arg args =>
    rw [expand_cons, if_pos sameNumber]
    cases formals : a.formals with
    | nil => exact absurd formals generic
    | cons => rfl

/-- What holds everywhere in the target and in the arguments holds everywhere in the expansion. -/
theorem Expansion.everywhere {P : Ty → Prop} (nodes : Ty.OfNodes P)
    (instances : ∀ i j : Instance, j.head = i.head → P (.inst i) → P (.inst j))
    {a : AliasDecl} {args : List Ty} {pos : Position} {t : Ty} (expanded : a.Expansion args pos t)
    (all : a.target.Everywhere P) (given : ∀ v ∈ args, v.Everywhere P) : t.Everywhere P := by
  cases expanded with
  | bare atClass =>
    refine Ty.everywhere_iff.2 ⟨?_, given⟩
    unfold targetClass? at atClass
    split at atClass
    · rename_i i atTarget
      cases atClass
      exact instances i _ rfl (atTarget ▸ all.root)
    · cases atClass
  | target => exact all
  | filled _ areAny => exact substituteAt_everywhere nodes (fun v member => nodes.everywhere_of_isAny (areAny v member)) all 0
  | applied => exact openFlexible_everywhere nodes (substituteAt_everywhere nodes given all 0)

/-- What holds everywhere below the root of the target and in the arguments holds everywhere below the root of
the expansion. -/
theorem Expansion.below {P : Ty → Prop} (nodes : Ty.OfNodes P) {a : AliasDecl} {args : List Ty} {pos : Position}
    {t : Ty} (expanded : a.Expansion args pos t) (all : ∀ c ∈ a.target.children, c.Everywhere P)
    (given : ∀ v ∈ args, v.Everywhere P) : ∀ c ∈ t.children, c.Everywhere P := by
  cases expanded with
  | bare => exact given
  | target => exact all
  | filled _ areAny =>
    exact substituteAt_below nodes (fun v member => nodes.everywhere_of_isAny (areAny v member)) all 0
  | applied =>
    have below : ∀ c ∈ (substituteAt a.formals args pos a.target 0).1.children, c.Everywhere P :=
      substituteAt_below nodes given all 0
    unfold openFlexible
    split
    · rename_i i atRoot
      rw [atRoot] at below
      split
      · intro c member
        cases last : i.args.getLast? with
        | none =>
          rw [last] at member
          cases member
        | some t =>
          rw [last] at member
          exact (below t (List.mem_of_getLast? last)).child member
      · exact below
    · exact below

end AliasDecl

end TypeResolution
