import TypeResolution.Proofs.AliasUse
import TypeResolution.Proofs.EqualForms

namespace TypeResolution

namespace Ty

/-- No class object of a union: of a union there is the union of the class objects. -/
def Distributed : Ty → Prop
  | .classObject item _ => item.isUnion = false
  | _ => True

instance : DecidablePred Distributed := fun t =>
  match t with
  | .classObject item _ => inferInstanceAs (Decidable (item.isUnion = false))
  | .inst _ | .tuple _ | .record _ | .callable _ | .union .. | .star .. | .argument .. | .forward .. | .named _
  | .bracketed .. | .any .. | .noneType _ | .never .. | .deleted .. | .typeVar .. | .literal _ | .ellipsis _ | .scalar .. =>
    .isTrue trivial

theorem not_union_of_isAny {t : Ty} (isAny : t.isAny) : t.isUnion = false := by
  cases t <;> first | rfl | cases isAny

theorem distributed_of_isAny {t : Ty} (isAny : t.isAny) : t.Everywhere Distributed := by
  cases t with
  | any => exact everywhere_of_leaf rfl trivial
  | _ => cases isAny

theorem distributed_ofMembers : OfMembers (·.Everywhere Distributed) where
  never _ := everywhere_of_leaf rfl trivial
  noneType _ := everywhere_of_leaf rfl trivial
  union _ _ all := everywhere_iff.2 ⟨trivial, all⟩
  member all _ member := all.child member
  classObject _ single all := by
    refine everywhere_iff.2 ⟨single, fun c member => ?_⟩
    rw [List.mem_singleton.1 member]
    exact all

theorem distributed_of_equal (a b : Ty) (equal : a ≈ b) (distributed : a.Distributed) : b.Distributed := by
  cases matches_of_beq equal with
  | classObject item => exact (isUnion_of_equal item).symm.trans distributed
  | _ => trivial

theorem everywhere_distributed_withPos (t : Ty) (pos : Position) :
    (t.withPos pos).Everywhere Distributed ↔ t.Everywhere Distributed := by
  have atRoot : (t.withPos pos).Distributed ↔ t.Distributed := by cases t <;> rfl
  rw [everywhere_iff, everywhere_iff (t := t), children_withPos, atRoot]

/-- A form made anew is distributed exactly if its children are, and none of them comes as a union into a class object. -/
theorem rebuild_distributed_iff {t : Ty} {cs : List Ty} (sameLength : cs.length = t.children.length) :
    (t.rebuild cs).Everywhere Distributed ↔ (∀ c ∈ cs, c.Everywhere Distributed) ∧
      ∀ item pos, t = .classObject item pos → ∀ c ∈ cs, c.isUnion = false := by
  cases t with
  | union ms pos =>
    constructor
    · intro all
      refine ⟨everywhere_of_makeUnion (fun _ _ => trivial) (fun _ _ _ _ equal => ?_) all, ?_⟩
      · exact Everywhere.of_equal distributed_of_equal equal
      · rintro item at_ ⟨⟩
    · rintro ⟨all, _⟩
      exact distributed_ofMembers.makeUnion all pos
  | classObject item pos =>
    obtain ⟨c, rfl⟩ := List.length_eq_one_iff.1 sameLength
    constructor
    · intro all
      refine ⟨fun d member => all.child member, fun _ _ _ d member => ?_⟩
      rw [List.mem_singleton.1 member]
      exact all.root
    · rintro ⟨all, apart⟩
      exact everywhere_iff.2 ⟨apart item pos rfl c (List.mem_singleton_self c), all⟩
  | _ =>
    constructor
    · intro all
      refine ⟨fun c member => all.child ?_, ?_⟩
      · simp only [rebuild]
        rwa [children_withChildren _ cs sameLength]
      · rintro item at_ ⟨⟩
    · rintro ⟨all, _⟩
      refine everywhere_iff.2 ⟨trivial, fun c member => all c ?_⟩
      simp only [rebuild] at member
      rwa [children_withChildren _ cs sameLength] at member

end Ty

namespace AliasDecl

variable {a : AliasDecl} {values : List Ty} {pos : Position}

/-- Only where a union is put in the place of a formal does a union come out of what was none. -/
theorem isUnion_substituteAt {formals : List String} {t : Ty} (single : t.isUnion = false)
    (apart : ∀ v, substitute? formals values t = some v → v.isUnion = false) (depth : Nat) :
    (substituteAt formals values pos t depth).1.isUnion = false := by
  rw [substituteAt_eq]
  split
  · rename_i value found
    exact apart value found
  · split
    · exact single
    · split
      · rfl
      · have sameForm (cs : List Ty) : ((t.rebuild cs).withPos pos).isUnion = (t.withChildren cs).isUnion := by
          rw [Ty.rebuild_of_not_union single]
          cases t.withChildren cs <;> rfl
        rw [sameForm, Ty.isUnion_withChildren, single]

/-- No union is put in the place of a formal of which the class object stands in a part of the target. -/
def KeepsApart (a : AliasDecl) (values : List Ty) (t : Ty) (depth : Nat) : Prop :=
  ∀ item pos, a.Exposes (.classObject item pos) t depth → ∀ v, substitute? a.formals values item = some v →
    v.isUnion = false

theorem KeepsApart.of_single (single : ∀ v ∈ values, v.isUnion = false) (t : Ty) (depth : Nat) :
    a.KeepsApart values t depth :=
  fun _ _ _ v found => single v (mem_of_substitute? found)

theorem substituteAt_distributed (given : ∀ v ∈ values, v.Everywhere Ty.Distributed)
    (sameNumber : values.length = a.formals.length) {t : Ty} (distributed : t.Everywhere Ty.Distributed) {depth : Nat}
    (apart : a.KeepsApart values t depth) : (substituteAt a.formals values pos t depth).1.Everywhere Ty.Distributed := by
  induction t using Ty.inductionOn generalizing depth with
  | step t ih =>
    rw [substituteAt_eq]
    split
    · rename_i value found
      exact given value (mem_of_substitute? found)
    · rename_i kept
      split
      · exact distributed
      · split
        · exact Ty.distributed_of_isAny rfl
        · rename_i notDeep
          have survives : a.Survives t depth := ⟨not_formal_of_substitute? sameNumber kept, .inr (.inr (by omega))⟩
          refine (Ty.everywhere_distributed_withPos _ pos).2 ((Ty.rebuild_distributed_iff (by simp)).2 ⟨?_, ?_⟩)
          · intro c member
            simp only [List.map_map, List.mem_map, Function.comp_apply] at member
            obtain ⟨source, atChild, rfl⟩ := member
            exact ih source atChild (distributed.child atChild) fun item at_ exposed =>
              apart item at_ (.inside survives atChild exposed)
          · rintro item at_ rfl c member
            simp only [List.map_map, List.mem_map, Function.comp_apply] at member
            obtain ⟨source, atChild, rfl⟩ := member
            rw [List.mem_singleton.1 atChild]
            exact isUnion_substituteAt distributed.root (apart item at_ (.here survives)) (depth + 1)

theorem keepsApart_of_distributed (generic : a.formals ≠ []) {t : Ty} {depth : Nat}
    (distributed : (substituteAt a.formals values pos t depth).1.Everywhere Ty.Distributed) :
    a.KeepsApart values t depth := by
  induction t using Ty.inductionOn generalizing depth with
  | step t ih =>
    intro item at_ exposed v found
    have survives := exposed.survives
    have hasParts : t.children ≠ [] := by
      cases exposed with
      | here => exact List.cons_ne_nil _ _
      | inside _ atChild => exact List.ne_nil_of_mem atChild
    have notDeep : ¬ maxSubstitutionDepth ≤ depth := by
      have within := (survives.2.resolve_left generic).resolve_left hasParts
      omega
    rw [substituteAt_eq, substitute?_of_survives survives] at distributed
    dsimp only at distributed
    rw [if_neg (by simpa using hasParts), if_neg notDeep, Ty.everywhere_distributed_withPos] at distributed
    obtain ⟨parts, apart⟩ := (Ty.rebuild_distributed_iff (by simp)).1 distributed
    cases exposed with
    | here =>
      have made := apart item at_ rfl (substituteAt a.formals values pos item (depth + 1)).1 (by simp [Ty.children])
      rwa [substituteAt_eq, found] at made
    | inside _ atChild exposed =>
      refine ih _ atChild (parts _ ?_) item at_ exposed v found
      exact List.mem_map_of_mem (List.mem_map_of_mem atChild)

theorem openFlexible_distributed {t : Ty} (distributed : t.Everywhere Ty.Distributed) :
    (openFlexible t).Everywhere Ty.Distributed := by
  unfold openFlexible
  split
  · rename_i i
    split
    · cases last : i.args.getLast? with
      | none => exact Ty.distributed_of_isAny rfl
      | some t => exact distributed.child (List.mem_of_getLast? last)
    · exact distributed
  · exact distributed

/-- The expansion of an alias is distributed, as its target and its arguments are, if no argument that is a union comes into
a class object; so it is if no argument is a union. If one comes there, the expansion is not distributed, unless it is an
instance that stands for its last argument. -/
theorem expand_distributed {a : AliasDecl} {args : List Ty} (target : a.target.Everywhere Ty.Distributed)
    (given : ∀ v ∈ args, v.Everywhere Ty.Distributed) (pos : Position) (written : Option String) (disallowAny : Bool) :
    ((args.length = a.formals.length → a.KeepsApart args a.target 0) →
      (a.expand args pos written disallowAny).1.Everywhere Ty.Distributed) ∧
    ((∀ v ∈ args, v.isUnion = false) → (a.expand args pos written disallowAny).1.Everywhere Ty.Distributed) ∧
    ((substituteAt a.formals args pos a.target 0).1.NotFlexible →
      (a.expand args pos written disallowAny).1.Everywhere Ty.Distributed →
        args.length = a.formals.length → a.KeepsApart args a.target 0) := by
  have keeps (apart : args.length = a.formals.length → a.KeepsApart args a.target 0) :
      (a.expand args pos written disallowAny).1.Everywhere Ty.Distributed := by
    have expansion := a.expand_expansion args pos written disallowAny
    generalize (a.expand args pos written disallowAny).1 = expanded at expansion ⊢
    cases expansion with
    | bare => exact Ty.everywhere_iff.2 ⟨trivial, given⟩
    | target => exact target
    | filled sameNumber areAny =>
      refine substituteAt_distributed (fun v member => Ty.distributed_of_isAny (areAny v member)) sameNumber target ?_
      exact .of_single (fun v member => Ty.not_union_of_isAny (areAny v member)) _ _
    | applied sameNumber =>
      exact openFlexible_distributed (substituteAt_distributed given sameNumber target (apart sameNumber))
  refine ⟨keeps, fun single => keeps fun _ => .of_single single _ _, fun plain distributed sameNumber => ?_⟩
  by_cases generic : a.formals = []
  · intro item at_ _ v found
    have none : args = [] := by
      rw [generic] at sameNumber
      exact List.length_eq_zero_iff.1 sameNumber
    rw [none] at found
    cases mem_of_substitute? found
  · have unopened : (a.expand args pos written disallowAny).1 = (substituteAt a.formals args pos a.target 0).1 := by
      rw [expand_applied generic sameNumber, substitute, openFlexible_of_notFlexible plain]
    rw [unopened] at distributed
    exact keepsApart_of_distributed generic distributed

/-- The alias `A[T] = Type[T]`. -/
def classObjectAlias : AliasDecl := ⟨"m.A", .classObject (.named (.of "T" [])) .unknown, ["T"], false, []⟩

theorem expand_distributed_classObject :
    (classObjectAlias.expand [.noneType .unknown] .unknown none false).1.Everywhere Ty.Distributed := by
  have target : classObjectAlias.target.Everywhere Ty.Distributed := by decide
  exact (expand_distributed target (by decide) .unknown none false).2.1 (by decide)

/-- The union `int | None` after resolution. -/
def resolvedIntOrNone : Ty :=
  .union [.inst (.of (.plain "builtins.int") [] .unknown), .noneType .unknown] .unknown

/-- `Type[int | None]` is distributed where it is written, but not as `A[int | None]`. -/
theorem expand_distributed_union :
    classObjectAlias.target.Everywhere Ty.Distributed ∧
    resolvedIntOrNone.Everywhere (fun t => t.Distributed ∧ t.FlatUnion) ∧
    (resolvedIntOrNone.makeClassObject .unknown).Everywhere Ty.Distributed ∧
    ¬ (classObjectAlias.expand [resolvedIntOrNone] .unknown none false).1.Everywhere Ty.Distributed := by
  decide

end AliasDecl

end TypeResolution
