import TypeResolution.Proofs.AliasUse
import TypeResolution.Proofs.InstanceRepair

namespace TypeResolution

namespace Ty

theorem isUnion_refitted (t : Ty) : t.refitted.isUnion = t.isUnion := by
  cases t <;> rfl

/-- A union has at least two members, none of them a union. Some of them may be equal. -/
def UnnestedUnion : Ty → Prop
  | .union ms _ => 2 ≤ ms.length ∧ ∀ m ∈ ms, m.isUnion = false
  | _ => True

theorem unnestedUnion_ofNodes : OfNodes UnnestedUnion where
  inst _ _ _ := trivial
  union _ form := ⟨form.several, form.flat⟩
  move _ unnested := unnested
  other {t} _ notUnion := by
    cases t <;> trivial

theorem FlatUnion.unnested {t : Ty} (flat : t.FlatUnion) : t.UnnestedUnion := by
  cases t with
  | union => exact ⟨flat.several, flat.flat⟩
  | _ => trivial

variable {P : Ty → Prop} (nodes : OfNodes P)

include nodes

theorem refitted_parts {t : Ty} (below : ∀ c ∈ t.children, c.Everywhere P) : ∀ c ∈ t.refitted.children, c.Everywhere P := by
  intro c member
  rcases children_refitted member with member | isAny
  · exact below c member
  · exact nodes.everywhere_of_isAny isAny

/-- The arguments of an instance matter only if they are not replaced. -/
theorem refitted_parts_iff (t : Ty) {cs : List Ty} (sameLength : cs.length = t.children.length) :
    (∀ c ∈ (t.withChildren cs).refitted.children, c.Everywhere P) ↔
      (t.wrongCount = [] → ∀ c ∈ cs, c.Everywhere P) := by
  by_cases right : (t.withChildren cs).RightCount
  · have noError : t.wrongCount = [] := by
      rw [← t.wrongCount_withChildren sameLength]
      exact wrongCount_of_rightCount right
    rw [refitted_of_rightCount right, children_withChildren t cs sameLength]
    exact ⟨fun all _ => all, fun all => all noError⟩
  · cases t with
    | inst i =>
      have wrong : Instance.hasExpectedArity { i with args := cs } = false := Bool.eq_false_iff.2 right
      refine ⟨fun _ noError c member => ?_, fun _ c member => ?_⟩
      · -- a wrong number that is not reported is that of omitted arguments
        rw [← (Ty.inst i).wrongCount_withChildren sameLength] at noError
        have omitted : cs = [] := by simpa [withChildren, wrongCount, wrong] using noError
        rw [omitted] at member
        cases member
      · exact nodes.everywhere_of_isAny (isAny_of_mem_fixInstance_args wrong member)
    | _ => exact absurd trivial right

end Ty

theorem isUnion_repairedAt {t : Ty} (single : t.isUnion = false) (depth : Nat) : (repairedAt t depth).isUnion = false := by
  rw [repairedAt_eq]
  split
  · rfl
  · rw [Ty.isUnion_refitted, Ty.isUnion_withChildren, single]

theorem repairedAt_unnestedUnion {t : Ty} (unnested : t.Everywhere Ty.UnnestedUnion) (depth : Nat) :
    (repairedAt t depth).Everywhere Ty.UnnestedUnion := by
  induction t using Ty.inductionOn generalizing depth with
  | step t ih =>
    rw [repairedAt_eq]
    split
    · exact Ty.everywhere_of_leaf rfl trivial
    · refine Ty.everywhere_iff.2 ⟨?_, ?_⟩
      · cases t with
        | union ms pos =>
          obtain ⟨several, flat⟩ := unnested.root
          refine ⟨several.trans_eq (List.length_map _).symm, fun m member => ?_⟩
          obtain ⟨source, atMember, rfl⟩ := List.mem_map.1 member
          exact isUnion_repairedAt (flat source atMember) (depth + 1)
        | _ => trivial
      · refine Ty.refitted_parts Ty.unnestedUnion_ofNodes fun c member => ?_
        rw [Ty.children_withChildren _ _ (List.length_map _)] at member
        obtain ⟨source, atChild, rfl⟩ := List.mem_map.1 member
        exact ih source atChild (unnested.child atChild) (depth + 1)

/-- The members of each union that a repair comes to stay distinct when they are repaired: of the unions above the limit, but
in no arguments that are replaced. -/
def Ty.StaysDistinct (t : Ty) (depth : Nat) : Prop :=
  ∀ n ms pos, depth + n < maxSubstitutionDepth → .union ms pos ∈ t.nodesAt (·.wrongCount.isEmpty) n →
    ms.Pairwise fun a b => (repairedAt a (depth + n + 1) == repairedAt b (depth + n + 1)) = false

/-- The unions at a type are that type, if it is one, and those at its children. -/
theorem Ty.staysDistinct_iff {t : Ty} {depth : Nat} : t.StaysDistinct depth ↔
    (∀ ms pos, t = .union ms pos → depth < maxSubstitutionDepth →
      ms.Pairwise fun a b => (repairedAt a (depth + 1) == repairedAt b (depth + 1)) = false) ∧
    (t.wrongCount = [] → ∀ c ∈ t.children, c.StaysDistinct (depth + 1)) := by
  constructor
  · refine fun stays => ⟨fun ms pos isUnion above => ?_, fun noError c atChild n ms pos above member => ?_⟩
    · exact stays 0 ms pos above (List.mem_singleton.2 isUnion.symm)
    · have deeper := stays (n + 1) ms pos (by omega) (mem_nodesAt_succ.2 ⟨by simp [noError], c, atChild, member⟩)
      rwa [Nat.add_right_comm depth 1 n]
  · rintro ⟨here, below⟩ n ms pos above member
    cases n with
    | zero => exact here ms pos (List.mem_singleton.1 member).symm above
    | succ n =>
      obtain ⟨noError, c, atChild, member⟩ := mem_nodesAt_succ.1 member
      have deeper := below (List.isEmpty_iff.1 noError) c atChild n ms pos (by omega) member
      rwa [Nat.add_right_comm depth 1 n] at deeper

/-- A repair leaves unions in the form in which they are made exactly when it makes no two members of one equal. -/
theorem repairedAt_flatUnion_iff {t : Ty} (flat : t.Everywhere Ty.FlatUnion) (depth : Nat) :
    (repairedAt t depth).Everywhere Ty.FlatUnion ↔ t.StaysDistinct depth := by
  induction t using Ty.inductionOn generalizing depth with
  | step t ih =>
    rw [Ty.staysDistinct_iff]
    cases stops : t.stopsAt depth with
    | true =>
      have deep : maxSubstitutionDepth ≤ depth := of_decide_eq_true (Bool.and_eq_true_iff.1 stops).1
      rw [repairedAt_eq, stops]
      refine iff_of_true (Ty.everywhere_of_leaf rfl trivial) ⟨fun ms pos _ above => ?_, fun _ c _ n ms pos above => ?_⟩
      · omega
      · omega
    | false =>
      rw [repairedAt_eq, stops, Ty.everywhere_iff]
      simp only [Bool.false_eq_true, if_false]
      refine and_congr ?_ ?_
      · cases t using Ty.unionCases with
        | union ms pos =>
          obtain ⟨several, single, _⟩ := flat.root
          have above : depth < maxSubstitutionDepth := by
            by_contra deep
            have none : ms = [] := Ty.stopsAt_eq_false_iff.1 stops (by omega)
            simp [none] at several
          constructor
          · rintro ⟨_, _, distinct⟩ _ _ ⟨⟩ _
            exact List.pairwise_map.1 distinct
          · intro stays
            refine ⟨several.trans_eq (List.length_map _).symm, fun m member => ?_, List.pairwise_map.2 (stays ms pos rfl above)⟩
            obtain ⟨source, atMember, rfl⟩ := List.mem_map.1 member
            exact isUnion_repairedAt (single source atMember) (depth + 1)
        | other t notUnion =>
          have single : (t.withChildren (t.children.map (repairedAt · (depth + 1)))).refitted.isUnion = false := by
            rw [Ty.isUnion_refitted, Ty.isUnion_withChildren, notUnion]
          refine iff_of_true (Ty.flatUnion_of_not_union single) ?_
          rintro ms pos rfl
          cases notUnion
      · rw [Ty.refitted_parts_iff Ty.flatUnion_ofNodes t (List.length_map _), List.forall_mem_map]
        exact imp_congr_right fun _ => forall₂_congr fun c atChild => ih c atChild (flat.child atChild) (depth + 1)

/-- A repair leaves each union with its members, none of which becomes a union, but it does not make the union anew. So
unions stay in the form in which they are made exactly if, in each union that the repair comes to, no two members are
repaired to equal types; in particular if nothing in a member of a union has a wrong number of arguments and nothing
stands too deep. -/
theorem fixInstances_flatUnion {t : Ty} (flat : t.Everywhere Ty.FlatUnion) :
    (fixInstances t).1.Everywhere Ty.UnnestedUnion ∧
    ((fixInstances t).1.Everywhere Ty.FlatUnion ↔
      ∀ n < maxSubstitutionDepth, ∀ ms pos, .union ms pos ∈ t.nodesAt (·.wrongCount.isEmpty) n →
        ms.Pairwise fun a b => (repairedAt a (n + 1) == repairedAt b (n + 1)) = false) ∧
    ((∀ ms pos, Ty.Inside (.union ms pos) t → ∀ m ∈ ms, m.Everywhere Ty.RightCount) →
      t.height ≤ maxSubstitutionDepth → (fixInstances t).1.Everywhere Ty.FlatUnion) := by
  have whole : (repairedAt t 0).Everywhere Ty.FlatUnion ↔ t.StaysDistinct 0 := repairedAt_flatUnion_iff flat 0
  have unfolded : t.StaysDistinct 0 ↔
      ∀ n < maxSubstitutionDepth, ∀ ms pos, .union ms pos ∈ t.nodesAt (·.wrongCount.isEmpty) n →
        ms.Pairwise fun a b => (repairedAt a (n + 1) == repairedAt b (n + 1)) = false := by
    simp only [Ty.StaysDistinct, Nat.zero_add]
    exact ⟨fun stays n above ms pos => stays n ms pos above, fun stays n ms pos above => stays n above ms pos⟩
  rw [fixInstances_eq, ← unfolded]
  refine ⟨repairedAt_unnestedUnion (flat.imp fun _ => Ty.FlatUnion.unnested) 0, whole, fun right low => whole.2 ?_⟩
  refine unfolded.2 fun n _ ms pos member => ?_
  have inside := Ty.inside_of_mem_nodesAt member
  have high := Ty.height_of_mem_nodesAt member
  have kept {m : Ty} (atMember : m ∈ ms) : repairedAt m (n + 1) = m := by
    have lower := Ty.height_child_lt (t := .union ms pos) atMember
    exact repairedAt_of_rightCount (right ms pos inside m atMember) (by omega)
  have distinct : ms.Pairwise fun a b => (a == b) = false := (flat _ inside).distinct
  refine distinct.imp_of_mem fun {a b} first second unequal => ?_
  rw [kept first, kept second, unequal]

theorem fixInstances_flatUnion_miscounted : (fixInstances miscounted).1.Everywhere Ty.FlatUnion := by
  have flat : miscounted.Everywhere Ty.FlatUnion := by decide
  refine (fixInstances_flatUnion flat).2.1.2 fun n _ ms pos member => ?_
  match n, member with
  | 0, member =>
    cases List.mem_singleton.1 member
    decide
  | 1, member =>
    simp [miscounted, Ty.nodesAt, Ty.children, Ty.wrongCount] at member
  | n + 2, member => cases member

/-- A `list` without arguments, and the same with `Any` written. -/
def listOrAnyList : Ty :=
  .union [.inst (.of ⟨"builtins.list", ["T"], false⟩ [] .unknown),
    .inst (.of ⟨"builtins.list", ["T"], false⟩ [.anyAt .explicit .unknown] .unknown)] .unknown

/-- The members of a union are not equal before a repair and equal after it, and both stay. -/
theorem fixInstances_flatUnion_listOrAnyList :
    listOrAnyList.Everywhere Ty.FlatUnion ∧ ¬ (fixInstances listOrAnyList).1.Everywhere Ty.FlatUnion := by
  decide

end TypeResolution
