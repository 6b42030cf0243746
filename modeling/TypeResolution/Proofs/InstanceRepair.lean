import TypeResolution.Proofs.ArgumentCount
import TypeResolution.Proofs.NodesAt

namespace TypeResolution

/-! What a repair comes to: a type, the reports, and the first place where it stopped -/

namespace Ty

/-- A type whose parts are repaired, with the number of arguments that it is to have. -/
def refitted : Ty → Ty
  | .inst i => .inst (fixInstance i false true none).1
  | t => t

/-- The error that a type is, if it is an instance with some arguments but not as many as its class has. -/
def wrongCount : Ty → List Diagnostic
  | .inst i =>
    if i.hasExpectedArity || i.args.isEmpty then []
    else [⟨i.pos, .wrongArgumentCount i.head.name i.head.arity i.args.length⟩]
  | _ => []

/-- A repair stops at this type: it has parts, and stands too deep. -/
def stopsAt (t : Ty) (depth : Nat) : Bool := maxSubstitutionDepth ≤ depth && !t.children.isEmpty

end Ty

/-- What becomes of a type that stands at the given depth. -/
def repairedAt : Ty → Nat → Ty := Ty.fold fun t parts depth =>
  if t.stopsAt depth then .anyAt .error t.pos else (t.withChildren (parts.map (· (depth + 1)))).refitted

/-- The wrong numbers of arguments that are reported of a type and its parts, those of the parts first. -/
def wrongCountsAt : Ty → Nat → List Diagnostic := Ty.fold fun t parts depth =>
  if t.stopsAt depth then [] else parts.flatMap (· (depth + 1)) ++ t.wrongCount

/-- The first place at which something is cut off from a type. -/
def firstCutAt : Ty → Nat → Option Position := Ty.fold fun t parts depth =>
  if t.stopsAt depth then some t.pos else parts.findSome? (· (depth + 1))

theorem repairedAt_eq (t : Ty) (depth : Nat) : repairedAt t depth =
    if t.stopsAt depth then .anyAt .error t.pos
    else (t.withChildren (t.children.map (repairedAt · (depth + 1)))).refitted := by
  rw [repairedAt, Ty.fold_eq, List.map_map]
  rfl

theorem wrongCountsAt_eq (t : Ty) (depth : Nat) : wrongCountsAt t depth =
    if t.stopsAt depth then [] else t.children.flatMap (wrongCountsAt · (depth + 1)) ++ t.wrongCount := by
  rw [wrongCountsAt, Ty.fold_eq, List.flatMap_map]

theorem firstCutAt_eq (t : Ty) (depth : Nat) : firstCutAt t depth =
    if t.stopsAt depth then some t.pos else t.children.findSome? (firstCutAt · (depth + 1)) := by
  rw [firstCutAt, Ty.fold_eq, List.findSome?_map]
  rfl

theorem fixInstance_reports (i : Instance) : (fixInstance i false true none).2 = (Ty.inst i).wrongCount := by
  unfold fixInstance Ty.wrongCount
  by_cases right : i.hasExpectedArity = true
  · simp [right]
  · by_cases omitted : i.args.isEmpty = true
    · simp [right, omitted, omittedAny]
    · simp [right, omitted]

theorem Ty.wrongCount_withChildren (t : Ty) {cs : List Ty} (sameLength : cs.length = t.children.length) :
    (t.withChildren cs).wrongCount = t.wrongCount := by
  cases t with
  | inst i =>
    change cs.length = i.args.length at sameLength
    simp [withChildren, wrongCount, Instance.hasExpectedArity, ← List.length_eq_zero_iff, sameLength, List.isEmpty_iff]
  | _ => rfl

/-- The repairs of several types add what they come to. -/
theorem mapM_repair {f : Ty → StateM Repair Ty} {g : Ty → Ty} {errors : Ty → List Diagnostic} {cut : Ty → Option Position}
    {ts : List Ty} (each : ∀ t ∈ ts, ∀ repair, f t repair = (g t, ⟨repair.reports ++ errors t, repair.cutAt <|> cut t⟩))
    (repair : Repair) :
    ts.mapM f repair = (ts.map g, ⟨repair.reports ++ ts.flatMap errors, repair.cutAt <|> ts.findSome? cut⟩) := by
  induction ts generalizing repair with
  | nil =>
    change ([], repair) = _
    simp
  | cons t ts ih =>
    have here := each t List.mem_cons_self
    have rest := ih fun u member => each u (List.mem_cons_of_mem t member)
    rw [List.mapM_cons, List.findSome?_cons]
    simp only [bind, StateT.bind, here, rest]
    change (g t :: ts.map g, Repair.mk _ _) = _
    cases cut t <;> cases repair.cutAt <;> simp

theorem repairAt_eq (t : Ty) (depth : Nat) : repairAt t depth =
    if t.stopsAt depth then do
      modify fun repair => { repair with cutAt := repair.cutAt <|> some t.pos }
      return .anyAt .error t.pos
    else do
      let cs ← t.children.mapM (repairAt · (depth + 1))
      modify fun repair => { repair with reports := repair.reports ++ (t.withChildren cs).wrongCount }
      return (t.withChildren cs).refitted := by
  rw [repairAt, Ty.fold_eq, List.mapM_map]
  refine if_congr Iff.rfl rfl (bind_congr fun cs => ?_)
  cases t.withChildren cs with
  | inst i =>
    rw [← fixInstance_reports]
    rfl
  | _ =>
    funext repair
    change _ = (_, { repair with reports := repair.reports ++ [] })
    rw [List.append_nil]
    rfl

theorem repairAt_apply (t : Ty) (depth : Nat) (repair : Repair) : repairAt t depth repair =
    (repairedAt t depth, ⟨repair.reports ++ wrongCountsAt t depth, repair.cutAt <|> firstCutAt t depth⟩) := by
  induction t using Ty.inductionOn generalizing depth repair with
  | step t ih =>
    have parts := mapM_repair (fun c member repair => ih c member (depth + 1) repair) repair
    rw [repairAt_eq, repairedAt_eq, wrongCountsAt_eq, firstCutAt_eq]
    cases t.stopsAt depth with
    | true => exact congrArg (fun reports => (_, Repair.mk reports _)) (List.append_nil _).symm
    | false =>
      simp only [Bool.false_eq_true, if_false, bind, StateT.bind, parts]
      rw [t.wrongCount_withChildren (List.length_map _), ← List.append_assoc]
      rfl

theorem fixInstances_eq (t : Ty) : fixInstances t =
    (repairedAt t 0, wrongCountsAt t 0 ++ (firstCutAt t 0).toList.map (⟨·, .cutOff⟩)) := by
  unfold fixInstances
  rw [StateT.run, repairAt_apply]
  cases firstCutAt t 0 <;> simp

/-! What is reported -/

namespace Ty

theorem stopsAt_eq_false_iff {t : Ty} {depth : Nat} :
    t.stopsAt depth = false ↔ maxSubstitutionDepth ≤ depth → t.children = [] := by
  rw [stopsAt, Bool.and_eq_false_imp]
  simp

theorem wrongCount_of_leaf {t : Ty} (leaf : t.children = []) : t.wrongCount = [] := by
  cases t with
  | inst i =>
    change i.args = [] at leaf
    simp [wrongCount, leaf]
  | _ => rfl

theorem wrongCount_of_rightCount {t : Ty} (right : t.RightCount) : t.wrongCount = [] := by
  cases t with
  | inst i =>
    change i.hasExpectedArity = true at right
    simp [wrongCount, right]
  | _ => rfl

end Ty

/-- Each wrong number of arguments above the limit is reported once. -/
theorem wrongCountsAt_perm (t : Ty) (depth : Nat) :
    (wrongCountsAt t depth).Perm ((t.nodesAbove (maxSubstitutionDepth - depth)).flatMap Ty.wrongCount) := by
  induction t using Ty.inductionOn generalizing depth with
  | step t ih =>
    rw [wrongCountsAt_eq]
    rcases Nat.lt_or_ge depth maxSubstitutionDepth with above | deep
    · have goesOn : t.stopsAt depth = false := Ty.stopsAt_eq_false_iff.2 fun deep => absurd above (Nat.not_lt.2 deep)
      have parts : (t.children.flatMap (wrongCountsAt · (depth + 1))).Perm
          (t.children.flatMap fun c => (c.nodesAbove (maxSubstitutionDepth - (depth + 1))).flatMap Ty.wrongCount) :=
        List.Perm.flatMap_left _ fun c member => ih c member (depth + 1)
      rw [show maxSubstitutionDepth - depth = maxSubstitutionDepth - (depth + 1) + 1 by omega, goesOn]
      -- a repair comes to a type after its parts, and level by level it comes before them
      refine .trans ?_ ((t.nodesAbove_succ _).flatMap_right _).symm
      simp only [Bool.false_eq_true, if_false, List.flatMap_cons, List.flatMap_assoc]
      exact (parts.append_right _).trans List.perm_append_comm
    · rw [Nat.sub_eq_zero_of_le deep]
      cases stops : t.stopsAt depth with
      | true => rfl
      | false =>
        have leaf := Ty.stopsAt_eq_false_iff.1 stops deep
        rw [leaf, Ty.wrongCount_of_leaf leaf]
        rfl

/-- A repair stops first at the first type at the limit that has parts. -/
theorem firstCutAt_eq_find {t : Ty} {depth : Nat} (within : depth ≤ maxSubstitutionDepth) : firstCutAt t depth =
    ((t.nodesAt (fun _ => true) (maxSubstitutionDepth - depth)).find? (!·.children.isEmpty)).map Ty.pos := by
  induction t using Ty.inductionOn generalizing depth with
  | step t ih =>
    rw [firstCutAt_eq]
    rcases Nat.lt_or_ge depth maxSubstitutionDepth with above | deep
    · have goesOn : t.stopsAt depth = false := Ty.stopsAt_eq_false_iff.2 fun deep => absurd above (Nat.not_lt.2 deep)
      rw [show maxSubstitutionDepth - depth = maxSubstitutionDepth - (depth + 1) + 1 by omega, goesOn, Ty.nodesAt]
      simp only [Bool.false_eq_true, if_false, if_true, List.find?_flatMap, List.map_findSome?]
      rw [← List.head?_filterMap, ← List.head?_filterMap, List.filterMap_congr fun c member => ih c member above]
      rfl
    · rw [Nat.sub_eq_zero_of_le deep, Ty.nodesAt, List.find?_singleton]
      cases stops : t.stopsAt depth with
      | true =>
        have hasParts : (!t.children.isEmpty) = true := (Bool.and_eq_true_iff.1 stops).2
        simp [hasParts]
      | false =>
        have leaf := Ty.stopsAt_eq_false_iff.1 stops deep
        simp [leaf]

/-! What is made -/

namespace Ty

theorem children_refitted {t c : Ty} (member : c ∈ t.refitted.children) : c ∈ t.children ∨ c.isAny := by
  cases t with
  | inst i => exact mem_fixInstance_args member
  | _ => exact .inl member

theorem refitted_everywhere {t : Ty} (parts : ∀ c ∈ t.children, c.Everywhere RightCount) :
    t.refitted.Everywhere RightCount := by
  refine everywhere_iff.2 ⟨?_, fun c member => ?_⟩
  · cases t with
    | inst i => exact fixInstance_hasExpectedArity i false true none
    | _ => trivial
  · rcases children_refitted member with member | isAny
    · exact parts c member
    · exact rightCount_ofNodes.everywhere_of_isAny isAny

theorem refitted_of_rightCount {t : Ty} (right : t.RightCount) : t.refitted = t := by
  cases t with
  | inst i =>
    change i.hasExpectedArity = true at right
    simp [refitted, fixInstance, right]
  | _ => rfl

end Ty

theorem repairedAt_rightCount (t : Ty) (depth : Nat) : (repairedAt t depth).Everywhere Ty.RightCount := by
  induction t using Ty.inductionOn generalizing depth with
  | step t ih =>
    rw [repairedAt_eq]
    split
    · exact Ty.everywhere_of_leaf rfl trivial
    · refine Ty.refitted_everywhere fun c member => ?_
      rw [Ty.children_withChildren _ _ (List.length_map _)] at member
      obtain ⟨source, atChild, rfl⟩ := List.mem_map.1 member
      exact ih source atChild (depth + 1)

/-- What is put in the place of omitted arguments stands one level deeper. -/
theorem height_repairedAt_le (t : Ty) (depth : Nat) : (repairedAt t depth).height ≤ t.height + 1 := by
  induction t using Ty.inductionOn generalizing depth with
  | step t ih =>
    rw [repairedAt_eq]
    split
    · exact Nat.zero_le _
    · refine Ty.height_le_iff.2 fun c member => ?_
      rcases Ty.children_refitted member with member | isAny
      · rw [Ty.children_withChildren _ _ (List.length_map _)] at member
        obtain ⟨source, atChild, rfl⟩ := List.mem_map.1 member
        have low := ih source atChild (depth + 1)
        have lower := Ty.height_child_lt atChild
        omega
      · have flat : c.height ≤ 0 := Ty.height_le_iff.2 (by simp [Ty.children_of_isAny isAny])
        omega

/-- Where nothing is wrong and nothing stands too deep, nothing is changed. -/
theorem repairedAt_of_rightCount {t : Ty} {depth : Nat} (right : t.Everywhere Ty.RightCount)
    (low : t.height + depth ≤ maxSubstitutionDepth) : repairedAt t depth = t := by
  induction t using Ty.inductionOn generalizing depth with
  | step t ih =>
    have goesOn : t.stopsAt depth = false := by
      refine Ty.stopsAt_eq_false_iff.2 fun deep => List.eq_nil_iff_forall_not_mem.2 fun c member => ?_
      have lower := Ty.height_child_lt member
      omega
    have kept : t.children.map (repairedAt · (depth + 1)) = t.children := by
      refine (List.map_congr_left fun c member => ih c member (right.child member) ?_).trans (List.map_id' _)
      have lower := Ty.height_child_lt member
      omega
    rw [repairedAt_eq, goesOn, kept, Ty.withChildren_children, Ty.refitted_of_rightCount right.root]
    rfl

/-- A type with right numbers of arguments in which nothing stands too deep is repaired without a change or a report. -/
theorem fixInstances_of_rightCount {t : Ty} (right : t.Everywhere Ty.RightCount) (low : t.height ≤ maxSubstitutionDepth) :
    fixInstances t = (t, []) := by
  have noErrors : wrongCountsAt t 0 = [] := by
    refine List.Perm.eq_nil ((wrongCountsAt_perm t 0).trans (.of_eq ?_))
    refine List.flatMap_eq_nil_iff.2 fun x member => ?_
    exact Ty.wrongCount_of_rightCount (right x (Ty.inside_of_mem_nodesAbove member))
  have uncut : firstCutAt t 0 = none := by
    rw [firstCutAt_eq_find (Nat.zero_le _), Option.map_eq_none_iff, List.find?_eq_none]
    intro x member
    have bound := Ty.height_of_mem_nodesAt member
    have leaf : x.children = [] := List.eq_nil_iff_forall_not_mem.2 fun c atChild => by
      have lower := Ty.height_child_lt atChild
      omega
    simp [leaf]
  rw [fixInstances_eq, repairedAt_of_rightCount right low, noErrors, uncut]
  rfl

/-- A repair makes the number of arguments right everywhere. It reports each instance above the limit that has arguments, but
not the right number of them, once, and after these errors the first type with parts that stands at the limit, if there is
one. A type of which nothing stands at the limit is repaired for good. -/
theorem fixInstances_repairs (t : Ty) :
    (fixInstances t).1.Everywhere Ty.RightCount ∧
    (∃ errors, errors.Perm ((t.nodesAbove maxSubstitutionDepth).flatMap Ty.wrongCount) ∧
      (fixInstances t).2 = errors ++
        ((t.nodesAt (fun _ => true) maxSubstitutionDepth).find? (!·.children.isEmpty)).toList.map fun x =>
          ⟨x.pos, .cutOff⟩) ∧
    (t.height < maxSubstitutionDepth → fixInstances (fixInstances t).1 = ((fixInstances t).1, [])) := by
  have right := repairedAt_rightCount t 0
  refine ⟨?_, ⟨wrongCountsAt t 0, wrongCountsAt_perm t 0, ?_⟩, fun shallow => ?_⟩
  · rw [fixInstances_eq]
    exact right
  · rw [fixInstances_eq, firstCutAt_eq_find (Nat.zero_le _), Option.toList_map, List.map_map]
    rfl
  · have low : (repairedAt t 0).height ≤ maxSubstitutionDepth := (height_repairedAt_le t 0).trans shallow
    rw [fixInstances_eq t]
    exact fixInstances_of_rightCount right low

/-- A `dict` without arguments, and a `list` with two. -/
def miscounted : Ty :=
  .union [.inst (.of ⟨"builtins.dict", ["K", "V"], false⟩ [] .unknown),
    .inst (.of ⟨"builtins.list", ["T"], false⟩ [.noneType .unknown, .noneType .unknown] ⟨3, 0⟩)] .unknown

theorem fixInstances_repairs_miscounted :
    (fixInstances miscounted).2 = [⟨⟨3, 0⟩, .wrongArgumentCount "list" 1 2⟩] ∧
    fixInstances (fixInstances miscounted).1 = ((fixInstances miscounted).1, []) :=
  ⟨by rfl, (fixInstances_repairs miscounted).2.2 (by decide)⟩

end TypeResolution
