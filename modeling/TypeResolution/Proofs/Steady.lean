import TypeResolution.Proofs.Inside
import TypeResolution.Proofs.ReferenceRun

namespace TypeResolution

/-- A record, and after it what a run from an empty record has made of it. -/
def Progress.join (p q : Progress) : Progress :=
  ⟨q.scope, p.status.merge q.status, q.aliasesUsed.foldl addDistinct p.aliasesUsed, p.reports ++ q.reports⟩

/-- Names are added to the names before in whatever portions they come. -/
theorem foldl_addDistinct_assoc (known middle last : List String) :
    last.foldl addDistinct (middle.foldl addDistinct known) =
      (last.foldl addDistinct middle).foldl addDistinct known := by
  induction last generalizing middle with
  | nil => rfl
  | cons name last ih =>
    have atName : addDistinct (middle.foldl addDistinct known) name = (addDistinct middle name).foldl addDistinct known := by
      by_cases member : name ∈ middle
      · have inBoth : name ∈ middle.foldl addDistinct known := by simpa using kept_of_mem_foldl (.inr member)
        simp [addDistinct, member, inBoth]
      · simp [addDistinct, member]
    rw [List.foldl_cons, List.foldl_cons, atName, ih]

namespace Progress

theorem join_assoc (p q q' : Progress) : (p.join q).join q' = p.join (q.join q') := by
  simp only [join, PassStatus.merge_assoc, foldl_addDistinct_assoc, List.append_assoc]

theorem join_start (p : Progress) : p.join (.start p.scope) = p := by
  obtain ⟨scope, status, aliasesUsed, reports⟩ := p
  cases status <;> simp [join, start, PassStatus.merge]

end Progress

namespace Resolve

variable {α β : Type}

/-- `m` does from any record what it does from an empty one with the same scope: it reads nothing else, adds to the record,
and leaves the scope as it was. -/
class Steady (m : Resolve α) : Prop where
  alone (p : Progress) : m p = (m (.start p.scope)).map fun (a, q) => (a, p.join q)
  keeps {s : Scope} {a : α} {q : Progress} : m (.start s) = some (a, q) → q.scope = s

/-- In the scope `s`, `m` gives `a`, and reports nothing but what is allowed. -/
def Yields (allowed : Problem → Prop) (m : Resolve α) (s : Scope) (a : α) : Prop :=
  ∃ q, m (.start s) = some (a, q) ∧ ∀ report ∈ q.reports, allowed report.problem

/-- What a run from any record does, told of the run from an empty one. -/
theorem Steady.run {m : Resolve α} [steady : Steady m] {p q : Progress} {a : α} (ran : m p = some (a, q)) :
    ∃ made, m (.start p.scope) = some (a, made) ∧ q = p.join made ∧ q.scope = p.scope := by
  rw [steady.alone] at ran
  obtain ⟨⟨b, made⟩, ranAlone, same⟩ := Option.map_eq_some_iff.1 ran
  cases same
  have inScope : made.scope = p.scope := steady.keeps ranAlone
  exact ⟨made, ranAlone, rfl, inScope⟩

/-- A step that gives `a` and adds `made` to every record is steady. -/
theorem Steady.of_adds {m : Resolve α} (a : α) (made : Scope → Progress) (inScope : ∀ s, (made s).scope = s)
    (adds : ∀ p, m p = some (a, p.join (made p.scope))) : Steady m where
  alone p := by
    rw [adds p, adds (.start p.scope)]
    change some (a, p.join (made p.scope)) = some (a, p.join ((Progress.start p.scope).join (made p.scope)))
    rw [← Progress.join_assoc, Progress.join_start]
  keeps {s b q} ran := by
    rw [adds] at ran
    cases ran
    exact inScope s

instance steady_pure (a : α) : Steady (Pure.pure a) :=
  .of_adds a .start (fun _ => rfl) fun p => by
    rw [Progress.join_start]
    rfl

instance steady_bind (m : Resolve α) (f : α → Resolve β) [first : Steady m] [next : ∀ a, Steady (f a)] :
    Steady (m >>= f) where
  alone p := by
    change ((m p).bind fun (a, middle) => f a middle) =
      ((m (.start p.scope)).bind fun (a, middle) => f a middle).map _
    rw [first.alone p]
    cases m (.start p.scope) with
    | none => rfl
    | some ran =>
      obtain ⟨a, middle⟩ := ran
      simp only [Option.map_some, Option.bind_some]
      rw [(next a).alone (p.join middle), (next a).alone middle, Option.map_map]
      congr 1
      funext ran
      simp only [Function.comp_apply, Progress.join_assoc]
  keeps {s b q} ran := by
    obtain ⟨⟨a, middle⟩, ranFirst, ranNext⟩ := Option.bind_eq_some_iff.1 ran
    obtain ⟨_, _, _, kept⟩ := (next a).run ranNext
    exact kept.trans (first.keeps ranFirst)

/-- A run of two steps, told of runs of each of them alone. -/
theorem run_bind {m : Resolve α} {f : α → Resolve β} [steady : Steady m] [next : ∀ a, Steady (f a)] (s : Scope) :
    (m >>= f) (.start s) = (m (.start s)).bind fun made =>
      (f made.1 (.start s)).bind fun last => some (last.1, made.2.join last.2) := by
  change (m (.start s)).bind _ = _
  refine Option.bind_congr fun made atMade => ?_
  have kept : made.2.scope = s := steady.keeps atMade
  have alone := (next made.1).alone made.2
  rw [kept, Option.map_eq_bind] at alone
  exact alone

instance steady_stuck : Steady (fun _ => none : Resolve α) where
  alone _ := rfl
  keeps := by
    rintro s a q ⟨⟩

instance steady_ite (c : Prop) [Decidable c] (m m' : Resolve α) [Steady m] [Steady m'] :
    Steady (if c then m else m') := by
  split <;> infer_instance

instance steady_reportAll (reports : List Diagnostic) : Steady (reportAll reports) :=
  .of_adds () (fun s => { Progress.start s with reports := reports }) (fun _ => rfl) fun p => by
    obtain ⟨scope, status, aliasesUsed, before⟩ := p
    cases status <;> rfl

instance steady_report (pos : Position) (problem : Problem) : Steady (report pos problem) :=
  steady_reportAll _

instance steady_failAt (pos : Position) (problem : Problem) : Steady (failAt pos problem) :=
  steady_bind _ _

instance steady_raise (status : PassStatus) : Steady (raise status) :=
  .of_adds () (fun s => { Progress.start s with status := status }) (fun _ => rfl) fun p => by
    simp only [Progress.join, Progress.start, List.foldl_nil, List.append_nil]
    rfl

instance steady_useAliases (names : List String) : Steady (useAliases names) :=
  .of_adds () (fun s => { Progress.start s with aliasesUsed := names.foldl addDistinct [] }) (fun _ => rfl) fun p => by
    obtain ⟨scope, status, aliasesUsed, reports⟩ := p
    simp only [Progress.join, Progress.start, ← foldl_addDistinct_assoc, List.foldl_nil, List.append_nil]
    cases status <;> rfl

instance steady_scope : Steady scope where
  alone p := by
    change some (p.scope, p) = some (p.scope, p.join (.start p.scope))
    rw [Progress.join_start]
  keeps := by
    rintro s a q ⟨⟩
    rfl

instance steady_mapM (f : α → Resolve β) (xs : List α) [each : ∀ x, Steady (f x)] : Steady (xs.mapM f) := by
  induction xs with
  | nil => exact steady_pure []
  | cons x xs ih =>
    rw [List.mapM_cons]
    infer_instance

theorem reportAll_nil_bind (m : Resolve α) : (reportAll [] >>= fun _ => m) = m := by
  funext p
  change m { p with reports := p.reports ++ [] } = m p
  rw [List.append_nil]

/-- What follows in a collection when it is known what the first element has. -/
def collectMore (more : Resolve (Option (List β))) : Option (List β) → Resolve (Option (List β))
  | none => Pure.pure none
  | some found => more >>= fun more => Pure.pure (more.map (found ++ ·))

theorem collectWhile_cons (f : α → Resolve (Option (List β))) (x : α) (xs : List α) :
    collectWhile f (x :: xs) = f x >>= collectMore (collectWhile f xs) := by
  rw [collectWhile]
  congr 1
  funext found
  cases found with
  | none => rfl
  | some found =>
    unfold collectMore
    dsimp only
    congr 1
    funext more
    cases more <;> rfl

instance steady_collectMore (more : Resolve (Option (List β))) [Steady more] (found : Option (List β)) :
    Steady (collectMore more found) := by
  cases found with
  | none => exact steady_pure none
  | some found => exact steady_bind _ _

instance steady_collectWhile (f : α → Resolve (Option (List β))) (xs : List α) [each : ∀ x, Steady (f x)] :
    Steady (collectWhile f xs) := by
  induction xs with
  | nil => exact steady_pure _
  | cons x xs ih =>
    rw [collectWhile_cons]
    infer_instance

/-- Runs `m` in the scope `s`, and goes back to the scope as it was. -/
def within (s : Scope) (m : Resolve α) : Resolve α := fun p =>
  (m { p with scope := s }).map fun (a, q) => (a, { q with scope := p.scope })

instance steady_within (s : Scope) (m : Resolve α) [inside : Steady m] : Steady (within s m) where
  alone p := by
    change (m { p with scope := s }).map _ = ((m (.start s)).map _).map _
    rw [inside.alone { p with scope := s }, Option.map_map, Option.map_map]
    rfl
  keeps {s' a q} ran := by
    obtain ⟨⟨b, ended⟩, _, same⟩ := Option.map_eq_some_iff.1 ran
    cases same
    rfl

section Yields

variable {allowed : Problem → Prop} {s : Scope}

theorem yields_of_run {m : Resolve α} [steady : Steady m] {p q : Progress} {a : α} (ran : m p = some (a, q))
    (reported : ∀ report ∈ q.reports, allowed report.problem) : Yields allowed m p.scope a := by
  obtain ⟨made, ranAlone, rfl, _⟩ := steady.run ran
  exact ⟨made, ranAlone, fun report member => reported report (List.mem_append_right _ member)⟩

theorem Yields.pure {a b : α} (yields : Yields allowed (Pure.pure a) s b) : a = b := by
  obtain ⟨q, ran, _⟩ := yields
  cases ran
  rfl

theorem Yields.bind {m : Resolve α} {f : α → Resolve β} [first : Steady m] [next : ∀ a, Steady (f a)] {b : β}
    (yields : Yields allowed (m >>= f) s b) : ∃ a, Yields allowed m s a ∧ Yields allowed (f a) s b := by
  obtain ⟨q, ran, reported⟩ := yields
  obtain ⟨⟨a, middle⟩, ranFirst, ranNext⟩ := Option.bind_eq_some_iff.1 ran
  have yieldsNext : Yields allowed (f a) middle.scope b := yields_of_run ranNext reported
  rw [first.keeps ranFirst] at yieldsNext
  obtain ⟨made, _, rfl, _⟩ := (next a).run ranNext
  exact ⟨a, ⟨middle, ranFirst, fun report member => reported report (List.mem_append_left _ member)⟩, yieldsNext⟩

theorem Yields.reportAll {reports : List Diagnostic} {u : Unit} (yields : Yields allowed (Resolve.reportAll reports) s u) :
    ∀ report ∈ reports, allowed report.problem := by
  obtain ⟨q, ran, reported⟩ := yields
  cases ran
  intro report member
  exact reported report (List.mem_append_right _ member)

theorem Yields.report {pos : Position} {problem : Problem} {u : Unit}
    (yields : Yields allowed (Resolve.report pos problem) s u) : allowed problem :=
  yields.reportAll ⟨pos, problem⟩ (List.mem_singleton_self _)

theorem Yields.failAt {pos : Position} {problem : Problem} {t : Ty}
    (yields : Yields allowed (Resolve.failAt pos problem) s t) : allowed problem ∧ t = .anyAt .error pos := by
  obtain ⟨_, reported, made⟩ := yields.bind
  exact ⟨reported.report, made.pure.symm⟩

theorem Yields.scope {s' : Scope} (yields : Yields allowed Resolve.scope s s') : s' = s := by
  obtain ⟨q, ran, _⟩ := yields
  cases ran
  rfl

theorem Yields.within {m : Resolve α} {s' : Scope} {a : α} (yields : Yields allowed (Resolve.within s' m) s a) :
    Yields allowed m s' a := by
  obtain ⟨q, ran, reported⟩ := yields
  obtain ⟨⟨b, ended⟩, ranInside, same⟩ := Option.map_eq_some_iff.1 ran
  cases same
  exact ⟨ended, ranInside, reported⟩

theorem Yields.mapM {f : α → Resolve β} {xs : List α} [each : ∀ x, Steady (f x)] {ys : List β}
    (yields : Yields allowed (xs.mapM f) s ys) : List.Forall₂ (fun x y => Yields allowed (f x) s y) xs ys := by
  induction xs generalizing ys with
  | nil =>
    rw [← yields.pure]
    exact .nil
  | cons x xs ih =>
    rw [List.mapM_cons] at yields
    obtain ⟨y, head, yields⟩ := yields.bind
    obtain ⟨rest, tail, yields⟩ := yields.bind
    rw [← yields.pure]
    exact .cons head (ih tail)

end Yields

end Resolve

end TypeResolution
