import TypeResolution.Proofs.SteadyForms

namespace TypeResolution

namespace Resolve

variable {α β : Type} {allowed : Problem → Prop} {s : Scope}

/-- Run in the scope `s`, `m` reports nothing but what is allowed. -/
def ReportsOnly (allowed : Problem → Prop) (m : Resolve α) (s : Scope) : Prop :=
  ∀ a q, m (.start s) = some (a, q) → ∀ report ∈ q.reports, allowed report.problem

namespace ReportsOnly

/-- What is reported from any record on is what is reported from an empty one. -/
theorem newReports {m : Resolve α} [steady : Steady m] {p q : Progress} {a : α} (only : ReportsOnly allowed m p.scope)
    (ran : m p = some (a, q)) : ∀ report ∈ p.newReports q, allowed report.problem := by
  obtain ⟨made, ranAlone, rfl, _⟩ := steady.run ran
  have added : p.newReports (p.join made) = made.reports := by simp [Progress.newReports, Progress.join]
  rw [added]
  exact only a made ranAlone

theorem pure (a : α) : ReportsOnly allowed (Pure.pure a) s := by
  rintro b q ⟨⟩ report ⟨⟩

theorem stuck : ReportsOnly allowed (fun _ => none : Resolve α) s := by
  rintro b q ⟨⟩

theorem bind {m : Resolve α} {f : α → Resolve β} [steady : Steady m] [next : ∀ a, Steady (f a)]
    (first : ReportsOnly allowed m s)
    (after : ∀ a q, m (.start s) = some (a, q) → ReportsOnly allowed (f a) s) : ReportsOnly allowed (m >>= f) s := by
  intro b q ran
  obtain ⟨⟨a, middle⟩, ranFirst, ranNext⟩ := Option.bind_eq_some_iff.1 ran
  have kept : middle.scope = s := steady.keeps ranFirst
  obtain ⟨made, ranAlone, rfl, _⟩ := (next a).run ranNext
  rw [kept] at ranAlone
  intro report member
  rcases List.mem_append.1 member with before | later
  · exact first a middle ranFirst report before
  · exact after a middle ranFirst b made ranAlone report later

theorem andThen {m : Resolve α} {f : α → Resolve β} [Steady m] [∀ a, Steady (f a)] (first : ReportsOnly allowed m s)
    (after : ∀ a, ReportsOnly allowed (f a) s) : ReportsOnly allowed (m >>= f) s :=
  first.bind fun a _ _ => after a

theorem map {m : Resolve α} [Steady m] {f : α → β} (only : ReportsOnly allowed m s) :
    ReportsOnly allowed (m >>= fun a => Pure.pure (f a)) s :=
  only.andThen fun _ => pure _

theorem reportAll {reports : List Diagnostic} (each : ∀ report ∈ reports, allowed report.problem) :
    ReportsOnly allowed (reportAll reports) s := by
  rintro a q ⟨⟩ report member
  exact each report (by simpa [Progress.start] using member)

theorem report {pos : Position} {problem : Problem} (may : allowed problem) :
    ReportsOnly allowed (report pos problem) s :=
  reportAll (by simpa using may)

theorem failAt {pos : Position} {problem : Problem} (may : allowed problem) :
    ReportsOnly allowed (failAt pos problem) s :=
  (report may).map

theorem raise (status : PassStatus) : ReportsOnly allowed (raise status) s := by
  rintro a q ⟨⟩ report ⟨⟩

theorem useAliases (names : List String) : ReportsOnly allowed (useAliases names) s := by
  rintro a q ⟨⟩ report ⟨⟩

theorem scope {f : Scope → Resolve β} [∀ s, Steady (f s)] (after : ReportsOnly allowed (f s) s) :
    ReportsOnly allowed (scope >>= f) s := by
  refine bind ?_ ?_
  · rintro a q ⟨⟩ report ⟨⟩
  · rintro a q ⟨⟩
    exact after

theorem mapM {f : α → Resolve β} {xs : List α} [∀ x, Steady (f x)] (each : ∀ x ∈ xs, ReportsOnly allowed (f x) s) :
    ReportsOnly allowed (xs.mapM f) s := by
  induction xs with
  | nil => exact pure []
  | cons x xs ih =>
    rw [List.mapM_cons]
    refine (each x List.mem_cons_self).andThen fun _ => ?_
    exact (ih fun x member => each x (List.mem_cons_of_mem _ member)).map

theorem collectWhile {f : α → Resolve (Option (List β))} {xs : List α} [∀ x, Steady (f x)]
    (each : ∀ x ∈ xs, ReportsOnly allowed (f x) s) : ReportsOnly allowed (collectWhile f xs) s := by
  induction xs with
  | nil => exact pure _
  | cons x xs ih =>
    rw [collectWhile_cons]
    refine (each x List.mem_cons_self).andThen fun found => ?_
    have rest := ih fun x member => each x (List.mem_cons_of_mem _ member)
    cases found with
    | none => exact pure _
    | some found => exact rest.map

theorem within {m : Resolve α} {inner : Scope} (only : ReportsOnly allowed m inner) :
    ReportsOnly allowed (within inner m) s := by
  intro a q ran
  obtain ⟨⟨b, ended⟩, ranInside, same⟩ := Option.map_eq_some_iff.1 ran
  cases same
  exact only _ ended ranInside

end ReportsOnly

end Resolve

end TypeResolution
