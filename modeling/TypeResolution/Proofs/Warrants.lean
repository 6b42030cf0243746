import TypeResolution.Proofs.SideReports

namespace TypeResolution

/-- None of the reports is an error. -/
def NoErrors (reports : List Diagnostic) : Prop := ∀ report ∈ reports, report.isError = false

/-- What is found on the side is an error. -/
theorem Problem.OnTheSide.severity {problem : Problem} (side : problem.OnTheSide) : problem.severity = .error := by
  cases problem <;> first | rfl | cases side

/-- If there is no error among what is found on the side, nothing is found. -/
theorem NoErrors.nil_of_onTheSide {reports : List Diagnostic} (none : NoErrors reports)
    (side : ∀ report ∈ reports, report.problem.OnTheSide) : reports = [] := by
  refine List.eq_nil_iff_forall_not_mem.2 fun report member => ?_
  have isError : report.isError = true := by simp [Diagnostic.isError, Diagnostic.severity, (side report member).severity]
  rw [none report member] at isError
  cases isError

/-- Nothing is left open, and nothing was reported as an error. -/
def Progress.Clean (q : Progress) : Prop := q.status = .complete ∧ NoErrors q.reports

/-- Two runs are clean together if each of them is. -/
theorem Progress.clean_join {p q : Progress} : (p.join q).Clean ↔ p.Clean ∧ q.Clean := by
  simp only [Clean, NoErrors, join, PassStatus.merge_eq_complete_iff, List.forall_mem_append]
  exact and_and_and_comm

namespace Resolve

variable {α β : Type} {P : α → Prop} {Q : β → Prop}

/-- `P` holds of whatever `m` makes in a clean run. -/
def Warrants (m : Resolve α) (P : α → Prop) : Prop := ∀ s a q, m (.start s) = some (a, q) → q.Clean → P a

namespace Warrants

theorem mono {P' : α → Prop} {m : Resolve α} (warrants : Warrants m P) (weaken : ∀ a, P a → P' a) : Warrants m P' :=
  fun s a q ran clean => weaken a (warrants s a q ran clean)

theorem trivial (m : Resolve α) : Warrants m fun _ => True := fun _ _ _ _ _ => True.intro

theorem both {P' : α → Prop} {m : Resolve α} (left : Warrants m P) (right : Warrants m P') :
    Warrants m fun a => P a ∧ P' a :=
  fun s a q ran clean => ⟨left s a q ran clean, right s a q ran clean⟩

theorem stuck : Warrants (fun _ => none : Resolve α) P := by
  rintro s a q ⟨⟩

theorem pure {a : α} (holds : P a) : Warrants (Pure.pure a) P := by
  rintro s b q ⟨⟩ _
  exact holds

theorem bind {m : Resolve α} {f : α → Resolve β} [Steady m] [∀ a, Steady (f a)] (first : Warrants m P)
    (next : ∀ a, P a → Warrants (f a) Q) : Warrants (m >>= f) Q := by
  intro s result q ran clean
  rw [run_bind] at ran
  obtain ⟨⟨a, made⟩, ranFirst, ranNext⟩ := Option.bind_eq_some_iff.1 ran
  obtain ⟨⟨b, last⟩, ranLast, same⟩ := Option.bind_eq_some_iff.1 ranNext
  cases same
  obtain ⟨cleanFirst, cleanLast⟩ := Progress.clean_join.1 clean
  have atFirst : P a := first s a made ranFirst cleanFirst
  exact next a atFirst s b last ranLast cleanLast

theorem map {m : Resolve α} [Steady m] {f : α → β} (first : Warrants m P) (made : ∀ a, P a → Q (f a)) :
    Warrants (m >>= fun a => Pure.pure (f a)) Q :=
  first.bind fun a holds => pure (made a holds)

/-- What is warranted whatever came before is warranted after `m`. -/
theorem andThen {m : Resolve α} {f : α → Resolve β} [Steady m] [∀ a, Steady (f a)] (next : ∀ a, Warrants (f a) Q) :
    Warrants (m >>= f) Q :=
  (trivial m).bind fun a _ => next a

/-- Anything may follow a step that is never clean. -/
theorem never {m : Resolve α} {f : α → Resolve β} [Steady m] [∀ a, Steady (f a)] (first : Warrants m fun _ => False) :
    Warrants (m >>= f) Q :=
  first.bind fun _ => False.elim

theorem reportAll (reports : List Diagnostic) :
    Warrants (Resolve.reportAll reports) fun _ => NoErrors reports := by
  rintro s a q ⟨⟩ clean
  exact clean.2

theorem report (pos : Position) {problem : Problem} (isError : problem.severity = .error) :
    Warrants (Resolve.report pos problem) fun _ => False :=
  (reportAll [⟨pos, problem⟩]).mono fun _ none => by
    have notError := none _ (List.mem_singleton_self _)
    simp [Diagnostic.isError, Diagnostic.severity, isError] at notError

theorem failAt {P : Ty → Prop} (pos : Position) {problem : Problem} (isError : problem.severity = .error) :
    Warrants (Resolve.failAt pos problem) P := (report pos isError).never

theorem raise {status : PassStatus} (unfinished : status ≠ .complete) : Warrants (Resolve.raise status) fun _ => False := by
  rintro s a q ⟨⟩ clean
  have merged : PassStatus.complete.merge status = .complete := clean.1
  exact unfinished (PassStatus.merge_eq_complete_iff.1 merged).2

theorem raiseFirst {status : PassStatus} {f : Unit → Resolve β} [∀ a, Steady (f a)] (unfinished : status ≠ .complete) :
    Warrants (Resolve.raise status >>= f) Q := (raise unfinished).never

theorem reportFirst {problem : Problem} {f : Unit → Resolve β} [∀ a, Steady (f a)] (pos : Position)
    (isError : problem.severity = .error) : Warrants (Resolve.report pos problem >>= f) Q := (report pos isError).never

theorem within (s : Scope) {m : Resolve α} (inside : Warrants m P) : Warrants (Resolve.within s m) P := by
  intro _ result q ran clean
  obtain ⟨⟨a, ended⟩, ranInside, same⟩ := Option.map_eq_some_iff.1 ran
  cases same
  exact inside s result ended ranInside clean

theorem mapM {f : α → Resolve β} [∀ x, Steady (f x)] {xs : List α} (each : ∀ x ∈ xs, Warrants (f x) Q) :
    Warrants (xs.mapM f) fun ys => ∀ y ∈ ys, Q y := by
  induction xs with
  | nil => exact pure (List.forall_mem_nil _)
  | cons x xs ih =>
    rw [List.mapM_cons]
    have others := ih fun x member => each x (List.mem_cons_of_mem _ member)
    refine (each x List.mem_cons_self).bind fun y first => others.map fun ys rest => ?_
    exact List.forall_mem_cons.2 ⟨first, rest⟩

theorem length_mapM (f : α → Resolve β) [∀ x, Steady (f x)] (xs : List α) :
    Warrants (xs.mapM f) fun ys => ys.length = xs.length := by
  induction xs with
  | nil => exact pure rfl
  | cons x xs ih =>
    rw [List.mapM_cons]
    exact andThen fun _ => ih.map fun _ same => congrArg (· + 1) same

/-- A collection is made of what each of the elements has, and each of them has something. -/
theorem collectWhile {f : α → Resolve (Option (List β))} [∀ x, Steady (f x)] {xs : List α}
    (each : ∀ x ∈ xs, Warrants (f x) fun found => ∃ ys, found = some ys ∧ ∀ y ∈ ys, Q y) :
    Warrants (TypeResolution.collectWhile f xs) fun found => ∃ ys, found = some ys ∧ ∀ y ∈ ys, Q y := by
  induction xs with
  | nil => exact pure ⟨[], rfl, List.forall_mem_nil _⟩
  | cons x xs ih =>
    rw [collectWhile_cons]
    have others := ih fun x member => each x (List.mem_cons_of_mem _ member)
    refine (each x List.mem_cons_self).bind ?_
    rintro _ ⟨ys, rfl, first⟩
    refine others.map ?_
    rintro _ ⟨zs, rfl, rest⟩
    exact ⟨ys ++ zs, rfl, List.forall_mem_append.2 ⟨first, rest⟩⟩

/-- What is warranted holds of what any run makes, unless it is left open or reports an error. -/
theorem run {m : Resolve α} [Steady m] (warrants : Warrants m P) {p q : Progress} {a : α} (ran : m p = some (a, q)) :
    P a ∨ q.status ≠ .complete ∨ ∃ report ∈ p.newReports q, report.isError := by
  obtain ⟨made, ranAlone, rfl, _⟩ := Steady.run ran
  by_cases clean : made.Clean
  · exact .inl (warrants _ a made ranAlone clean)
  have new : p.newReports (p.join made) = made.reports := by simp [Progress.newReports, Progress.join]
  rw [new]
  by_cases complete : made.status = .complete
  · have someError : ¬ NoErrors made.reports := fun none => clean ⟨complete, none⟩
    obtain ⟨report, member, isError⟩ : ∃ report ∈ made.reports, report.isError = true := by
      simpa [NoErrors] using someError
    exact .inr (.inr ⟨report, member, isError⟩)
  · exact .inr (.inl fun finished => complete (PassStatus.merge_eq_complete_iff.1 finished).2)

end Warrants

end Resolve

end TypeResolution
