import TypeResolution.Proofs.LiteralMembers
import TypeResolution.Proofs.Fulfilment

namespace TypeResolution

open Resolve

namespace Resolve

variable {α β γ δ : Type} {s : Scope}

/-- In the scope `s`, `m` gives `a`: nothing is missing for it, and nothing is reported. -/
def Quiet (m : Resolve α) (s : Scope) (a : α) : Prop :=
  ∃ q, m (.start s) = some (a, q) ∧ q.status = .complete ∧ q.reports = []

namespace Quiet

theorem yields {m : Resolve α} {a : α} (quiet : Quiet m s a) : Yields Problem.Never m s a := by
  obtain ⟨q, ran, _, silent⟩ := quiet
  exact ⟨q, ran, by simp [silent]⟩

theorem shallow {m : Resolve α} {a : α} (quiet : Quiet m s a) : Yields Problem.IsShallow m s a :=
  quiet.yields.mono fun _ => False.elim

theorem pure (a : α) : Quiet (Pure.pure a) s a := ⟨.start s, rfl, rfl, rfl⟩

/-- A run of two steps is quiet if both of them are. -/
theorem bind_iff {m : Resolve α} {f : α → Resolve β} [Steady m] [∀ a, Steady (f a)] {b : β} :
    Quiet (m >>= f) s b ↔ ∃ a, Quiet m s a ∧ Quiet (f a) s b := by
  unfold Quiet
  rw [run_bind]
  constructor
  · rintro ⟨q, ran, complete, silent⟩
    obtain ⟨⟨a, first⟩, ranFirst, rest⟩ := Option.bind_eq_some_iff.1 ran
    obtain ⟨⟨_, last⟩, ranLast, made⟩ := Option.bind_eq_some_iff.1 rest
    cases made
    obtain ⟨completeFirst, completeLast⟩ := PassStatus.merge_eq_complete_iff.1 complete
    obtain ⟨silentFirst, silentLast⟩ := List.append_eq_nil_iff.1 silent
    exact ⟨a, ⟨first, ranFirst, completeFirst, silentFirst⟩, last, ranLast, completeLast, silentLast⟩
  · rintro ⟨a, ⟨first, ranFirst, completeFirst, silentFirst⟩, last, ranLast, completeLast, silentLast⟩
    refine ⟨first.join last, ?_, ?_, ?_⟩
    · rw [ranFirst, Option.bind_some, ranLast]
      rfl
    · exact PassStatus.merge_eq_complete_iff.2 ⟨completeFirst, completeLast⟩
    · exact List.append_eq_nil_iff.2 ⟨silentFirst, silentLast⟩

theorem within_iff {m : Resolve α} {inner : Scope} {a : α} : Quiet (within inner m) s a ↔ Quiet m inner a := by
  constructor
  · rintro ⟨q, ran, complete, silent⟩
    obtain ⟨⟨b, ended⟩, ranInside, same⟩ := Option.map_eq_some_iff.1 ran
    cases same
    exact ⟨ended, ranInside, complete, silent⟩
  · rintro ⟨q, ran, complete, silent⟩
    exact ⟨{ q with scope := s }, Option.map_eq_some_iff.2 ⟨_, ran, rfl⟩, complete, silent⟩

theorem reportAll {reports : List Diagnostic} {u : Unit} (quiet : Quiet (Resolve.reportAll reports) s u) : reports = [] :=
  List.eq_nil_iff_forall_not_mem.2 fun report member => quiet.yields.reportAll report member

theorem not_raise {status : PassStatus} (worse : status ≠ .complete) {u : Unit} : ¬ Quiet (raise status) s u := by
  rintro ⟨q, ran, complete, _⟩
  cases ran
  exact worse (PassStatus.merge_eq_complete_iff.1 complete).2

theorem mapM_iff {f : α → Resolve β} [∀ x, Steady (f x)] {xs : List α} {ys : List β} :
    Quiet (xs.mapM f) s ys ↔ List.Forall₂ (fun x y => Quiet (f x) s y) xs ys := by
  constructor
  · intro quiet
    induction xs generalizing ys with
    | nil =>
      rw [← quiet.yields.pure]
      exact .nil
    | cons x xs ih =>
      rw [List.mapM_cons] at quiet
      obtain ⟨y, head, quiet⟩ := bind_iff.1 quiet
      obtain ⟨rest, tail, quiet⟩ := bind_iff.1 quiet
      rw [← quiet.yields.pure]
      exact .cons head (ih tail)
  · intro each
    induction each with
    | nil => exact .pure []
    | cons head _ tail =>
      rw [List.mapM_cons]
      exact bind_iff.2 ⟨_, head, bind_iff.2 ⟨_, tail, .pure _⟩⟩

end Quiet

/-- Where `m` is quiet, `m'` is so as well, unless something is nested too deep for it, and their results are related. If `ends`
holds, `m'` does come to a result. -/
def Mirrors (ends : Prop) (s : Scope) (m : Resolve α) (m' : Resolve β) (R : α → β → Prop) : Prop :=
  ∀ a, Quiet m s a → (∀ b, Yields Problem.IsShallow m' s b → Quiet m' s b ∧ R a b) ∧ (ends → ∃ b, Quiet m' s b)

namespace Mirrors

variable {ends : Prop} {R : α → β → Prop} {S : γ → δ → Prop} {m : Resolve α} {m' : Resolve β}

theorem pure {a : α} {b : β} (related : R a b) : Mirrors ends s (Pure.pure a) (Pure.pure b) R := by
  refine fun x quiet => ⟨fun y yields => ?_, fun _ => ⟨b, .pure b⟩⟩
  rw [← quiet.yields.pure, ← yields.pure]
  exact ⟨.pure b, related⟩

theorem of_loud (loud : ∀ a, ¬ Quiet m s a) : Mirrors ends s m m' R := fun a quiet => (loud a quiet).elim

theorem of_report {reports : List Diagnostic} (some : reports ≠ []) {n : Resolve α} [Steady n] :
    Mirrors ends s (reportAll reports >>= fun _ => n) m' R := by
  refine of_loud fun a quiet => ?_
  obtain ⟨_, reported, _⟩ := Quiet.bind_iff.1 quiet
  exact some reported.reportAll

theorem of_raise {status : PassStatus} (worse : status ≠ .complete) {n : Resolve α} [Steady n] :
    Mirrors ends s (raise status >>= fun _ => n) m' R := by
  refine of_loud fun a quiet => ?_
  obtain ⟨_, raised, _⟩ := Quiet.bind_iff.1 quiet
  exact Quiet.not_raise worse raised

theorem of_fail {pos : Position} {problem : Problem} {m' : Resolve β} {R : Ty → β → Prop} :
    Mirrors ends s (failAt pos problem) m' R :=
  of_report (List.cons_ne_nil _ _)

/-- A run that is out of recursion comes to no result. -/
theorem of_stuck (never : ¬ ends) : Mirrors ends s m (fun _ => none : Resolve β) R :=
  fun _ _ => ⟨fun _ yields => yields.stuck.elim, fun holds => (never holds).elim⟩

theorem mono {R' : α → β → Prop} (mirrors : Mirrors ends s m m' R)
    (weaken : ∀ a b, Quiet m s a → Yields Problem.IsShallow m' s b → R a b → R' a b) : Mirrors ends s m m' R' := by
  refine fun a quiet => ⟨fun b yields => ?_, (mirrors a quiet).2⟩
  obtain ⟨quiet', related⟩ := (mirrors a quiet).1 b yields
  exact ⟨quiet', weaken a b quiet yields related⟩

/-- A run comes to one result. -/
theorem refl (m : Resolve α) : Mirrors ends s m m Eq := by
  rintro a ⟨q, ran, complete, silent⟩
  have quiet : Quiet m s a := ⟨q, ran, complete, silent⟩
  refine ⟨?_, fun _ => ⟨a, quiet⟩⟩
  rintro b ⟨q', ran', _⟩
  rw [ran] at ran'
  cases ran'
  exact ⟨quiet, rfl⟩

theorem bind [Steady m] [Steady m'] {f : α → Resolve γ} {f' : β → Resolve δ} [∀ a, Steady (f a)] [∀ b, Steady (f' b)]
    (first : Mirrors ends s m m' R)
    (next : ∀ a b, Quiet m s a → Yields Problem.IsShallow m' s b → R a b → Mirrors ends s (f a) (f' b) S) :
    Mirrors ends s (m >>= f) (m' >>= f') S := by
  intro c quiet
  obtain ⟨a, quietFirst, quietLast⟩ := Quiet.bind_iff.1 quiet
  obtain ⟨here, comes⟩ := first a quietFirst
  have after (b : β) (yields : Yields Problem.IsShallow m' s b) := next a b quietFirst yields (here b yields).2 c quietLast
  constructor
  · intro d yields
    obtain ⟨b, yieldsFirst, yieldsLast⟩ := yields.bind
    obtain ⟨quietLast', related⟩ := (after b yieldsFirst).1 d yieldsLast
    exact ⟨Quiet.bind_iff.2 ⟨b, (here b yieldsFirst).1, quietLast'⟩, related⟩
  · intro holds
    obtain ⟨b, quietFirst'⟩ := comes holds
    obtain ⟨d, quietLast'⟩ := (after b quietFirst'.shallow).2 holds
    exact ⟨d, Quiet.bind_iff.2 ⟨b, quietFirst', quietLast'⟩⟩

theorem map [Steady m] [Steady m'] {f : α → γ} {f' : β → δ} (first : Mirrors ends s m m' R)
    (next : ∀ a b, Quiet m s a → Yields Problem.IsShallow m' s b → R a b → S (f a) (f' b)) :
    Mirrors ends s (m >>= fun a => Pure.pure (f a)) (m' >>= fun b => Pure.pure (f' b)) S :=
  first.bind fun a b quiet yields related => .pure (next a b quiet yields related)

/-- After the same step, the rest is mirrored if it is wherever that step leads. -/
theorem after (m : Resolve α) [Steady m] {f : α → Resolve γ} {f' : α → Resolve δ} [∀ a, Steady (f a)] [∀ a, Steady (f' a)]
    (next : ∀ a, Mirrors ends s (f a) (f' a) S) : Mirrors ends s (m >>= f) (m >>= f') S :=
  (refl m).bind fun a _ _ _ same => same ▸ next a

/-- Nothing may be reported first, neither by the one run nor by the other. -/
theorem reportThen {reports reports' : List Diagnostic} {n : Resolve γ} {n' : Resolve δ} [Steady n] [Steady n']
    (silent : reports = [] → reports' = []) (next : reports = [] → Mirrors ends s n n' S) :
    Mirrors ends s (reportAll reports >>= fun _ => n) (reportAll reports' >>= fun _ => n') S := by
  by_cases none : reports = []
  · rw [none, silent none, reportAll_nil_bind, reportAll_nil_bind]
    exact next none
  · exact of_report none

theorem scopeThen {f : Scope → Resolve γ} {f' : Scope → Resolve δ} (next : Mirrors ends s (f s) (f' s) S) :
    Mirrors ends s (scope >>= f) (scope >>= f') S := next

theorem within {inner : Scope} (inside : Mirrors ends inner m m' R) :
    Mirrors ends s (within inner m) (Resolve.within inner m') R := by
  intro a quiet
  obtain ⟨here, comes⟩ := inside a (Quiet.within_iff.1 quiet)
  constructor
  · intro b yields
    obtain ⟨quiet', related⟩ := here b yields.within
    exact ⟨Quiet.within_iff.2 quiet', related⟩
  · intro holds
    obtain ⟨b, quiet'⟩ := comes holds
    exact ⟨b, Quiet.within_iff.2 quiet'⟩

theorem mapM {ε : Type} {f : γ → Resolve α} {f' : ε → Resolve β} [∀ x, Steady (f x)] [∀ x, Steady (f' x)] {change : γ → ε}
    (xs : List γ) (each : ∀ x ∈ xs, Mirrors ends s (f x) (f' (change x)) R) :
    Mirrors ends s (xs.mapM f) ((xs.map change).mapM f') (List.Forall₂ R) := by
  induction xs with
  | nil => exact .pure .nil
  | cons x xs ih =>
    rw [List.map_cons, List.mapM_cons, List.mapM_cons]
    refine (each x List.mem_cons_self).bind fun a b _ _ here => ?_
    exact (ih fun y member => each y (List.mem_cons_of_mem x member)).map fun _ _ _ _ there => .cons here there

/-- Where each step comes to the same as its image, and to something with `P`, all of them do. -/
theorem mapM_same {P : α → Prop} {f f' : γ → Resolve α} [∀ x, Steady (f x)] [∀ x, Steady (f' x)] (xs : List γ)
    (each : ∀ x ∈ xs, Mirrors ends s (f x) (f' x) fun a c => P a ∧ a = c) :
    Mirrors ends s (xs.mapM f) (xs.mapM f') fun as cs => (∀ a ∈ as, P a) ∧ as = cs := by
  have all : Mirrors ends s (xs.mapM f) ((xs.map id).mapM f') (List.Forall₂ fun a c => P a ∧ a = c) := mapM xs each
  rw [List.map_id] at all
  refine all.mono fun _ _ _ _ related => ?_
  obtain ⟨holds, same⟩ := (List.forall₂_and_left _ _).1 related
  exact ⟨holds, List.forall₂_eq_eq_eq ▸ same⟩

theorem collectWhile {P : α → Prop} {f f' : γ → Resolve (Option (List α))} [∀ x, Steady (f x)] [∀ x, Steady (f' x)]
    (xs : List γ)
    (each : ∀ x ∈ xs, Mirrors ends s (f x) (f' x) fun found found' => (∀ a ∈ found.getD [], P a) ∧ found = found') :
    Mirrors ends s (collectWhile f xs) (TypeResolution.collectWhile f' xs) fun found found' =>
      (∀ a ∈ found.getD [], P a) ∧ found = found' := by
  induction xs with
  | nil => exact .pure ⟨List.forall_mem_nil _, rfl⟩
  | cons x xs ih =>
    rw [collectWhile_cons, collectWhile_cons]
    refine (each x List.mem_cons_self).bind fun found found' _ _ here => ?_
    obtain ⟨holds, rfl⟩ := here
    cases found with
    | none => exact .pure ⟨List.forall_mem_nil _, rfl⟩
    | some found =>
      refine (ih fun y member => each y (List.mem_cons_of_mem x member)).map fun more more' _ _ there => ?_
      obtain ⟨others, rfl⟩ := there
      cases more with
      | none => exact ⟨List.forall_mem_nil _, rfl⟩
      | some more => exact ⟨List.forall_mem_append.2 ⟨holds, others⟩, rfl⟩

end Mirrors

end Resolve

end TypeResolution
