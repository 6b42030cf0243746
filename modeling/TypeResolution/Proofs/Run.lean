import Mathlib.Data.List.Forall2
import TypeResolution.Resolver

namespace TypeResolution

theorem PassStatus.merge_self_left (a b : PassStatus) : a.merge (a.merge b) = a.merge b := by
  cases a <;> cases b <;> rfl

theorem PassStatus.merge_eq_complete_iff {a b : PassStatus} : a.merge b = .complete ↔ a = .complete ∧ b = .complete := by
  cases a <;> cases b <;> decide

theorem PassStatus.eq_complete_of_merge {a : PassStatus} (merged : a.merge .complete = .complete) :
    a = .complete := by
  cases a <;> first | rfl | cases merged

theorem PassStatus.deferred_of_merge {a b : PassStatus} (merged : a.merge b = .deferred) :
    a = .deferred ∨ b = .deferred := by
  cases a <;> cases b <;> simp_all [merge]

/-- What a run may do to the record of a resolution: it adds reports and aliases at the end, and its
status does not get better. -/
structure Progress.Precedes (p q : Progress) : Prop where
  reports : p.reports <+: q.reports
  aliasesUsed : p.aliasesUsed <+: q.aliasesUsed
  status : p.status.merge q.status = q.status

theorem Progress.Precedes.refl (p : Progress) : p.Precedes p :=
  ⟨List.prefix_rfl, List.prefix_rfl, by cases p.status <;> rfl⟩

theorem Progress.Precedes.trans {p q q' : Progress} (first : p.Precedes q) (next : q.Precedes q') :
    p.Precedes q' := by
  refine ⟨first.reports.trans next.reports, first.aliasesUsed.trans next.aliasesUsed, ?_⟩
  rw [← next.status, ← PassStatus.merge_assoc, first.status]

theorem Progress.Precedes.of_scope (p : Progress) (s : Scope) : p.Precedes { p with scope := s } :=
  ⟨List.prefix_rfl, List.prefix_rfl, (Progress.Precedes.refl p).status⟩

theorem addDistinct_extends {α : Type} [BEq α] (kept : List α) (x : α) : kept <+: addDistinct kept x := by
  unfold addDistinct
  split
  · exact List.prefix_rfl
  · exact List.prefix_append kept [x]

theorem foldl_addDistinct_extends {α : Type} [BEq α] (xs kept : List α) :
    kept <+: xs.foldl addDistinct kept := by
  induction xs generalizing kept with
  | nil => exact List.prefix_rfl
  | cons x xs ih => exact (addDistinct_extends kept x).trans (ih (addDistinct kept x))

theorem Resolve.bind_of_run {α β : Type} {p q : Progress} {m : Resolve α} {f : α → Resolve β} {a : α}
    (ran : m p = some (a, q)) : (m >>= f) p = f a q := by
  change (m p).bind _ = _
  rw [ran]
  rfl

namespace Resolver

open Resolve

variable {r : Resolver} {α β : Type} {p : Progress} {m : Resolve α} {P Q : α → Progress → Prop}

/-- What a run of the resolver may do to the record: on the final pass it does not defer, either. -/
structure Leads (r : Resolver) (p q : Progress) : Prop where
  precedes : p.Precedes q
  settles : r.table.finalPass = true → q.status = .deferred → p.status = .deferred

theorem Leads.refl (p : Progress) : r.Leads p p := ⟨.refl p, fun _ same => same⟩

theorem Leads.trans {q q' : Progress} (first : r.Leads p q) (next : r.Leads q q') : r.Leads p q' :=
  ⟨first.precedes.trans next.precedes, fun final was => first.settles final (next.settles final was)⟩

theorem Leads.of_status {q : Progress} (precedes : p.Precedes q) (same : q.status = p.status) : r.Leads p q :=
  ⟨precedes, fun _ was => same ▸ was⟩

/-- Whenever `m`, started from `p`, comes to an end, its result and the record it leaves satisfy `P`. -/
def Ensures (r : Resolver) (p : Progress) (m : Resolve α) (P : α → Progress → Prop) : Prop :=
  ∀ a q, m p = some (a, q) → r.Leads p q ∧ P a q

theorem Ensures.mono (run : r.Ensures p m P) (weaken : ∀ a q, p.Precedes q → P a q → Q a q) :
    r.Ensures p m Q := by
  intro a q ran
  obtain ⟨after, holds⟩ := run a q ran
  exact ⟨after, weaken a q after.precedes holds⟩

theorem Ensures.pure {a : α} (holds : P a p) : r.Ensures p (Pure.pure a) P := by
  intro b q ran
  cases ran
  exact ⟨.refl p, holds⟩

theorem Ensures.bind {f : α → Resolve β} {R : β → Progress → Prop} (first : r.Ensures p m P)
    (next : ∀ a q, p.Precedes q → P a q → r.Ensures q (f a) R) : r.Ensures p (m >>= f) R := by
  intro b q ran
  change ((m p).bind fun (a, middle) => f a middle) = some (b, q) at ran
  obtain ⟨⟨a, middle⟩, ranFirst, ranNext⟩ := Option.bind_eq_some_iff.1 ran
  obtain ⟨before, holds⟩ := first a middle ranFirst
  obtain ⟨after, result⟩ := next a middle before.precedes holds b q ranNext
  exact ⟨before.trans after, result⟩

theorem Ensures.stuck : r.Ensures p (fun _ => none : Resolve α) P := by
  intro a q ran
  cases ran

theorem Ensures.reportAll (reports : List Diagnostic) :
    r.Ensures p (reportAll reports) fun _ q => q = { p with reports := p.reports ++ reports } := by
  intro a q ran
  cases ran
  exact ⟨.of_status ⟨List.prefix_append _ _, List.prefix_rfl, (Progress.Precedes.refl p).status⟩ rfl, rfl⟩

theorem Ensures.report (pos : Position) (problem : Problem) :
    r.Ensures p (report pos problem) fun _ q => q = { p with reports := p.reports ++ [⟨pos, problem⟩] } :=
  .reportAll [⟨pos, problem⟩]

theorem Ensures.failAt {pos : Position} {problem : Problem} {P : Ty → Progress → Prop}
    (holds : P (.anyAt .error pos) { p with reports := p.reports ++ [⟨pos, problem⟩] }) :
    r.Ensures p (failAt pos problem) P := by
  refine (Ensures.report pos problem).bind fun _ q _ reported => ?_
  subst reported
  exact .pure holds

/-- Nothing is deferred on the final pass. -/
theorem Ensures.raise {status : PassStatus} (allowed : r.table.finalPass = false ∨ status ≠ .deferred) :
    r.Ensures p (raise status) fun _ q => q = { p with status := p.status.merge status } := by
  intro a q ran
  cases ran
  refine ⟨⟨⟨List.prefix_rfl, List.prefix_rfl, PassStatus.merge_self_left _ _⟩, fun final was => ?_⟩, rfl⟩
  rcases allowed with notFinal | other
  · rw [notFinal] at final
    cases final
  · exact (PassStatus.deferred_of_merge was).resolve_right other

theorem Ensures.useAliases (names : List String) :
    r.Ensures p (useAliases names) fun _ q =>
      q = { p with aliasesUsed := names.foldl addDistinct p.aliasesUsed } := by
  intro a q ran
  cases ran
  exact ⟨.of_status ⟨List.prefix_rfl, foldl_addDistinct_extends names _, (Progress.Precedes.refl p).status⟩ rfl, rfl⟩

theorem Ensures.scope : r.Ensures p scope fun s q => s = p.scope ∧ q = p := by
  intro a q ran
  cases ran
  exact ⟨.refl p, rfl, rfl⟩

theorem Ensures.setScope (s : Scope) : r.Ensures p (setScope s) fun _ q => q = { p with scope := s } := by
  intro a q ran
  cases ran
  exact ⟨.of_status (.of_scope p s) rfl, rfl⟩

/-- A frame is opened for `body` and closed after it, whatever `body` binds in it. -/
theorem Ensures.inFrame {body : Resolve α}
    (run : r.Ensures { p with scope := p.scope.functionFrame } body fun a q => P a { q with scope := p.scope }) :
    r.Ensures p (inFrame body) P := by
  refine Ensures.scope.bind fun outer q _ started => ?_
  obtain ⟨rfl, rfl⟩ := started
  refine (Ensures.setScope _).bind fun _ q _ opened => ?_
  subst opened
  refine run.bind fun a after _ holds => ?_
  refine (Ensures.setScope _).bind fun _ q _ closed => ?_
  subst closed
  exact .pure holds

/-- Resolving one after the other, each in the scope `s`: what holds of a result when it is made still holds
in the end. -/
theorem Ensures.mapM {f : α → Resolve β} {R : α → Progress → β → Progress → Prop} {s : Scope}
    (stable : ∀ {x y p p' q q'}, p'.scope = p.scope → p'.Precedes p → q.Precedes q' → R x p y q → R x p' y q')
    (xs : List α)
    (each : ∀ x ∈ xs, ∀ p, p.scope = s → r.Ensures p (f x) fun y q => q.scope = s ∧ R x p y q)
    (started : p.scope = s) :
    r.Ensures p (xs.mapM f) fun ys q => q.scope = s ∧ List.Forall₂ (fun x y => R x p y q) xs ys := by
  induction xs generalizing p with
  | nil => exact .pure ⟨started, .nil⟩
  | cons x xs ih =>
    rw [List.mapM_cons]
    refine (each x (by simp) p started).bind fun y q before head => ?_
    refine (ih (fun x member => each x (by simp [member])) head.1).bind fun ys q' after tail => ?_
    exact .pure ⟨tail.1, .cons (stable rfl (.refl p) after head.2)
      (tail.2.imp fun _ _ holds => stable (started.trans head.1.symm) before (.refl q') holds)⟩

end Resolver

end TypeResolution
