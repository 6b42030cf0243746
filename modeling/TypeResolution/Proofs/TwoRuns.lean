import Mathlib.Data.Option.Basic
import TypeResolution.Proofs.AlikeTypes
import TypeResolution.Proofs.SideReports

namespace TypeResolution

open Resolve

/-- A report, or a note, that is made of a scalar where a type was expected. -/
def Problem.aboutScalar : Problem → Bool
  | .scalarAsType _ | .scalarNeedsLiteral _ | .invalidExpression | .remarked _ => true
  | _ => false

theorem Problem.OnTheSide.plain {problem : Problem} (side : problem.OnTheSide) : problem.aboutScalar = false := by
  cases problem <;> first | rfl | cases side

/-- How the reports of one run are compared to those of another: what the first reports are to say of the second, and
when the first count as none. Reports that are about no scalar may be made by both runs. -/
structure Comparison where
  told : List Diagnostic → List Diagnostic → Prop
  quiet : List Diagnostic → Prop
  same {reports : List Diagnostic} : (∀ report ∈ reports, report.problem.aboutScalar = false) → told reports reports
  quiet_left {before after : List Diagnostic} : quiet (before ++ after) → quiet before
  quiet_right {before after : List Diagnostic} : quiet (before ++ after) → quiet after
  append {before before' after after' : List Diagnostic} : told before before' → (quiet before → told after after') →
    told (before ++ after) (before' ++ after')

theorem rel_bind {α β γ δ : Type} {R : α → β → Prop} {S : γ → δ → Prop} {o : Option α} {o' : Option β}
    (related : Option.Rel R o o') {f : α → Option γ} {f' : β → Option δ}
    (next : ∀ a b, R a b → Option.Rel S (f a) (f' b)) : Option.Rel S (o.bind f) (o'.bind f') := by
  cases related with
  | some here => exact next _ _ here
  | none => exact .none

theorem rel_mono {α β : Type} {R S : α → β → Prop} {o : Option α} {o' : Option β} (related : Option.Rel R o o')
    (weaken : ∀ a b, o = some a → o' = some b → R a b → S a b) : Option.Rel S o o' := by
  cases related with
  | some here => exact .some (weaken _ _ rfl rfl here)
  | none => exact .none

theorem eq_map_of_rel {α β : Type} {f : α → β} {o : Option α} {o' : Option β}
    (related : Option.Rel (fun a b => b = f a) o o') : o' = o.map f := by
  cases related with
  | some same => exact congrArg some same
  | none => rfl

namespace Comparison

variable {α β γ δ : Type} {c : Comparison} {exact : Prop} {look : α → β} {look' : γ → δ} {s s' : Scope}

/-- What two runs have made agrees: in all but the reports if `exact` holds and the first run is quiet, and in that case
the reports are as they are to be. -/
structure Alongside (c : Comparison) (exact : Prop) (look : α → β) (made made' : α × Progress) : Prop where
  status : made.2.status = made'.2.status
  aliasesUsed : made.2.aliasesUsed = made'.2.aliasesUsed
  told : exact → c.told made.2.reports made'.2.reports
  result : Alike (exact ∧ c.quiet made.2.reports) look made.1 made'.1

theorem Alongside.join {made made' : α × Progress} (first : c.Alongside exact look made made') {last last' : γ × Progress}
    (next : c.Alongside (exact ∧ c.quiet made.2.reports) look' last last') :
    c.Alongside exact look' (last.1, made.2.join last.2) (last'.1, made'.2.join last'.2) where
  status := by simp only [Progress.join, first.status, next.status]
  aliasesUsed := by simp only [Progress.join, first.aliasesUsed, next.aliasesUsed]
  told holds := c.append (first.told holds) fun quiet => next.told ⟨holds, quiet⟩
  result := next.result.mono fun holds => ⟨⟨holds.1, c.quiet_left holds.2⟩, c.quiet_right holds.2⟩

/-- The run of `m` in the scope `s` and that of `m'` in `s'` end together, and what they make agrees. -/
def Agree (c : Comparison) (exact : Prop) (look : α → β) (s s' : Scope) (m m' : Resolve α) : Prop :=
  Option.Rel (c.Alongside exact look) (m (.start s)) (m' (.start s'))

namespace Agree

theorem pure {a a' : α} (alike : Alike exact look a a') : c.Agree exact look s s' (Pure.pure a) (Pure.pure a') :=
  .some ⟨rfl, rfl, fun _ => c.same (by simp [Progress.start]), alike.mono And.left⟩

theorem stuck : c.Agree exact look s s' (fun _ => none) (fun _ => none) := .none

theorem reported {reports : List Diagnostic} (plain : ∀ report ∈ reports, report.problem.aboutScalar = false) :
    c.Agree exact (fun _ => ()) s s' (Resolve.reportAll reports) (Resolve.reportAll reports) :=
  .some ⟨rfl, rfl, fun _ => c.same (by simpa [Progress.start] using plain), .refl _⟩

/-- Two runs agree if their first steps do, and what follows does from results that agree. -/
theorem bind {m m' : Resolve α} {f f' : α → Resolve γ} [Steady m] [Steady m'] [∀ a, Steady (f a)] [∀ a, Steady (f' a)]
    (first : c.Agree exact look s s' m m')
    (after : ∀ inner : Prop, (inner → exact) → ∀ a a', Alike inner look a a' → c.Agree inner look' s s' (f a) (f' a')) :
    c.Agree exact look' s s' (m >>= f) (m' >>= f') := by
  unfold Agree
  rw [run_bind, run_bind]
  refine rel_bind first fun made made' agree => ?_
  have second := after (exact ∧ c.quiet made.2.reports) And.left _ _ agree.result
  exact rel_bind second fun _ _ agree' => .some (agree.join agree')

theorem map {m m' : Resolve α} {f f' : α → γ} [Steady m] [Steady m'] (first : c.Agree exact look s s' m m')
    (shows : ∀ inner : Prop, (inner → exact) → ∀ a a', Alike inner look a a' → Alike inner look' (f a) (f' a')) :
    c.Agree exact look' s s' (m >>= fun a => Pure.pure (f a)) (m' >>= fun a => Pure.pure (f' a)) :=
  first.bind fun inner weaker a a' alike => pure (shows inner weaker a a' alike)

/-- After reports that may differ, two runs agree if what follows does where these reports are quiet. -/
theorem reportThen {reports reports' : List Diagnostic} {m m' : Resolve γ} [Steady m] [Steady m']
    (told : exact → c.told reports reports')
    (after : ∀ inner : Prop, (inner → exact ∧ c.quiet reports) → c.Agree inner look' s s' m m') :
    c.Agree exact look' s s' (reportAll reports >>= fun _ => m) (reportAll reports' >>= fun _ => m') := by
  have first : c.Alongside exact (fun _ : Unit => ()) ((), { Progress.start s with reports := reports })
      ((), { Progress.start s' with reports := reports' }) := ⟨rfl, rfl, told, .refl _⟩
  unfold Agree
  rw [run_bind, run_bind]
  exact rel_bind (after _ id) fun _ _ agree' => .some (first.join agree')

theorem reportAll {reports : List Diagnostic} (plain : ∀ report ∈ reports, report.problem.aboutScalar = false)
    {m m' : Resolve γ} [Steady m] [Steady m']
    (after : ∀ inner : Prop, (inner → exact) → c.Agree inner look' s s' m m') :
    c.Agree exact look' s s' (Resolve.reportAll reports >>= fun _ => m) (Resolve.reportAll reports >>= fun _ => m') :=
  reportThen (fun _ => c.same plain) fun inner weaker => after inner fun holds => (weaker holds).1

theorem side {reports : List Diagnostic} (side : ∀ report ∈ reports, report.problem.OnTheSide) {m m' : Resolve γ} [Steady m]
    [Steady m'] (after : ∀ inner : Prop, (inner → exact) → c.Agree inner look' s s' m m') :
    c.Agree exact look' s s' (Resolve.reportAll reports >>= fun _ => m) (Resolve.reportAll reports >>= fun _ => m') :=
  reportAll (fun report member => (side report member).plain) after

theorem report {pos : Position} {problem : Problem} (plain : problem.aboutScalar = false) {m m' : Resolve γ} [Steady m]
    [Steady m'] (after : ∀ inner : Prop, (inner → exact) → c.Agree inner look' s s' m m') :
    c.Agree exact look' s s' (Resolve.report pos problem >>= fun _ => m) (Resolve.report pos problem >>= fun _ => m') :=
  reportAll (by simpa using plain) after

theorem failAt (pos : Position) {problem : Problem} (plain : problem.aboutScalar = false) {look : Ty → β} :
    c.Agree exact look s s' (failAt pos problem) (failAt pos problem) :=
  report plain fun _ _ => pure (.refl _)

theorem raise (status : PassStatus) : c.Agree exact (fun _ => ()) s s' (Resolve.raise status) (Resolve.raise status) :=
  .some ⟨rfl, rfl, fun _ => c.same (by simp [Progress.start]), .refl _⟩

theorem useAliases (names : List String) :
    c.Agree exact (fun _ => ()) s s' (Resolve.useAliases names) (Resolve.useAliases names) :=
  .some ⟨rfl, rfl, fun _ => c.same (by simp [Progress.start]), .refl _⟩

theorem scopeThen {f f' : Scope → Resolve γ} (after : c.Agree exact look' s s' (f s) (f' s')) :
    c.Agree exact look' s s' (Resolve.scope >>= f) (Resolve.scope >>= f') := after

theorem within {m m' : Resolve α} {i i' : Scope} (inside : c.Agree exact look i i' m m') :
    c.Agree exact look s s' (Resolve.within i m) (Resolve.within i' m') := by
  unfold Agree Resolve.within
  rw [Option.map_eq_bind, Option.map_eq_bind]
  exact rel_bind inside fun made made' agree => .some ⟨agree.status, agree.aliasesUsed, agree.told, agree.result⟩

theorem mapM {f f' : α → Resolve γ} [∀ x, Steady (f x)] [∀ x, Steady (f' x)] {xs xs' : List α}
    (alike : Alike exact (List.map look) xs xs')
    (each : ∀ inner : Prop, (inner → exact) → ∀ x x', Alike inner look x x' → c.Agree inner look' s s' (f x) (f' x')) :
    c.Agree exact (List.map look') s s' (xs.mapM f) (xs'.mapM f') := by
  induction xs generalizing exact xs' with
  | nil =>
    rw [alike.nil_left]
    exact pure (.refl [])
  | cons x xs ih =>
    obtain ⟨x', rest, rfl, first, others⟩ := alike.cons_left
    rw [List.mapM_cons, List.mapM_cons]
    refine (each exact id x x' first).bind fun inner weaker y y' atFirst => ?_
    have following := ih (others.mono weaker) fun inner' weaker' => each inner' fun holds => weaker (weaker' holds)
    exact following.map fun inner' weaker' ys ys' atRest => (atFirst.mono weaker').cons atRest

theorem collectWhile {f f' : α → Resolve (Option (List γ))} [∀ x, Steady (f x)] [∀ x, Steady (f' x)] {xs xs' : List α}
    (alike : Alike exact (List.map look) xs xs')
    (each : ∀ inner : Prop, (inner → exact) → ∀ x x', Alike inner look x x' →
      c.Agree inner (Option.map (List.map look')) s s' (f x) (f' x')) :
    c.Agree exact (Option.map (List.map look')) s s' (collectWhile f xs) (collectWhile f' xs') := by
  induction xs generalizing exact xs' with
  | nil =>
    rw [alike.nil_left]
    exact pure (.refl _)
  | cons x xs ih =>
    obtain ⟨x', rest, rfl, first, others⟩ := alike.cons_left
    rw [collectWhile_cons, collectWhile_cons]
    refine (each exact id x x' first).bind fun inner weaker found found' atFirst => ?_
    have following := ih (others.mono weaker) fun inner' weaker' => each inner' fun holds => weaker (weaker' holds)
    cases found with
    | none =>
      rw [atFirst.none_left]
      exact pure (.refl _)
    | some found =>
      obtain ⟨found', rfl, here⟩ := atFirst.some_left
      refine following.map fun inner' weaker' more more' atRest => ?_
      cases more with
      | none =>
        rw [atRest.none_left]
        exact .refl _
      | some more =>
        obtain ⟨more', rfl, there⟩ := atRest.some_left
        exact ((here.mono weaker').append there).some

end Agree

end Comparison

end TypeResolution
