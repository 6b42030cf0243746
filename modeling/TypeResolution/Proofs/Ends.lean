import Mathlib.Data.ENat.Basic
import TypeResolution.Proofs.ResultRun

namespace TypeResolution

namespace Resolve

variable {α β : Type} {p : Progress} {limit : ℕ∞}

/-- Started from `p`, the runs of `m` come to one and the same end as soon as their bound is high enough. -/
def Ends (m : Nat → Resolve α) (p : Progress) : Prop :=
  ∃ bound a q, ∀ n, bound ≤ n → m n p = some (a, q)

/-- They do so at a bound that is not beyond `limit`. -/
def EndsWithin (limit : ℕ∞) (m : Nat → Resolve α) (p : Progress) : Prop :=
  ∃ bound : Nat, bound ≤ limit ∧ ∃ a q, ∀ n, bound ≤ n → m n p = some (a, q)

namespace EndsWithin

theorem ends {m : Nat → Resolve α} (within : EndsWithin limit m p) : Ends m p := by
  obtain ⟨bound, _, a, q, ran⟩ := within
  exact ⟨bound, a, q, ran⟩

theorem mono {m : Nat → Resolve α} {limit' : ℕ∞} (within : EndsWithin limit m p) (less : limit ≤ limit') :
    EndsWithin limit' m p := by
  obtain ⟨bound, small, ends⟩ := within
  exact ⟨bound, small.trans less, ends⟩

theorem always {m : Resolve α} {a : α} {q : Progress} (ran : m p = some (a, q)) : EndsWithin limit (fun _ => m) p :=
  ⟨0, by simp, a, q, fun _ _ => ran⟩

theorem pure (a : α) : EndsWithin limit (fun _ => Pure.pure a) p := always rfl

theorem reportAll (reports : List Diagnostic) : EndsWithin limit (fun _ => Resolve.reportAll reports) p := always rfl

theorem report (pos : Position) (problem : Problem) : EndsWithin limit (fun _ => Resolve.report pos problem) p := always rfl

theorem failAt (pos : Position) (problem : Problem) : EndsWithin limit (fun _ => Resolve.failAt pos problem) p := always rfl

theorem raise (status : PassStatus) : EndsWithin limit (fun _ => Resolve.raise status) p := always rfl

theorem scope : EndsWithin limit (fun _ => Resolve.scope) p := always rfl

theorem bind {m : Nat → Resolve α} {f : Nat → α → Resolve β} (first : EndsWithin limit m p)
    (next : ∀ n a q, m n p = some (a, q) → EndsWithin limit (fun n => f n a) q) : EndsWithin limit (fun n => m n >>= f n) p := by
  obtain ⟨bound, small, a, middle, ran⟩ := first
  obtain ⟨bound', small', b, q, ranNext⟩ := next bound a middle (ran bound (Nat.le_refl bound))
  have both : ((max bound bound' : Nat) : ℕ∞) ≤ limit := by
    rcases max_choice bound bound' with same | same <;> rwa [same]
  refine ⟨max bound bound', both, b, q, fun n above => ?_⟩
  change ((m n p).bind fun (a, middle) => f n a middle) = some (b, q)
  rw [ran n (by omega), Option.bind_some]
  exact ranNext n (by omega)

/-- What ends whatever came before ends after `m`. -/
theorem andThen {m : Nat → Resolve α} {f : Nat → α → Resolve β} (first : EndsWithin limit m p)
    (next : ∀ a q, EndsWithin limit (fun n => f n a) q) : EndsWithin limit (fun n => m n >>= f n) p :=
  first.bind fun _ a q _ => next a q

/-- It is the runs with a bound above 0 that have to come to an end. -/
theorem of_succ {m : Nat → Resolve α} (ends : EndsWithin limit (fun n => m (n + 1)) p) : EndsWithin (limit + 1) m p := by
  obtain ⟨bound, small, a, q, ran⟩ := ends
  refine ⟨bound + 1, by push_cast; gcongr, a, q, fun n above => ?_⟩
  obtain ⟨n, rfl⟩ : ∃ k, n = k + 1 := ⟨n - 1, by omega⟩
  exact ran n (by omega)

/-- `P` tells of the record of a run, and still holds after each run. -/
theorem mapM {f : Nat → α → Resolve β} {P : Progress → Prop} (xs : List α)
    (keeps : ∀ x ∈ xs, ∀ n q b q', P q → f n x q = some (b, q') → P q')
    (each : ∀ x ∈ xs, ∀ q, P q → EndsWithin limit (fun n => f n x) q) (started : P p) : EndsWithin limit (fun n => xs.mapM (f n)) p := by
  induction xs generalizing p with
  | nil => exact pure []
  | cons x xs ih =>
    simp only [List.mapM_cons]
    refine (each x List.mem_cons_self p started).bind fun n b q ran => ?_
    have kept : P q := keeps x List.mem_cons_self n p b q started ran
    exact (ih (fun x member => keeps x (List.mem_cons_of_mem _ member))
      (fun x member => each x (List.mem_cons_of_mem _ member)) kept).andThen fun _ _ => pure _

theorem inFrame {m : Nat → Resolve α} (ends : EndsWithin limit m { p with scope := p.scope.functionFrame }) :
    EndsWithin limit (fun n => Resolve.inFrame (m n)) p := by
  obtain ⟨bound, small, a, q, ran⟩ := ends
  refine ⟨bound, small, a, { q with scope := p.scope }, fun n above => ?_⟩
  change ((m n { p with scope := p.scope.functionFrame }).bind fun (a, q) => some (a, { q with scope := p.scope })) = _
  rw [ran n above, Option.bind_some]

theorem collectWhile {f : Nat → α → Resolve (Option (List β))} (xs : List α)
    (each : ∀ x ∈ xs, ∀ q, EndsWithin limit (fun n => f n x) q) : EndsWithin limit (fun n => TypeResolution.collectWhile (f n) xs) p := by
  induction xs generalizing p with
  | nil => exact pure _
  | cons x xs ih =>
    refine (each x List.mem_cons_self p).andThen fun found q => ?_
    cases found with
    | none => exact pure _
    | some found =>
      refine (ih fun x member => each x (List.mem_cons_of_mem _ member)).andThen fun more q' => ?_
      cases more with
      | none => exact pure _
      | some more => exact pure _

end EndsWithin

end Resolve

end TypeResolution
