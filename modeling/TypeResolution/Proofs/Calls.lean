import Mathlib.Data.List.Induction
import TypeResolution.Proofs.SteadyForms

namespace TypeResolution

open Resolve

/-- What a resolver is asked for. -/
inductive Call where
  | expr (t : Ty)
  | signature (s : Signature)

namespace Resolver

variable {r : Resolver}

/-- Answers one call. -/
def answer (r : Resolver) : Call → Resolve Resolution
  | .expr t => r.resolve t
  | .signature s => r.resolveSignature s

/-- Answers one call after the other with the same resolver. -/
def answers (r : Resolver) (calls : List Call) : Resolve (List Resolution) := calls.mapM r.answer

theorem answer_eq (r : Resolver) (call : Call) :
    ∃ m : Resolve Ty, Steady m ∧ r.answer call = m >>= settle := by
  cases call with
  | expr t => exact ⟨_, inferInstance, rfl⟩
  | signature s => exact ⟨_, steady_signature s .top .top, rfl⟩

/-- Between calls no status is left, and a call takes nothing over but the scope. -/
theorem answer_alone (call : Call) {p : Progress} (settled : p.status = .complete) :
    r.answer call p = (r.answer call (.start p.scope)).map fun (result, q) => (result, p.join q) := by
  obtain ⟨m, steady, same⟩ := r.answer_eq call
  have merged (status : PassStatus) : p.status.merge status = status := by
    rw [settled]
    cases status <;> rfl
  rw [same]
  change (m p).bind _ = ((m (.start p.scope)).bind _).map _
  rw [steady.alone]
  cases m (.start p.scope) with
  | none => rfl
  | some ran =>
    simp only [Option.map_some, Option.bind_some]
    change some _ = some _
    simp only [Progress.join, merged]

/-- A call leaves the scope as it was, and no status behind. -/
theorem answer_keeps {call : Call} {s : Scope} {result : Resolution} {q : Progress}
    (ran : r.answer call (.start s) = some (result, q)) : q.scope = s ∧ q.status = .complete := by
  obtain ⟨m, steady, same⟩ := r.answer_eq call
  rw [same] at ran
  obtain ⟨⟨t, made⟩, ranAlone, ended⟩ := Option.bind_eq_some_iff.1 ran
  obtain ⟨_, _, rfl⟩ := settle_ensures t made result q ended
  have kept : made.scope = s := steady.keeps ranAlone
  exact ⟨kept, rfl⟩

theorem answers_from (calls : List Call) {p : Progress} (settled : p.status = .complete) :
    r.answers calls p = (calls.mapM fun call => r.answer call (.start p.scope)).map fun alone =>
      (alone.map Prod.fst, (alone.map Prod.snd).foldl Progress.join p) := by
  induction calls generalizing p with
  | nil => rfl
  | cons call calls ih =>
    rw [answers, List.mapM_cons, List.mapM_cons]
    change (r.answer call p).bind _ = ((r.answer call (.start p.scope)).bind _).map _
    rw [answer_alone call settled]
    cases ran : r.answer call (.start p.scope) with
    | none => rfl
    | some made =>
      obtain ⟨result, q⟩ := made
      obtain ⟨inScope, done⟩ := answer_keeps ran
      have settled' : (p.join q).status = .complete := by
        simp only [Progress.join, settled, done]
        rfl
      have rest := ih settled'
      simp only [Option.map_some, Option.bind_some]
      change (r.answers calls (p.join q)).bind _ = _
      rw [rest]
      simp only [show (p.join q).scope = p.scope from inScope]
      cases calls.mapM fun call => r.answer call (.start p.scope) <;> rfl

/-- What calls that were answered alone have made, put together. -/
def joined (s : Scope) (alone : List (Resolution × Progress)) : Progress :=
  ⟨s, .complete, firstOccurrences (alone.flatMap fun ran => ran.2.aliasesUsed), alone.flatMap fun ran => ran.2.reports⟩

theorem joined_append (s : Scope) (alone : List (Resolution × Progress)) (result : Resolution) (q : Progress) :
    joined s (alone ++ [(result, q)]) =
      ⟨s, .complete, q.aliasesUsed.foldl addDistinct (joined s alone).aliasesUsed, (joined s alone).reports ++ q.reports⟩ := by
  simp [joined, firstOccurrences, List.foldl_append]

theorem foldl_join {s : Scope} {alone : List (Resolution × Progress)}
    (each : ∀ ran ∈ alone, ran.2.scope = s ∧ ran.2.status = .complete) :
    (alone.map Prod.snd).foldl Progress.join (.start s) = joined s alone := by
  induction alone using List.reverseRecOn with
  | nil => rfl
  | append_singleton alone last ih =>
    obtain ⟨inScope, done⟩ := each last (by simp)
    rw [List.map_append, List.foldl_append, ih fun ran member => each ran (List.mem_append_left _ member),
      joined_append s alone last.1 last.2]
    simp only [List.map_cons, List.map_nil, List.foldl_cons, List.foldl_nil, Progress.join, inScope, done]
    rfl

theorem mem_of_mapM {f : Call → Option (Resolution × Progress)} {calls : List Call} {alone : List (Resolution × Progress)}
    (ran : calls.mapM f = some alone) : ∀ made ∈ alone, ∃ call, f call = some made := by
  induction calls generalizing alone with
  | nil =>
    cases ran
    simp
  | cons call calls ih =>
    rw [List.mapM_cons] at ran
    obtain ⟨first, atFirst, ran⟩ := Option.bind_eq_some_iff.1 ran
    obtain ⟨rest, inRest, ran⟩ := Option.bind_eq_some_iff.1 ran
    cases ran
    rintro made (_ | ⟨_, member⟩)
    · exact ⟨call, atFirst⟩
    · exact ih inRest made member

theorem answers_joined (r : Resolver) (s : Scope) (calls : List Call) :
    r.answers calls (.start s) = (calls.mapM fun call => r.answer call (.start s)).map fun alone =>
      (alone.map Prod.fst, joined s alone) := by
  have run : r.answers calls (.start s) = (calls.mapM fun call => r.answer call (.start s)).map fun alone =>
      (alone.map Prod.fst, (alone.map Prod.snd).foldl Progress.join (.start s)) := answers_from calls rfl
  rw [run]
  refine Option.map_congr fun alone ran => ?_
  rw [foldl_join fun made member => ?_]
  obtain ⟨call, atCall⟩ := mem_of_mapM ran made member
  exact answer_keeps atCall

/-- A resolver has no memory: a call is answered after others as it is answered alone in the same scope, adding the same
reports; the scope stays what it was, and the aliases used are those of the calls alone, in the order of their first uses. -/
theorem calls_alone (r : Resolver) (s : Scope) (calls : List Call) :
    (r.answers calls (.start s) = (calls.mapM fun call => r.answer call (.start s)).map fun alone =>
      (alone.map Prod.fst, ⟨s, .complete, firstOccurrences (alone.flatMap fun ran => ran.2.aliasesUsed),
        alone.flatMap fun ran => ran.2.reports⟩)) ∧
    ∀ next : Call, r.answers (calls ++ [next]) (.start s) = (r.answers calls (.start s)).bind fun (results, p) =>
      (r.answer next (.start s)).map fun (result, q) =>
        (results ++ [result], ⟨s, .complete, q.aliasesUsed.foldl addDistinct p.aliasesUsed, p.reports ++ q.reports⟩) := by
  refine ⟨answers_joined r s calls, fun next => ?_⟩
  rw [answers_joined, answers_joined, List.mapM_append]
  cases calls.mapM fun call => r.answer call (.start s) with
  | none => rfl
  | some alone =>
    cases ran : r.answer next (.start s) with
    | none => simp [ran]
    | some made =>
      obtain ⟨result, q⟩ := made
      simp [ran, joined_append]

end Resolver

end TypeResolution
