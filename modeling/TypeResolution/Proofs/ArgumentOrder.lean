import Mathlib.Computability.RegularExpressions
import TypeResolution.ParameterList

namespace TypeResolution

section Words

open Computability

variable {α : Type} {a b : α} {w : List α}

theorem cons_mem_letter : a :: w ∈ ({[b]} : Language α) ↔ a = b ∧ w = [] := by
  rw [show (a :: w ∈ ({[b]} : Language α) ↔ a :: w = [b]) from Iff.rfl, List.cons.injEq]

theorem cons_mem_letter_mul {L : Language α} : a :: w ∈ ({[b]} : Language α) * L ↔ a = b ∧ w ∈ L := by
  rw [Language.mem_mul]
  constructor
  · rintro ⟨_, rfl, rest, member, same⟩
    cases same
    exact ⟨rfl, member⟩
  · rintro ⟨rfl, member⟩
    exact ⟨[a], rfl, w, member, rfl⟩

/-- What any number of repetitions, and then a word, start with: the first one, or the word. -/
theorem cons_mem_kstar_mul {K L : Language α} : a :: w ∈ K∗ * L ↔ a :: w ∈ K * (K∗ * L) ∨ a :: w ∈ L := by
  conv_lhs => rw [← Language.one_add_self_mul_kstar_eq_kstar K, add_mul, one_mul, mul_assoc, Language.mem_add]
  exact or_comm

end Words

namespace ArgKind

open RegularExpression

/-- The kinds that may come from the named arguments on. -/
def fromNamed : RegularExpression ArgKind := (char named + char namedOptional).star * (1 + char doubleStar)

/-- The kinds that may come from those with defaults on. -/
def fromOptional : RegularExpression ArgKind := (char optional).star * ((1 + char star) * fromNamed)

/-- The lists of kinds that a callable may have: positional arguments, then those with defaults, one `*args`, named ones
with and without defaults, and `**kwargs` at the end. -/
def wellOrdered : RegularExpression ArgKind := (char positional).star * fromOptional

/-- Why an argument of this kind may not stand where it does. -/
def misplaced : ArgKind → Problem
  | positional => .requiredAfterOthers
  | optional => .defaultAfterNamed
  | star => .variadicAfterNamed
  | named | namedOptional => .keywordsNotLast
  | doubleStar => .repeatedKeywords

theorem misplaced_severity (kind : ArgKind) : kind.misplaced.severity = .error := by
  cases kind <;> rfl

variable {kind : ArgKind} {rest : List ArgKind}

theorem cons_mem_fromNamed : kind :: rest ∈ fromNamed.matches' ↔
    (kind = named ∨ kind = namedOptional) ∧ rest ∈ fromNamed.matches' ∨ kind = doubleStar ∧ rest = [] := by
  simp only [fromNamed, matches'_mul, matches'_star, matches'_add, matches'_char, matches'_epsilon]
  rw [cons_mem_kstar_mul, add_mul, Language.mem_add, Language.mem_add, cons_mem_letter_mul, cons_mem_letter_mul,
    cons_mem_letter, Language.mem_one, ← or_and_right]
  simp only [reduceCtorEq, false_or]

theorem cons_mem_fromOptional : kind :: rest ∈ fromOptional.matches' ↔
    kind = optional ∧ rest ∈ fromOptional.matches' ∨ kind :: rest ∈ fromNamed.matches' ∨
      kind = star ∧ rest ∈ fromNamed.matches' := by
  simp only [fromOptional, matches'_mul, matches'_star, matches'_add, matches'_char, matches'_epsilon]
  rw [cons_mem_kstar_mul, cons_mem_letter_mul, add_mul, one_mul, Language.mem_add, cons_mem_letter_mul]

theorem cons_mem_wellOrdered : kind :: rest ∈ wellOrdered.matches' ↔
    kind = positional ∧ rest ∈ wellOrdered.matches' ∨ kind :: rest ∈ fromOptional.matches' := by
  simp only [wellOrdered, matches'_mul, matches'_star, matches'_char]
  rw [cons_mem_kstar_mul, cons_mem_letter_mul]

end ArgKind

namespace KindsSeen

open ArgKind

/-- The kinds that may come after those seen. -/
def mayFollow (seen : KindsSeen) : RegularExpression ArgKind :=
  if seen.doubleStar then 1
  else if seen.star || seen.named then fromNamed
  else if seen.optional then fromOptional
  else wellOrdered

theorem nil_mem_mayFollow (seen : KindsSeen) : [] ∈ seen.mayFollow.matches' := by
  obtain ⟨optional, star, named, doubleStar⟩ := seen
  cases optional <;> cases star <;> cases named <;> cases doubleStar <;> decide

/-- What may follow goes on with a kind for which there is no problem, and what may follow that. -/
theorem cons_mem_mayFollow (seen : KindsSeen) (kind : ArgKind) (rest : List ArgKind) :
    kind :: rest ∈ seen.mayFollow.matches' ↔
      seen.problem? kind = none ∧ rest ∈ (seen.after kind).mayFollow.matches' := by
  obtain ⟨optional, star, named, doubleStar⟩ := seen
  cases kind <;> cases optional <;> cases star <;> cases named <;> cases doubleStar <;>
    simp [mayFollow, problem?, after, cons_mem_fromNamed, cons_mem_fromOptional, cons_mem_wellOrdered, Language.mem_one]

/-- There is no problem exactly with those lists that may follow. -/
theorem firstProblem?_eq_none_iff {seen : KindsSeen} {kinds : List ArgKind} :
    seen.firstProblem? kinds = none ↔ kinds ∈ seen.mayFollow.matches' := by
  induction kinds generalizing seen with
  | nil => exact iff_of_true rfl seen.nil_mem_mayFollow
  | cons kind rest ih =>
    rw [cons_mem_mayFollow, firstProblem?]
    cases stopped : seen.problem? kind with
    | some problem => simp
    | none => simpa using ih

theorem problem?_eq_some {seen : KindsSeen} {kind : ArgKind} {problem : Problem}
    (stopped : seen.problem? kind = some problem) : problem = kind.misplaced := by
  cases kind <;> simp only [problem?] at stopped <;> split at stopped <;> cases stopped <;> rfl

/-- The first problem is that of a kind that may not stand where it does, and those before it may. -/
theorem firstProblem?_eq_some {seen : KindsSeen} {kinds : List ArgKind} {problem : Problem}
    (stopped : seen.firstProblem? kinds = some problem) :
    ∃ before kind after, kinds = before ++ kind :: after ∧ seen.firstProblem? before = none ∧
      (∀ rest, seen.firstProblem? (before ++ kind :: rest) ≠ none) ∧ problem = kind.misplaced := by
  induction kinds generalizing seen with
  | nil => cases stopped
  | cons kind rest ih =>
    rw [firstProblem?] at stopped
    cases here : seen.problem? kind with
    | some found =>
      rw [here] at stopped
      cases stopped
      refine ⟨[], kind, rest, rfl, rfl, fun other => ?_, problem?_eq_some here⟩
      simp [firstProblem?, here]
    | none =>
      rw [here] at stopped
      obtain ⟨before, kind', after, rfl, fine, stops, rfl⟩ := ih stopped
      refine ⟨kind :: before, kind', after, rfl, ?_, fun other => ?_, rfl⟩
      · rw [firstProblem?, here]
        exact fine
      · rw [List.cons_append, firstProblem?, here]
        exact stops other

end KindsSeen

/-- The check of the kinds. -/
theorem checkKinds_eq_none_iff {kinds : List ArgKind} :
    checkKinds kinds = none ↔ kinds ∈ ArgKind.wellOrdered.matches' :=
  KindsSeen.firstProblem?_eq_none_iff

/-- The kinds of arguments are accepted exactly if they are well ordered. Otherwise the problem is that of the first kind
that goes with those before it in no well ordered list. -/
theorem kindsAccepted_iff (kinds : List ArgKind) :
    (checkKinds kinds = none ↔ kinds ∈ ArgKind.wellOrdered.matches') ∧
    (kinds ∉ ArgKind.wellOrdered.matches' → ∃ before kind after, kinds = before ++ kind :: after ∧
      (∃ rest, before ++ rest ∈ ArgKind.wellOrdered.matches') ∧
      (∀ rest, before ++ kind :: rest ∉ ArgKind.wellOrdered.matches') ∧
      checkKinds kinds = some kind.misplaced ∧ kind.misplaced.severity = .error) := by
  refine ⟨checkKinds_eq_none_iff, fun outOfOrder => ?_⟩
  cases checked : checkKinds kinds with
  | none => exact absurd (checkKinds_eq_none_iff.1 checked) outOfOrder
  | some problem =>
    obtain ⟨before, kind, after, split, fine, stops, rfl⟩ := KindsSeen.firstProblem?_eq_some checked
    refine ⟨before, kind, after, split, ⟨[], ?_⟩, fun rest member => ?_, rfl, kind.misplaced_severity⟩
    · rw [List.append_nil]
      exact checkKinds_eq_none_iff.1 fine
    · exact stops rest (checkKinds_eq_none_iff.2 member)

end TypeResolution
