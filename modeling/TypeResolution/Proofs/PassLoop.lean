import TypeResolution.SemanticPass

namespace TypeResolution

namespace SemanticPass

variable {σ : Type}

/-- A call of a unit in a loop: the number of its pass, the table and the state that the unit was given, the status that
it told, and what it left. -/
structure Call (σ : Type) where
  pass : Nat
  given : SymbolTable × σ
  status : PassStatus
  left : SymbolTable × σ

/-- What a loop returns whose last call this is. -/
def Call.outcome (last : Call σ) : PassReport × SymbolTable × σ :=
  (⟨last.pass, last.status⟩, last.left.1.withFinalPass false, last.left.2)

/-- The call of a unit in a pass, on what was left `before`. -/
def Pass.call (unit : Pass σ) (final : Bool) (pass : Nat) (before : SymbolTable × σ) : Call σ :=
  let given := (before.1.withFinalPass final, before.2)
  let answer := unit pass given.1 given.2
  ⟨pass, given, answer.1, answer.2⟩

/-- The unit with a record of its calls beside its own state. -/
def Pass.recorded (unit : Pass σ) : Pass (σ × List (Call σ)) := fun pass table state =>
  let answer := unit pass table state.1
  (answer.1, answer.2.1, answer.2.2, state.2 ++ [⟨pass, (table, state.1), answer.1, answer.2⟩])

/-- One pass: the loop ends with it if it is complete or the last one, and else goes on with what it left. -/
theorem runFrom_eq (unit : Pass σ) (left pass : Nat) (before : SymbolTable × σ) :
    runFrom unit left pass before.1 before.2 =
      let call := unit.call (left == 0) pass before
      if call.status = .complete ∨ left = 0 then call.outcome
      else runFrom unit (left - 1) (pass + 1) call.left.1 call.left.2 := by
  have atPass (left : Nat) := runFrom.eq_def unit left pass before.1 before.2
  cases left with
  | zero =>
    rw [atPass]
    dsimp only [Pass.call, Call.outcome]
    generalize unit pass (before.1.withFinalPass (0 == 0)) before.2 = answer
    obtain ⟨status, table, state⟩ := answer
    cases status <;> rfl
  | succ left =>
    rw [atPass]
    dsimp only [Pass.call, Call.outcome]
    generalize unit pass (before.1.withFinalPass (left + 1 == 0)) before.2 = answer
    obtain ⟨status, table, state⟩ := answer
    cases status <;> rfl

/-- The calls from a pass on. Each is made on what the one before left, and the first that is complete, or is number
`most`, is the last one. -/
inductive Calls (unit : Pass σ) (most : Nat) : Nat → SymbolTable × σ → List (Call σ) → Prop
  | last {pass : Nat} {before : SymbolTable × σ} {call : Call σ} : call = unit.call (pass == most) pass before →
      call.status = .complete ∨ pass = most → Calls unit most pass before [call]
  | next {pass : Nat} {before : SymbolTable × σ} {call : Call σ} {later : List (Call σ)} :
      call = unit.call (pass == most) pass before → ¬ (call.status = .complete ∨ pass = most) →
      Calls unit most (pass + 1) call.left later → Calls unit most pass before (call :: later)

/-- A loop that is at a pass makes the calls from there on, and returns the outcome of the last one. -/
theorem runFrom_calls (unit : Pass σ) (left pass : Nat) (before : SymbolTable × σ) (done : List (Call σ)) :
    ∃ calls last, Calls unit (pass + left) pass before calls ∧ calls.getLast? = some last ∧
      runFrom unit left pass before.1 before.2 = last.outcome ∧
      runFrom unit.recorded left pass before.1 (before.2, done) =
        (last.outcome.1, last.outcome.2.1, last.outcome.2.2, done ++ calls) := by
  induction left generalizing pass before done with
  | zero =>
    let call := unit.call true pass before
    refine ⟨[call], call, .last (by simp [call]) (.inr rfl), rfl, ?_, ?_⟩
    · rw [runFrom_eq]
      exact if_pos (.inr rfl)
    · rw [runFrom_eq unit.recorded 0 pass (before.1, before.2, done)]
      exact if_pos (.inr rfl)
  | succ left ih =>
    let call := unit.call false pass before
    have notMost : (pass == pass + (left + 1)) = false := by simp
    have made : call = unit.call (pass == pass + (left + 1)) pass before := by rw [notMost]
    have atPass := runFrom_eq unit (left + 1) pass before
    have recorded := runFrom_eq unit.recorded (left + 1) pass (before.1, before.2, done)
    by_cases finished : call.status = .complete
    · refine ⟨[call], call, .last made (.inl finished), rfl, ?_, ?_⟩
      · rw [atPass]
        exact if_pos (.inl finished)
      · rw [recorded]
        exact if_pos (.inl finished)
    · obtain ⟨later, last, calls, isLast, ran, ranRecorded⟩ := ih (pass + 1) call.left (done ++ [call])
      have goesOn : ¬ (call.status = .complete ∨ left + 1 = 0) := by simpa using finished
      rw [show pass + 1 + left = pass + (left + 1) by omega] at calls
      refine ⟨call :: later, last, .next made (by simpa using finished) calls, ?_, ?_, ?_⟩
      · simp [List.getLast?_cons, isLast]
      · rw [atPass, ← ran]
        exact if_neg goesOn
      · rw [recorded, List.append_cons, ← ranRecorded]
        exact if_neg goesOn

namespace Calls

variable {unit : Pass σ} {most pass : Nat} {before : SymbolTable × σ} {calls : List (Call σ)}

/-- Each call is made in its turn and on what was left before. -/
theorem made (here : Calls unit most pass before calls) {i : Nat} {call : Call σ} (atCall : calls[i]? = some call) :
    ∃ left, (before :: calls.map Call.left)[i]? = some left ∧
      call = unit.call (pass + i == most) (pass + i) left := by
  induction here generalizing i with
  | last atPass _ =>
    obtain ⟨within, rfl⟩ := List.getElem?_eq_some_iff.1 atCall
    obtain rfl : i = 0 := by simpa using within
    exact ⟨_, rfl, atPass⟩
  | next atPass _ _ ih =>
    cases i with
    | zero =>
      cases Option.some.inj atCall
      exact ⟨_, rfl, atPass⟩
    | succ i =>
      obtain ⟨left, wasLeft, made⟩ := ih atCall
      rw [Nat.add_right_comm, Nat.add_assoc] at made
      exact ⟨left, wasLeft, made⟩

/-- The last call is the one that is complete, or has the last number that there may be. -/
theorem ends_iff (here : Calls unit most pass before calls) {i : Nat} {call : Call σ} (atCall : calls[i]? = some call) :
    i + 1 = calls.length ↔ call.status = .complete ∨ pass + i = most := by
  induction here generalizing i with
  | last _ ends =>
    obtain ⟨within, rfl⟩ := List.getElem?_eq_some_iff.1 atCall
    obtain rfl : i = 0 := by simpa using within
    exact iff_of_true rfl ends
  | next _ goesOn rest ih =>
    cases i with
    | zero =>
      cases Option.some.inj atCall
      refine iff_of_false (fun alone => ?_) goesOn
      cases rest <;> simp at alone
    | succ i =>
      rw [List.length_cons, Nat.add_left_inj, ih atCall, Nat.add_right_comm, Nat.add_assoc]

end Calls

/-- What the calls of a loop have to be that starts with this table and state, and may make `most` passes. -/
structure Course (unit : Pass σ) (most : Nat) (start : SymbolTable × σ) (calls : List (Call σ)) : Prop where
  numbered (i : Nat) (call : Call σ) : calls[i]? = some call → call.pass = i + 1
  /-- Each call is given what the one before left, but for the mark of the final pass. -/
  given (i : Nat) (call : Call σ) : calls[i]? = some call →
    ∃ before, (start :: calls.map Call.left)[i]? = some before ∧
      call.given = (before.1.withFinalPass call.given.1.finalPass, before.2)
  marked : ∀ call ∈ calls, call.given.1.finalPass = true ↔ call.pass = most
  answered : ∀ call ∈ calls, unit call.pass call.given.1 call.given.2 = (call.status, call.left)
  ends (i : Nat) (call : Call σ) : calls[i]? = some call →
    (i + 1 = calls.length ↔ call.status = .complete ∨ i + 1 = most)

theorem Calls.course {unit : Pass σ} {most : Nat} {start : SymbolTable × σ} {calls : List (Call σ)}
    (fromFirst : Calls unit most 1 start calls) : Course unit most start calls := by
  have made {i : Nat} {call : Call σ} (atCall : calls[i]? = some call) :
      ∃ before, (start :: calls.map Call.left)[i]? = some before ∧ call = unit.call (i + 1 == most) (i + 1) before := by
    obtain ⟨before, left, rfl⟩ := fromFirst.made atCall
    exact ⟨before, left, by rw [Nat.add_comm]⟩
  constructor
  · intro i call atCall
    obtain ⟨before, _, rfl⟩ := made atCall
    rfl
  · intro i call atCall
    obtain ⟨before, left, rfl⟩ := made atCall
    exact ⟨before, left, rfl⟩
  · intro call member
    obtain ⟨i, atCall⟩ := List.mem_iff_getElem?.1 member
    obtain ⟨before, _, rfl⟩ := made atCall
    exact beq_iff_eq
  · intro call member
    obtain ⟨i, atCall⟩ := List.mem_iff_getElem?.1 member
    obtain ⟨before, _, rfl⟩ := made atCall
    rfl
  · intro i call atCall
    rw [fromFirst.ends_iff atCall, Nat.add_comm]

/-- A loop calls its unit pass by pass, each time on what the pass before left, with the table marked as final exactly on
the last pass that there may be. The first complete pass is the last one, or else the one with that number. It is
reported with its status, and the table that it left is returned without the mark. -/
theorem passes_untilComplete (requested : Nat) (unit : Pass σ) (table : SymbolTable) (state : σ) :
    ∃ (calls : List (Call σ)) (last : Call σ), Course unit (max requested 1) (table, state) calls ∧
      calls.getLast? = some last ∧
      (ofMax requested).run unit.recorded table (state, []) =
        (⟨calls.length, last.status⟩, last.left.1.withFinalPass false, last.left.2, calls) ∧
      (ofMax requested).run unit table state =
        (⟨calls.length, last.status⟩, last.left.1.withFinalPass false, last.left.2) ∧
      ((ofMax requested).run unit table state).2.1.finalPass = false := by
  obtain ⟨calls, last, fromFirst, isLast, ran, recorded⟩ := runFrom_calls unit (max requested 1 - 1) 1 (table, state) []
  rw [show 1 + (max requested 1 - 1) = max requested 1 by omega] at fromFirst
  have course := fromFirst.course
  have counted : last.pass = calls.length := by
    rw [List.getLast?_eq_getElem?] at isLast
    have within := (List.getElem?_eq_some_iff.1 isLast).1
    rw [course.numbered _ _ isLast]
    omega
  rw [Call.outcome, counted] at ran recorded
  exact ⟨calls, last, course, isLast, recorded, ran, congrArg (·.2.1.finalPass) ran⟩

end SemanticPass

end TypeResolution
