import TypeResolution.Proofs.Calls
import TypeResolution.Proofs.PolicyRun
import TypeResolution.Proofs.Prelude

namespace TypeResolution

open Resolve

/-- The answers of two runs agree: in all but the reports if the first run is quiet, and the reports are as they are to be. -/
structure Comparison.SameAnswer (c : Comparison) (made made' : Resolution × Progress) : Prop where
  type : Alike (c.quiet made.2.reports) Ty.unexplained made.1.type made'.1.type
  status : made.1.status = made'.1.status
  aliasesUsed : made.2.aliasesUsed = made'.2.aliasesUsed
  told : c.told made.2.reports made'.2.reports

namespace Comparison

/-- The reports of the second run are those of the first that are about no scalar. -/
def droppingScalars : Comparison where
  told before after := after = before.filter fun report => !report.problem.aboutScalar
  quiet _ := True
  same plain := (List.filter_eq_self.2 fun report member => by rw [plain report member]; rfl).symm
  quiet_left := id
  quiet_right := id
  append first next := by rw [List.filter_append, first, next trivial]

/-- The second run reports nothing if the first does not. -/
def noNews : Comparison where
  told before after := before = [] → after = []
  quiet before := before = []
  same _ := id
  quiet_left none := (List.append_eq_nil_iff.1 none).1
  quiet_right none := (List.append_eq_nil_iff.1 none).2
  append first next none :=
    have ⟨before, after⟩ := List.append_eq_nil_iff.1 none
    List.append_eq_nil_iff.2 ⟨first before, next before after⟩

end Comparison

namespace Resolver

variable {r : Resolver} {policy : Policy} {c : Comparison}

theorem settle_agree {m m' : Resolve Ty} {s : Scope} (agree : c.Agree True Ty.unexplained s s m m') :
    Option.Rel c.SameAnswer ((m >>= settle) (.start s)) ((m' >>= settle) (.start s)) := by
  refine rel_bind agree fun made made' alongside => .some ?_
  exact ⟨alongside.result.mono fun quiet => ⟨trivial, quiet⟩, alongside.status, alongside.aliasesUsed,
    alongside.told trivial⟩

/-- A call is answered alike under two policies. -/
theorem answer_agree (pact : r.Pact policy c) (call : Call) (s : Scope) :
    Option.Rel c.SameAnswer (r.answer call (.start s)) ((r.withPolicy policy).answer call (.start s)) := by
  cases call with
  | expr t =>
    have follows := recursion_follows pact (r.allowance t)
    exact settle_agree (follows.expr .top (.refl s) (.refl t))
  | signature signature =>
    have follows := recursion_follows pact (r.allowance (.callable signature))
    exact settle_agree (signature_agree follows (.refl s) (.refl _) .top .top)

/-- The same resolver, told whether to report scalars that stand where a type was expected. -/
def reportingScalars (r : Resolver) (reports : Bool) : Resolver :=
  { r with flags := { r.flags with reportInvalidTypes := reports } }

/-- The same resolver, told whether omitted type arguments are an error. -/
def disallowingGenerics (r : Resolver) (disallows : Bool) : Resolver :=
  { r with options := { r.options with disallowAnyGenerics := disallows } }

/-- The same resolver, told whether it works on a stub. -/
def forStub (r : Resolver) (stub : Bool) : Resolver := { r with flags := { r.flags with inStub := stub } }

theorem scalarProblem_aboutScalar (value : Option LiteralValue) (className : String) :
    (scalarProblem value className).aboutScalar = true := by
  unfold scalarProblem
  repeat' split
  all_goals rfl

theorem scalarReports_aboutScalar (value : Option LiteralValue) (className : String) (note : Option String)
    (pos : Position) : ∀ report ∈ r.scalarReports value className note pos, report.problem.aboutScalar = true := by
  unfold scalarReports
  split
  · intro report member
    rcases List.mem_cons.1 member with rfl | member
    · exact scalarProblem_aboutScalar value className
    · obtain ⟨text, _, rfl⟩ := List.mem_map.1 member
      rfl
  · exact List.forall_mem_nil _

/-- Without reports of scalars nothing else changes. -/
theorem pact_droppingScalars (noHooks : r.hooks = .empty) :
    (r.reportingScalars true).Pact ⟨r.options.disallowAnyGenerics, false, r.flags.inStub⟩ .droppingScalars where
  noHooks := noHooks
  omitted pos fullname description := .side (omittedAny_onTheSide r.disallowsOmitted pos fullname description) (.refl _)
  scalar value className note pos := by
    refine (List.filter_eq_nil_iff.2 fun report member => ?_).symm
    rw [scalarReports_aboutScalar value className note pos report member]
    decide

/-- Where arguments may be omitted, this is not reported, and a reason for an `Any` may be another. -/
theorem pact_noNews (noHooks : r.hooks = .empty) {policy : Policy}
    (sameScalars : policy.reportInvalidTypes = r.flags.reportInvalidTypes)
    (milder : (r.withPolicy policy).disallowsOmitted → r.disallowsOmitted) : r.Pact policy .noNews where
  noHooks := noHooks
  omitted pos fullname description := by
    cases strict : r.disallowsOmitted with
    | true => exact ⟨nofun, by cases (r.withPolicy policy).disallowsOmitted <;> rfl, fun quiet => nomatch quiet.2⟩
    | false =>
      have allowed : (r.withPolicy policy).disallowsOmitted = false := by simpa [strict] using milder
      rw [allowed]
      exact .same (by simp) (.refl _)
  scalar value className note pos := by
    unfold scalarReports
    change _ → (if policy.reportInvalidTypes then _ else _) = []
    rw [sameScalars]
    exact id

/-- What a milder policy may change about an answer: reports, and reasons for an `Any`; but neither where the stricter
run reports nothing. -/
structure StricterAnswer (strict mild : Resolution × Progress) : Prop where
  type : (strict.1.type == mild.1.type) = true
  status : strict.1.status = mild.1.status
  aliasesUsed : strict.2.aliasesUsed = mild.2.aliasesUsed
  quiet : strict.2.reports = [] → strict.1.type = mild.1.type ∧ mild.2.reports = []

/-- The run under the milder policy ends where the other does, with the same types. -/
theorem answer_stricter (noHooks : r.hooks = .empty) {policy : Policy}
    (sameScalars : policy.reportInvalidTypes = r.flags.reportInvalidTypes)
    (milder : (r.withPolicy policy).disallowsOmitted → r.disallowsOmitted) (call : Call) (s : Scope) :
    Option.Rel StricterAnswer (r.answer call (.start s)) ((r.withPolicy policy).answer call (.start s)) :=
  rel_mono (answer_agree (pact_noNews noHooks sameScalars milder) call s) fun _ _ _ _ same =>
    { type := Ty.equal_of_unexplained same.type.shown
      status := same.status
      aliasesUsed := same.aliasesUsed
      quiet := fun none => ⟨same.type.same none, same.told none⟩ }

/-- Without reports of scalars an answer is the same without these reports. -/
theorem answer_reportingScalars (noHooks : r.hooks = .empty) (call : Call) (s : Scope) :
    (r.reportingScalars false).answer call (.start s) =
      ((r.reportingScalars true).answer call (.start s)).map fun (result, q) =>
        (result, { q with reports := q.reports.filter fun report => !report.problem.aboutScalar }) := by
  have agree : Option.Rel Comparison.droppingScalars.SameAnswer ((r.reportingScalars true).answer call (.start s))
      ((r.reportingScalars false).answer call (.start s)) := answer_agree (pact_droppingScalars noHooks) call s
  refine eq_map_of_rel (rel_mono agree fun made made' ran ran' same => ?_)
  obtain ⟨⟨type, status⟩, ⟨scope, raised, aliasesUsed, reports⟩⟩ := made
  obtain ⟨⟨type', status'⟩, ⟨scope', raised', aliasesUsed', reports'⟩⟩ := made'
  obtain ⟨inScope, settled⟩ := answer_keeps ran
  obtain ⟨inScope', settled'⟩ := answer_keeps ran'
  have sameType : type = type' := same.type.same trivial
  simp only [Prod.mk.injEq, Resolution.mk.injEq, Progress.mk.injEq]
  exact ⟨⟨sameType.symm, same.status.symm⟩, inScope'.trans inScope.symm, settled'.trans settled.symm,
    same.aliasesUsed.symm, same.told⟩

/-- Policies change reports and not types. A run that does not report scalars gives the same as one that does, without
these reports; and under a policy that allows omitted arguments, or on a stub, types are equal, and the same where the
stricter run reports nothing. -/
theorem policies_change_reports (noHooks : r.hooks = .empty) (call : Call) (s : Scope) :
    (r.reportingScalars false).answer call (.start s) =
      ((r.reportingScalars true).answer call (.start s)).map (fun (result, q) =>
        (result, { q with reports := q.reports.filter fun report => !report.problem.aboutScalar })) ∧
    Option.Rel StricterAnswer ((r.disallowingGenerics true).answer call (.start s))
      ((r.disallowingGenerics false).answer call (.start s)) ∧
    Option.Rel StricterAnswer ((r.forStub false).answer call (.start s)) ((r.forStub true).answer call (.start s)) := by
  refine ⟨answer_reportingScalars noHooks call s, ?_, ?_⟩
  · let mild : Policy := ⟨false, r.flags.reportInvalidTypes, r.flags.inStub⟩
    have milder : ((r.disallowingGenerics true).withPolicy mild).disallowsOmitted →
        (r.disallowingGenerics true).disallowsOmitted := by
      simp [disallowsOmitted, withPolicy, mild]
    have strictNoHooks : (r.disallowingGenerics true).hooks = .empty := noHooks
    exact answer_stricter strictNoHooks rfl milder call s
  · let mild : Policy := ⟨r.options.disallowAnyGenerics, r.flags.reportInvalidTypes, true⟩
    have milder : ((r.forStub false).withPolicy mild).disallowsOmitted → (r.forStub false).disallowsOmitted := by
      simp [disallowsOmitted, withPolicy, mild]
    have strictNoHooks : (r.forStub false).hooks = .empty := noHooks
    exact answer_stricter strictNoHooks rfl milder call s

/-- A list without arguments is the same type where it is an error and where it is none. -/
theorem policies_change_reports_bareList :
    ∃ strict mild q q',
      ((ofPrelude "m").disallowingGenerics true).answer (.expr (.named (.of "list" []))) (.start .root) = some (strict, q) ∧
      ((ofPrelude "m").disallowingGenerics false).answer (.expr (.named (.of "list" []))) (.start .root) = some (mild, q') ∧
      (strict.type == mild.type) = true ∧ q.reports ≠ [] ∧ q'.reports = [] := by
  have related := (policies_change_reports (r := ofPrelude "m") rfl (.expr (.named (.of "list" []))) .root).2.1
  let list (origin : AnyOrigin) : Resolution :=
    ⟨.inst (.of ⟨"builtins.list", ["T"], false⟩ [.anyAt origin .unknown] .unknown), .complete⟩
  have strictRan : ((ofPrelude "m").disallowingGenerics true).answer (.expr (.named (.of "list" []))) (.start .root) =
      some (list .error, ⟨.root, .complete, [], [⟨.unknown, .implicitAny "typing.List"⟩]⟩) := rfl
  have mildRan : ((ofPrelude "m").disallowingGenerics false).answer (.expr (.named (.of "list" []))) (.start .root) =
      some (list .omittedArguments, ⟨.root, .complete, [], []⟩) := rfl
  rw [strictRan, mildRan] at related
  cases related with
  | some same => exact ⟨_, _, _, _, strictRan, mildRan, same.type, nofun, rfl⟩

end Resolver

end TypeResolution
