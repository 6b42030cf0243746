import TypeResolution.Proofs.TwoRuns
import TypeResolution.Proofs.YieldedForms

namespace TypeResolution

open Resolve

/-- What is decided, by a project or of a place, about reports. -/
structure Policy where
  disallowAnyGenerics : Bool
  reportInvalidTypes : Bool
  inStub : Bool

namespace Resolver

/-- The same resolver under another policy. -/
def withPolicy (r : Resolver) (policy : Policy) : Resolver :=
  { r with
    options := { r.options with disallowAnyGenerics := policy.disallowAnyGenerics }
    flags := { r.flags with reportInvalidTypes := policy.reportInvalidTypes, inStub := policy.inStub } }

/-- What is reported of a scalar that stands where a type was expected. -/
def scalarReports (r : Resolver) (value : Option LiteralValue) (className : String) (note : Option String)
    (pos : Position) : List Diagnostic :=
  if r.flags.reportInvalidTypes then ⟨pos, scalarProblem value className⟩ :: note.toList.map (⟨pos, .remarked ·⟩) else []

theorem scalarType_eq (r : Resolver) (value : Option LiteralValue) (className : String) (note : Option String)
    (pos : Position) :
    r.scalarType value className note pos =
      reportAll (r.scalarReports value className note pos) >>= fun _ => pure (.anyAt .error pos) := by
  unfold scalarType scalarReports
  split
  · funext p
    change some (_, { p with reports := p.reports ++ [_] ++ _ }) = some (_, { p with reports := p.reports ++ _ :: _ })
    rw [List.append_assoc]
    rfl
  · exact (reportAll_nil_bind _).symm

end Resolver

/-- What two computations make, each with its reports, agrees. -/
structure Comparison.Reported {α β : Type} (c : Comparison) (exact : Prop) (look : α → β)
    (made made' : α × List Diagnostic) : Prop where
  told : exact → c.told made.2 made'.2
  result : Alike (exact ∧ c.quiet made.2) look made.1 made'.1

/-- The resolver and the same one under another policy have no hooks, and what they report on their own account is
compared as asked. -/
structure Resolver.Pact (r : Resolver) (policy : Policy) (c : Comparison) : Prop where
  noHooks : r.hooks = .empty
  omitted (pos : Position) (fullname : Option String) (description : String) :
    c.Reported True Ty.unexplained (omittedAny r.disallowsOmitted pos fullname description)
      (omittedAny (r.withPolicy policy).disallowsOmitted pos fullname description)
  scalar (value : Option LiteralValue) (className : String) (note : Option String) (pos : Position) :
    c.told (r.scalarReports value className note pos) ((r.withPolicy policy).scalarReports value className note pos)

namespace Comparison.Reported

variable {α β γ δ : Type} {c : Comparison} {exact : Prop} {look : α → β} {look' : γ → δ}

theorem same {a a' : α} {reports : List Diagnostic} (plain : ∀ report ∈ reports, report.problem.aboutScalar = false)
    (alike : Alike exact look a a') : c.Reported exact look (a, reports) (a', reports) :=
  ⟨fun _ => c.same plain, alike.mono And.left⟩

theorem side {a a' : α} {reports : List Diagnostic} (side : ∀ report ∈ reports, report.problem.OnTheSide)
    (alike : Alike exact look a a') : c.Reported exact look (a, reports) (a', reports) :=
  .same (fun report member => (side report member).plain) alike

theorem weaken {exact' : Prop} {made made' : α × List Diagnostic} (reported : c.Reported exact look made made')
    (weaker : exact' → exact) : c.Reported exact' look made made' :=
  ⟨fun holds => reported.told (weaker holds), reported.result.mono fun holds => ⟨weaker holds.1, holds.2⟩⟩

/-- What is reported first, and then what is made of the result. -/
theorem andThen {made made' : α × List Diagnostic} (first : c.Reported exact look made made') {last last' : γ × List Diagnostic}
    (next : c.Reported (exact ∧ c.quiet made.2) look' last last') :
    c.Reported exact look' (last.1, made.2 ++ last.2) (last'.1, made'.2 ++ last'.2) :=
  ⟨fun holds => c.append (first.told holds) fun quiet => next.told ⟨holds, quiet⟩,
    next.result.mono fun holds => ⟨⟨holds.1, c.quiet_left holds.2⟩, c.quiet_right holds.2⟩⟩

end Comparison.Reported

theorem alike_replicate {exact : Prop} {t u : Ty} (alike : Alike exact Ty.unexplained t u) (n : Nat) :
    Alike exact (List.map Ty.unexplained) (List.replicate n t) (List.replicate n u) :=
  alike.map fun shown => by rw [List.map_replicate, List.map_replicate, shown]

namespace Instance

variable {exact : Prop} {i j : Instance}

/-- Instances that agree differ at most in their arguments and in the value that is known of them. -/
theorem parts_of_alike (alike : Alike exact unexplained i j) :
    j.head = i.head ∧ j.invalid = i.invalid ∧ j.pos = i.pos ∧ Alike exact (List.map Ty.unexplained) i.args j.args ∧
      Alike exact (Option.map Literal.unexplained) i.lastKnown j.lastKnown := by
  obtain ⟨shown, same⟩ := alike
  obtain ⟨head, args, invalid, lastKnown, pos⟩ := i
  obtain ⟨head', args', invalid', lastKnown', pos'⟩ := j
  simp only [unexplained, Ty.unexplainedAll_eq, Literal.unexplainedOption_eq, Instance.mk.injEq] at shown same
  obtain ⟨rfl, inArgs, rfl, known, rfl⟩ := shown
  exact ⟨rfl, rfl, rfl, ⟨inArgs, fun holds => (same holds).2.1⟩, ⟨known, fun holds => (same holds).2.2.2.1⟩⟩

theorem alike_of_parts {head : ClassHead} {args args' : List Ty} {invalid : Bool} {lastKnown lastKnown' : Option Literal}
    {pos : Position} (inArgs : Alike exact (List.map Ty.unexplained) args args')
    (known : Alike exact (Option.map Literal.unexplained) lastKnown lastKnown') :
    Alike exact unexplained ⟨head, args, invalid, lastKnown, pos⟩ ⟨head, args', invalid, lastKnown', pos⟩ := by
  refine ⟨?_, fun holds => by rw [inArgs.same holds, known.same holds]⟩
  simp [unexplained, inArgs.shown, known.shown]

theorem alike_of {args args' : List Ty} (head : ClassHead) (pos : Position)
    (inArgs : Alike exact (List.map Ty.unexplained) args args') :
    Alike exact unexplained (Instance.of head args pos) (.of head args' pos) :=
  alike_of_parts inArgs (.refl none)

end Instance

namespace Resolver

variable {r : Resolver} {policy : Policy} {c : Comparison} (pact : r.Pact policy c) {exact : Prop}

include pact

/-- Instances that agree are repaired alike. -/
theorem fixInstance_reported {i j : Instance} (alike : Alike exact Instance.unexplained i j) (fromAlias : Bool)
    (written : Option String) :
    c.Reported exact Instance.unexplained (fixInstance i r.disallowsOmitted fromAlias written)
      (fixInstance j (r.withPolicy policy).disallowsOmitted fromAlias written) := by
  obtain ⟨head, args, invalid, lastKnown, pos⟩ := i
  obtain ⟨head', args', invalid', lastKnown', pos'⟩ := j
  obtain ⟨rfl, rfl, rfl, inArgs, known⟩ := Instance.parts_of_alike alike
  unfold fixInstance Instance.hasExpectedArity
  dsimp only
  rw [← inArgs.length_eq, ← inArgs.isEmpty_eq]
  split
  · exact .same (by simp) alike
  · split
    · have filler := pact.omitted pos' (if fromAlias then none else some head'.fullname) (written.getD head'.name)
      refine ⟨fun _ => filler.told trivial, ?_⟩
      have atArgs := alike_replicate filler.result head'.arity
      exact Instance.alike_of_parts (atArgs.mono fun holds => ⟨trivial, holds.2⟩) (known.mono And.left)
    · exact .same (by simp [Problem.aboutScalar]) (Instance.alike_of_parts (.refl _) known)

omit pact in
/-- Types that agree are put in alike for the formals of a target. -/
theorem substitute_reported {values values' : List Ty} (alike : Alike exact (List.map Ty.unexplained) values values') (t : Ty)
    (formals : List String) (pos : Position) :
    c.Reported exact Ty.unexplained (substitute t formals values pos) (substitute t formals values' pos) := by
  obtain ⟨shown, sameCut⟩ := substituteAt_unexplained formals alike.shown pos t 0
  have side := substitute_onTheSide t formals values' pos
  unfold substitute at side ⊢
  dsimp only at side ⊢
  rw [sameCut]
  exact .side side ⟨shown, fun holds => by rw [alike.same holds]⟩

theorem substituteAny_reported (t : Ty) (formals : List String) (pos : Position) (written : String) :
    c.Reported exact Ty.unexplained (substituteAny t formals pos false r.disallowsOmitted (some written))
      (substituteAny t formals pos false (r.withPolicy policy).disallowsOmitted (some written)) := by
  have filled (disallowed : Bool) : substituteAny t formals pos false disallowed (some written) =
      ((substitute t formals (List.replicate formals.length (omittedAny disallowed pos none written).1) pos).1,
        (omittedAny disallowed pos none written).2 ++
          (substitute t formals (List.replicate formals.length (omittedAny disallowed pos none written).1) pos).2) := by
    cases disallowed <;> rfl
  have filler := (pact.omitted pos none written).weaken fun (_ : exact) => trivial
  rw [filled, filled]
  exact filler.andThen (substitute_reported (alike_replicate filler.result _) t formals pos)

omit pact in
theorem openFlexible_alike {t u : Ty} (alike : Alike exact Ty.unexplained t u) :
    Alike exact Ty.unexplained (AliasDecl.openFlexible t) (AliasDecl.openFlexible u) := by
  cases Ty.alikeForm_of_alike alike with
  | @inst i j inInstance =>
    obtain ⟨sameHead, _, _, inArgs, _⟩ := Instance.parts_of_alike inInstance
    simp only [AliasDecl.openFlexible, sameHead]
    split
    · refine ⟨?_, fun holds => by rw [inArgs.same holds]⟩
      have last := congrArg List.getLast? inArgs.shown
      rw [List.getLast?_map, List.getLast?_map] at last
      have opened := congrArg (fun o => o.getD (Ty.anyAt .specialForm .unknown).unexplained) last
      simpa [Option.getD_map] using opened
    · exact alike
  | _ => exact alike

/-- Arguments that agree are put alike into the target of an alias. -/
theorem expand_reported (decl : AliasDecl) {args args' : List Ty} (alike : Alike exact (List.map Ty.unexplained) args args')
    (pos : Position) (written : String) :
    c.Reported exact Ty.unexplained (decl.expand args pos (some written) r.disallowsOmitted)
      (decl.expand args' pos (some written) (r.withPolicy policy).disallowsOmitted) := by
  have wrongNumber : ∀ report ∈ (⟨pos, .aliasArgumentCount decl.formals.length args.length⟩ : Diagnostic) ::
      (substituteAny decl.target decl.formals pos true false none).2, report.problem.OnTheSide := by
    intro report member
    rcases List.mem_cons.1 member with rfl | member
    · exact trivial
    · exact substituteAny_onTheSide _ _ _ _ _ _ report member
  cases args with
  | nil =>
    rw [alike.nil_left]
    unfold AliasDecl.expand
    cases decl.formals with
    | cons => exact substituteAny_reported pact decl.target _ pos written
    | nil =>
      dsimp only
      split <;> exact .same (by simp) (.refl _)
  | cons arg args =>
    obtain ⟨arg', rest, rfl, _, _⟩ := alike.cons_left
    rw [AliasDecl.expand_cons, AliasDecl.expand_cons, ← alike.length_eq]
    split
    · rename_i head _ _ _
      exact .same (by simp) (Ty.AlikeForm.alike (.inst (Instance.alike_of head pos alike)))
    · split
      · have made : c.Reported exact _ _ _ := substitute_reported alike decl.target decl.formals pos
        exact ⟨made.told, openFlexible_alike made.result⟩
      · exact .side wrongNumber (.refl _)

end Resolver

/-! Parameters -/

namespace Parameter

theorem ofItem_unexplained (table : SymbolTable) (t : Ty) :
    ofItem table t.unexplained = (ofItem table t).map (mapType Ty.unexplained) := by
  cases t with
  | argument item name form pos =>
    simp only [Ty.unexplained, ofItem]
    repeat' split
    all_goals rfl
  | _ => first | rfl | (rename_i parts; cases parts; rfl)

/-- A list of parameters is read without regard to the reasons for an `Any` in it. -/
theorem ofItems_unexplained (table : SymbolTable) (items : List Ty) (pos : Position) :
    ofItems table (items.map Ty.unexplained) pos =
      ((ofItems table items pos).1.map (List.map (mapType Ty.unexplained)), (ofItems table items pos).2) :=
  ofItems_map (fun t _ => ofItem_unexplained table t) pos

end Parameter

end TypeResolution
