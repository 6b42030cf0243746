import TypeResolution.Proofs.ArgumentOrder
import TypeResolution.Proofs.SteadyForms

namespace TypeResolution

/-- A problem of those that are found on the side: while numbers of arguments are repaired, aliases expanded, lists of
parameters read and variables bound. -/
def Problem.OnTheSide : Problem → Prop
  | .implicitAny _ | .bareGeneric _ | .wrongArgumentCount .. | .aliasArgumentCount .. | .cutOff | .undefinedName _
  | .unknownArgumentForm _ | .namedStarArgument _ | .duplicateArgument .. | .requiredAfterOthers | .defaultAfterNamed
  | .variadicAfterNamed | .keywordsNotLast | .repeatedKeywords | .variableOfOuterClass _ | .callableParameters
  | .callableUsage => True
  | _ => False

theorem omittedAny_onTheSide (disallowed : Bool) (pos : Position) (fullname : Option String) (description : String) :
    ∀ report ∈ (omittedAny disallowed pos fullname description).2, report.problem.OnTheSide := by
  unfold omittedAny
  split
  · intro report member
    rw [List.mem_singleton.1 member]
    dsimp only
    split <;> exact trivial
  · exact List.forall_mem_nil _

theorem fixInstance_onTheSide (i : Instance) (disallowAny fromAlias : Bool) (written : Option String) :
    ∀ report ∈ (fixInstance i disallowAny fromAlias written).2, report.problem.OnTheSide := by
  unfold fixInstance
  split
  · exact List.forall_mem_nil _
  · split
    · exact omittedAny_onTheSide _ _ _ _
    · intro report member
      rw [List.mem_singleton.1 member]
      exact trivial

theorem substitute_onTheSide (t : Ty) (formals : List String) (values : List Ty) (pos : Position) :
    ∀ report ∈ (substitute t formals values pos).2, report.problem.OnTheSide := by
  unfold substitute
  dsimp only
  split
  · intro report member
    rw [List.mem_singleton.1 member]
    exact trivial
  · exact List.forall_mem_nil _

theorem substituteAny_onTheSide (t : Ty) (formals : List String) (pos : Position) (fromError disallowAny : Bool)
    (written : Option String) :
    ∀ report ∈ (substituteAny t formals pos fromError disallowAny written).2, report.problem.OnTheSide := by
  intro report member
  unfold substituteAny at member
  rcases List.mem_append.1 member with omitted | cut
  · cases disallowAny with
    | false => cases omitted
    | true =>
      rw [if_pos rfl] at omitted
      exact omittedAny_onTheSide _ _ _ _ report omitted
  · exact substitute_onTheSide _ _ _ _ report cut

theorem AliasDecl.expand_onTheSide (a : AliasDecl) (args : List Ty) (pos : Position) (written : Option String)
    (disallowAny : Bool) : ∀ report ∈ (a.expand args pos written disallowAny).2, report.problem.OnTheSide := by
  unfold expand
  split
  · exact substituteAny_onTheSide _ _ _ _ _ _
  · split <;> exact List.forall_mem_nil _
  · split
    · exact List.forall_mem_nil _
    · split
      · exact substitute_onTheSide _ _ _ _
      · intro report member
        rcases List.mem_cons.1 member with rfl | member
        · exact trivial
        · exact substituteAny_onTheSide _ _ _ _ _ _ report member

theorem ArgKind.misplaced_onTheSide (kind : ArgKind) : kind.misplaced.OnTheSide := by
  cases kind <;> exact trivial

theorem Parameter.ofItem_onTheSide {table : SymbolTable} {item : Ty} {report : Diagnostic}
    (failed : Parameter.ofItem table item = .error (some report)) : report.problem.OnTheSide := by
  unfold ofItem at failed
  repeat' split at failed
  all_goals cases failed
  all_goals exact trivial

/-- Where a list of steps fails, it fails as the first step does that fails. -/
theorem first_of_mapM_error {α β ε : Type} {f : α → Except ε β} {xs : List α} {failure : ε}
    (failed : xs.mapM f = .error failure) :
    ∃ before x after, xs = before ++ x :: after ∧ (∀ y ∈ before, ∃ made, f y = .ok made) ∧ f x = .error failure := by
  induction xs with
  | nil => cases failed
  | cons x xs ih =>
    rw [List.mapM_cons] at failed
    cases first : f x with
    | error failure' =>
      rw [first] at failed
      cases failed
      exact ⟨[], x, xs, rfl, List.forall_mem_nil _, first⟩
    | ok made =>
      cases rest : xs.mapM f with
      | error failure' =>
        rw [first, rest] at failed
        cases failed
        obtain ⟨before, y, after, rfl, fine, failed⟩ := ih rest
        exact ⟨x :: before, y, after, rfl, List.forall_mem_cons.2 ⟨⟨made, first⟩, fine⟩, failed⟩
      | ok others =>
        rw [first, rest] at failed
        cases failed

theorem Parameter.ofItems_onTheSide (table : SymbolTable) (items : List Ty) (pos : Position) :
    ∀ report ∈ (Parameter.ofItems table items pos).2, report.problem.OnTheSide := by
  unfold ofItems
  split
  · rename_i failure failed
    intro report member
    rw [Option.mem_toList.1 member] at failed
    obtain ⟨_, _, _, _, _, failed⟩ := first_of_mapM_error failed
    exact ofItem_onTheSide failed
  · intro report member
    obtain ⟨problem, atProblem, rfl⟩ := List.mem_map.1 member
    rcases List.mem_append.1 atProblem with names | kinds
    · obtain ⟨name, _, rfl⟩ := Option.map_eq_some_iff.1 (Option.mem_toList.1 names)
      exact trivial
    · obtain ⟨_, kind, _, _, _, _, rfl⟩ := KindsSeen.firstProblem?_eq_some (Option.mem_toList.1 kinds)
      exact kind.misplaced_onTheSide

theorem Scope.bindUses_onTheSide (table : SymbolTable) (pos : Position) (s : Scope) (uses : List VariableUse) :
    ∀ report ∈ (s.bindUses table pos uses).reports, report.problem.OnTheSide := by
  induction uses generalizing s with
  | nil => exact List.forall_mem_nil _
  | cons use uses ih =>
    obtain ⟨name, decl⟩ := use
    rw [bindUses]
    split
    · exact ih s
    · intro report member
      rcases List.mem_append.1 member with here | later
      · split at here
        · cases here
        · rw [List.mem_singleton.1 here]
          exact trivial
      · exact ih _ report later

theorem Resolver.innerReports_onTheSide (r : Resolver) (s : Scope) (signature : Signature) :
    ∀ report ∈ r.innerReports s signature, report.problem.OnTheSide := by
  unfold innerReports
  split
  · exact List.forall_mem_nil _
  · unfold Scope.bindSignature
    split
    · exact Scope.bindUses_onTheSide _ _ _ _
    · exact List.forall_mem_nil _

theorem Resolver.formReports_onTheSide (r : Resolver) (ref : Reference) :
    ∀ report ∈ r.formReports ref, report.problem.OnTheSide := by
  unfold formReports
  split
  · exact omittedAny_onTheSide _ _ _ _
  · exact Parameter.ofItems_onTheSide _ _ _
  · exact List.forall_mem_nil _
  · intro report member
    rw [List.mem_singleton.1 member]
    exact trivial
  · intro report member
    rw [List.mem_singleton.1 member]
    exact trivial

end TypeResolution
