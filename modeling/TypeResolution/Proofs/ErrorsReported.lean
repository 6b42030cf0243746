import TypeResolution.Proofs.Prelude
import TypeResolution.Proofs.ProperRun

namespace TypeResolution

open Resolve

namespace Resolver

variable {r : Resolver}

/-- If proper types, read where the table is proper, too, are resolved to something that holds an `Any` for an error, this
call has reported an error, or its result is not complete. -/
theorem errorType_reported (table : r.ProperTable) (noHooks : r.hooks = .empty)
    (reports : r.flags.reportInvalidTypes = true) {p q : Progress} {result : Resolution}
    (ran : (∃ t, t.Everywhere r.Proper ∧ r.resolve t p = some (result, q)) ∨
      (∃ s, (Ty.callable s).Everywhere r.Proper ∧ r.resolveSignature s p = some (result, q)))
    {missing : Option String} {pos : Position} (reached : Ty.Inside (.any .error missing pos) result.type) :
    result.status ≠ .complete ∨ ∃ report ∈ p.newReports q, report.isError := by
  obtain ⟨resolved, q', ended, made⟩ : ∃ resolved q', settle resolved q' = some (result, q) ∧
      (resolved.Everywhere r.Proper ∨ q'.status ≠ .complete ∨ ∃ report ∈ p.newReports q', report.isError) := by
    rcases ran with ⟨t, given, ran⟩ | ⟨s, given, ran⟩
    · obtain ⟨⟨resolved, q'⟩, ranFirst, ended⟩ := Option.bind_eq_some_iff.1 ran
      have warrants := (recursion_warrants table noHooks reports (r.allowance t)).expr .top given
      exact ⟨resolved, q', ended, warrants.run ranFirst⟩
    · obtain ⟨⟨resolved, q'⟩, ranFirst, ended⟩ := Option.bind_eq_some_iff.1 ran
      have parts : ∀ c ∈ (Ty.callable s).children, c.Everywhere r.Proper := fun c member => given.child member
      have again := recursion_warrants table noHooks reports (r.allowance (.callable s))
      have warrants := signature_warrants again parts .top .top
      exact ⟨resolved, q', ended, warrants.run ranFirst⟩
  obtain ⟨type, status, rfl⟩ := settle_ensures resolved q' result q ended
  rcases made with proper | open_ | reported
  · rw [type] at reached
    have notError : AnyOrigin.error ≠ .error ∧ AnyOrigin.error ≠ .specialForm := proper _ reached
    exact absurd rfl notError.1
  · exact .inl (status ▸ open_)
  · exact .inr reported

/-- `List[Literal[int]]` -/
def listOfNoLiteral : Ty := .named (.of "typing.List" [.named (.of "typing.Literal" [.named (.of "int" [])])])

theorem ofPrelude_passesNothing (module : String) : ¬ (ofPrelude module).PassesArguments := by
  rintro ⟨decl, holds, passes⟩
  have noFormals := (Prelude.aliasDef_target (SymbolTable.holds_withPrelude holds)).1
  simp [AliasDecl.mayBeArgument, noFormals] at passes

/-- Names that the prelude knows are proper. -/
theorem ofPrelude_named {module : String} {ref : Reference} (known : ((ofPrelude module).table.lookup ref.name).isSome) :
    (ofPrelude module).Proper (.named ref) :=
  ⟨known, fun _ _ _ passes => absurd passes (ofPrelude_passesNothing module)⟩

theorem ofPrelude_properTable (module : String) : (ofPrelude module).ProperTable where
  target holds := by
    obtain ⟨_, head, target, _⟩ := Prelude.aliasDef_target (SymbolTable.holds_withPrelude holds)
    rw [AliasDecl.TargetAllows, target]
    exact Ty.everywhere_of_leaf rfl (.inl fun passes => absurd passes (ofPrelude_passesNothing module))
  notHollow holds atTarget := by
    obtain ⟨_, head, target, other⟩ := Prelude.aliasDef_target (SymbolTable.holds_withPrelude holds)
    rw [target] at atTarget
    cases atTarget
    exact fun hollow => other hollow.1
  tupleBase holds atBase := by
    rw [(Prelude.noBases (SymbolTable.holds_withPrelude holds)).1] at atBase
    cases atBase
  recordBase holds atBase := by
    rw [(Prelude.noBases (SymbolTable.holds_withPrelude holds)).2] at atBase
    cases atBase

/-- `List[Literal[int]]` is resolved to a list of an error, which is reported. -/
theorem errorType_reported_literal :
    ∃ result q, (ofPrelude "m").resolve listOfNoLiteral (.start .root) = some (result, q) ∧
      Ty.Inside (.any .error none .unknown) result.type ∧
      (result.status ≠ .complete ∨ ∃ report ∈ (Progress.start .root).newReports q, report.isError) := by
  obtain ⟨q, ran⟩ : ∃ q, (ofPrelude "m").resolve listOfNoLiteral (.start .root) =
      some (⟨.inst (.of ⟨"builtins.list", ["T"], false⟩ [.any .error none .unknown] .unknown), .complete⟩, q) :=
    ⟨_, rfl⟩
  have reached : Ty.Inside (.any .error none .unknown)
      (.inst (.of ⟨"builtins.list", ["T"], false⟩ [.any .error none .unknown] .unknown)) :=
    .child (List.mem_singleton_self _) .here
  have int : (Ty.named (.of "int" [])).Everywhere (ofPrelude "m").Proper := Ty.everywhere_of_leaf rfl (ofPrelude_named rfl)
  have literal : (Ty.named (.of "typing.Literal" [.named (.of "int" [])])).Everywhere (ofPrelude "m").Proper :=
    Ty.everywhere_iff.2 ⟨ofPrelude_named rfl, List.forall_mem_singleton.2 int⟩
  have given : listOfNoLiteral.Everywhere (ofPrelude "m").Proper :=
    Ty.everywhere_iff.2 ⟨ofPrelude_named rfl, List.forall_mem_singleton.2 literal⟩
  exact ⟨_, q, ran, reached, errorType_reported (ofPrelude_properTable "m") rfl rfl (.inl ⟨_, given, ran⟩) reached⟩

/-- A module that defines an alias, in which `A` stands for its formal `T`. -/
def withFormalAlias : Resolver :=
  let bounded : TypeVarDecl := ⟨"m.T", [], .inst (.of (.plain "builtins.object") [] .unknown), .invariant⟩
  let alias_ : AliasDecl := ⟨"m.A", .named (.of "T" []), ["T"], false, []⟩
  { ofPrelude "m" with
    table := ((SymbolTable.withPrelude "m").define (.typeVarDef bounded)).define (.aliasDef alias_)
    flags := { Flags.default with definingAlias := true } }

/-- `Literal[A[FlexibleAlias]]` -/
def literalOfHollow : Ty :=
  .named (.of "typing.Literal" [.named (.of "A" [.named (.of "mypy_extensions.FlexibleAlias" [])])])

/-- A flexible alias without arguments that another alias hands on is opened to an `Any` that nobody reported, of which
`Literal` makes an error without a word. -/
theorem literalOfHollow_silent :
    ∃ q, withFormalAlias.resolve literalOfHollow (.start .root) = some (⟨.anyAt .error .unknown, .complete⟩, q) ∧
      q.reports = [] :=
  ⟨⟨.root, .complete, ["m.A"], []⟩, rfl, rfl⟩

end Resolver

end TypeResolution
