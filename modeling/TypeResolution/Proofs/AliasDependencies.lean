import TypeResolution.Proofs.AvoidanceForms
import TypeResolution.Proofs.Calls
import TypeResolution.Proofs.Prelude

namespace TypeResolution

open Resolve

/-- A run from an empty record uses no alias twice. -/
theorem nodup_aliasesUsed {α : Type} {m : Resolve α} [steady : Steady m] {s : Scope} {a : α} {q : Progress}
    (ran : m (.start s) = some (a, q)) : q.aliasesUsed.Nodup := by
  have twice : m (.start s) = (m (.start s)).map _ := steady.alone (.start s)
  rw [ran, Option.map_some, Option.some.injEq, Prod.mk.injEq] at twice
  have kept : q.aliasesUsed = firstOccurrences q.aliasesUsed := congrArg Progress.aliasesUsed twice.2
  rw [kept]
  exact (firstOccurrences_distinct q.aliasesUsed).imp fun apart => beq_eq_false_iff_ne.1 apart

/-! Tables in which dependencies are accounted for -/

namespace SymbolTable

variable {table : SymbolTable}

theorem find?_add (s : Symbol) (name : String) :
    (table.add s).find? name = if name = s.fullname then some s else table.find? name := by
  split
  · rename_i same
    rw [same]
    exact NameMap.find?_insert_self table.symbols s.fullname s
  · rename_i apart
    exact NameMap.find?_insert_other table.symbols s apart

/-- An alias comes into the table only under a name that is not known yet. -/
def Extends (table : SymbolTable) (s : Symbol) : Prop :=
  ∀ decl, s.definition = some (.aliasDef decl) → table.find? s.fullname = none

theorem aliasAt_add {s : Symbol} {name : String} {decl : AliasDecl} (atName : (table.add s).AliasAt name decl) :
    (name = s.fullname ∧ s.definition = some (.aliasDef decl)) ∨ table.AliasAt name decl := by
  unfold AliasAt at atName
  rw [find?_add] at atName
  split at atName
  · rename_i same
    exact .inl ⟨same, atName⟩
  · exact .inr atName

/-- What is accounted for stays so when a symbol is added. -/
theorem Accounts.add {names : List String} (accounts : table.Accounts names) {s : Symbol} (fresh : table.Extends s) :
    (table.add s).Accounts names where
  known name member := by
    rw [find?_add]
    split
    · exact ⟨s, rfl⟩
    · exact accounts.known name member
  closed name member decl atName := by
    rcases aliasAt_add atName with ⟨same, defined⟩ | atName
    · obtain ⟨_, found⟩ := accounts.known name member
      rw [same, fresh decl defined] at found
      cases found
    · exact accounts.closed name member decl atName

theorem Traced.add (traced : table.Traced) {s : Symbol} (fresh : table.Extends s)
    (accounted : ∀ decl, s.definition = some (.aliasDef decl) → table.Accounts decl.dependencies) :
    (table.add s).Traced where
  named {name s'} found := by
    rw [find?_add] at found
    split at found
    · rename_i same
      cases found
      exact same.symm
    · exact traced.named found
  accounted {name decl} atName := by
    rcases aliasAt_add atName with ⟨_, defined⟩ | atName
    · exact (accounted decl defined).add fresh
    · exact (traced.accounted atName).add fresh

theorem traced_withPrelude (module : String) : (withPrelude module).Traced where
  named found := by
    obtain ⟨d, _, rfl, named⟩ := find?_withPrelude found
    exact named
  accounted {name decl} atName := by
    obtain ⟨s, found, defined⟩ := Option.bind_eq_some_iff.1 atName
    obtain ⟨_, _, _, rfl⟩ := Prelude.aliasDef_mem (holds_withPrelude ⟨name, s, found, defined⟩)
    exact .nil

theorem Traced.of_symbols {other : SymbolTable} (traced : table.Traced) (same : other.symbols = table.symbols) :
    other.Traced := by
  have sameFind (name : String) : other.find? name = table.find? name := by
    rw [find?, find?, same]
  have sameAlias (name : String) (decl : AliasDecl) : other.AliasAt name decl ↔ table.AliasAt name decl := by
    rw [AliasAt, AliasAt, sameFind]
  refine ⟨fun found => traced.named (sameFind _ ▸ found), fun {name decl} atName => ?_⟩
  have accounts := traced.accounted ((sameAlias name decl).1 atName)
  refine ⟨fun name member => ?_, fun name member decl atName => accounts.closed name member decl ((sameAlias name decl).1 atName)⟩
  rw [sameFind]
  exact accounts.known name member

end SymbolTable

namespace Resolver

variable {r : Resolver}

/-- What a call is resolved to, with a recursion of its own. -/
def resolvedBy (r : Resolver) (recursion : Nat → Recursion) : Call → Resolve Ty
  | .expr t => (recursion (r.allowance t)).expr t .top
  | .signature s => r.signature (recursion (r.allowance (.callable s))) s .top .top

instance steady_resolvedBy (call : Call) : Steady (r.resolvedBy r.recursion call) := by
  cases call with
  | expr t => exact (steady_recursion _).expr t .top
  | signature s => exact steady_signature s .top .top

theorem answer_eq_resolvedBy (r : Resolver) (call : Call) : r.answer call = r.resolvedBy r.recursion call >>= settle := by
  cases call <;> rfl

/-- In the scope `s` a call has no answer unless the target of the alias `name` takes the place of a reference to it:
of an argument, a part of a callable, a base of a class, a parameter of a literal, a bound or whatever else is resolved
on the way. -/
def Expands (r : Resolver) (call : Call) (s : Scope) (name : String) : Prop :=
  r.resolvedBy (r.recursionAvoiding name) call (.start s) = none

/-- The aliases that a call uses are accounted for, and each that is expanded is among them. -/
theorem answer_accounts (noHooks : r.hooks = .empty) (traced : r.table.Traced) {call : Call} {s : Scope} {result : Resolution}
    {q : Progress} (ran : r.answer call (.start s) = some (result, q)) :
    q.aliasesUsed.Nodup ∧ r.table.Accounts q.aliasesUsed ∧ ∀ name, r.Expands call s name → name ∈ q.aliasesUsed := by
  rw [answer_eq_resolvedBy] at ran
  obtain ⟨⟨t, made⟩, ranFirst, ended⟩ := Option.bind_eq_some_iff.1 ran
  obtain ⟨_, _, rfl⟩ := settle_ensures t made result q ended
  have tracks (name : String) :
      Tracks r.table name (r.resolvedBy r.recursion call) (r.resolvedBy (r.recursionAvoiding name) call) := by
    have again (bound : Nat) := tracks_recursion noHooks traced name bound
    cases call with
    | expr t => exact (again _).expr t .top
    | signature signature => exact tracks_signature signature .top .top
  have distinct : made.aliasesUsed.Nodup := nodup_aliasesUsed ranFirst
  refine ⟨distinct, ((tracks "").run ranFirst).1, fun name expands => ?_⟩
  by_contra unused
  have answered := ((tracks name).run ranFirst).2 unused
  rw [show r.resolvedBy (r.recursionAvoiding name) call (.start s) = none from expands] at answered
  cases answered

end Resolver

/-- The tables that come about from the prelude by defining aliases: the target of each is resolved, without hooks, against
the table before, and it depends on the aliases that this has used. In between, other definitions may be made, and all
that is no symbol may change. -/
inductive SymbolTable.Grown : SymbolTable → Prop
  | prelude (module : String) : Grown (.withPrelude module)
  | turn {table other : SymbolTable} : Grown table → other.symbols = table.symbols → Grown other
  | symbol {table : SymbolTable} {s : Symbol} : Grown table → (∀ decl, s.definition ≠ some (.aliasDef decl)) →
      Grown (table.add s)
  | define {table : SymbolTable} {r : Resolver} {scope : Scope} {t : Ty} {result : Resolution} {q : Progress}
      {fullname : String} (kind : SymbolKind) (formals : List String) (isBare : Bool) : Grown table → r.table = table →
      r.hooks = .empty → r.resolveAlias scope t = some (result, q) → table.find? fullname = none →
      Grown (table.add ⟨kind, fullname, some (.aliasDef ⟨fullname, result.type, formals, isBare, q.aliasesUsed⟩)⟩)

theorem SymbolTable.Grown.traced {table : SymbolTable} (grown : table.Grown) : table.Traced := by
  induction grown with
  | prelude module => exact traced_withPrelude module
  | turn _ same ih => exact ih.of_symbols same
  | symbol _ noAlias ih =>
    exact ih.add (fun decl defined => (noAlias decl defined).elim) fun decl defined => (noAlias decl defined).elim
  | @define table r scope t result q fullname kind formals isBare _ sameTable noHooks ran fresh ih =>
    subst sameTable
    have accounts : r.table.Accounts q.aliasesUsed := by
      have ran : r.forAliases.answer (.expr t) (.start scope) = some (result, q) := ran
      exact (Resolver.answer_accounts (r := r.forAliases) noHooks ih ran).2.1
    refine ih.add (fun _ _ => fresh) fun decl defined => ?_
    cases defined
    exact accounts

/-- However the table has come about, an alias depends on all that the aliases depend on that it depends on. And whatever is
resolved against it, the aliases used are without repetition, each alias that is expanded anywhere on the way is among
them, and with an alias all that it depends on. -/
theorem Resolver.dependencies_closed {table : SymbolTable} (grown : table.Grown) :
    (∀ name decl, table.AliasAt name decl → ∀ other ∈ decl.dependencies, ∀ decl', table.AliasAt other decl' →
      ∀ third ∈ decl'.dependencies, third ∈ decl.dependencies) ∧
    ∀ r : Resolver, r.table = table → r.hooks = .empty → ∀ call s result q, r.answer call (.start s) = some (result, q) →
      q.aliasesUsed.Nodup ∧
      (∀ name, r.Expands call s name → name ∈ q.aliasesUsed) ∧
      ∀ name ∈ q.aliasesUsed, ∀ decl, table.AliasAt name decl → ∀ other ∈ decl.dependencies, other ∈ q.aliasesUsed := by
  have traced := grown.traced
  refine ⟨fun name decl atName => (traced.accounted atName).closed, ?_⟩
  rintro r rfl noHooks call s result q ran
  obtain ⟨distinct, accounts, expanded⟩ := Resolver.answer_accounts noHooks traced ran
  exact ⟨distinct, expanded, accounts.closed⟩

/-- `list[int]` -/
def intList : Ty :=
  .inst (.of ⟨"builtins.list", ["T"], false⟩ [.inst (.of (.plain "builtins.int") [] .unknown)] .unknown)

/-- A module with the alias `A = List[int]`. -/
def withIntList : SymbolTable :=
  (SymbolTable.withPrelude "m").add ⟨.global, "m.A", some (.aliasDef ⟨"m.A", intList, [], false, ["typing.List"]⟩)⟩

/-- A class `Row` that derives from `Tuple[A]`. -/
def rowClass : ClassDecl :=
  ⟨.plain "m.Row",
    some ⟨[.named (.of "A" [])], .of ⟨"builtins.tuple", ["T_co"], false⟩ [.anyAt .specialForm .unknown] .unknown, false,
      .unknown⟩, none⟩

/-- The module with this class. -/
def withRow : SymbolTable := withIntList.add (.of (.classDef rowClass))

theorem withRow_grown : withRow.Grown := by
  have ran : (Resolver.ofPrelude "m").resolveAlias .root (.named (.of "typing.List" [.named (.of "int" [])])) =
      some (⟨intList, .complete⟩, ⟨.root, .complete, ["typing.List"], []⟩) := rfl
  have defined : withIntList.Grown := .define .global [] false (.prelude "m") rfl rfl ran rfl
  exact .symbol defined nofun

/-- In `Row` the base of the class is resolved, and with it `A` is expanded, which depends on `List`. -/
theorem Resolver.dependencies_closed_row :
    ∃ result q, ({ ofPrelude "m" with table := withRow } : Resolver).answer (.expr (.named (.of "Row" []))) (.start .root) =
      some (result, q) ∧ "m.A" ∈ q.aliasesUsed ∧ "typing.List" ∈ q.aliasesUsed := by
  obtain ⟨_, resolves⟩ := dependencies_closed withRow_grown
  have ran : ({ ofPrelude "m" with table := withRow } : Resolver).answer (.expr (.named (.of "Row" []))) (.start .root) =
      some (⟨_, _⟩, _) := rfl
  obtain ⟨_, expanded, closed⟩ := resolves _ rfl rfl _ _ _ _ ran
  have atA := expanded "m.A" rfl
  exact ⟨_, _, ran, atA, closed _ atA ⟨"m.A", intList, [], false, ["typing.List"]⟩ rfl _ (List.mem_singleton_self _)⟩

end TypeResolution
