import TypeResolution.Proofs.SteadyForms

namespace TypeResolution

open Resolve

/-! Lists of aliases that hold all that their aliases depend on -/

theorem mem_foldl_addDistinct_iff {names kept : List String} {name : String} :
    name ∈ names.foldl addDistinct kept ↔ name ∈ kept ∨ name ∈ names := by
  refine ⟨mem_foldl_addDistinct, fun member => ?_⟩
  obtain ⟨k, atKept, same⟩ := kept_of_mem_foldl (member.imp_left fun atKept => ⟨name, atKept, beq_self_eq_true name⟩)
  exact beq_iff_eq.1 same ▸ atKept

namespace SymbolTable

/-- The alias `decl` stands in the table under this name. -/
def AliasAt (table : SymbolTable) (name : String) (decl : AliasDecl) : Prop :=
  (table.find? name).bind (·.definition) = some (.aliasDef decl)

/-- The table knows the names, and with each alias all that it depends on is among them. -/
structure Accounts (table : SymbolTable) (names : List String) : Prop where
  known : ∀ name ∈ names, ∃ s, table.find? name = some s
  closed : ∀ name ∈ names, ∀ decl, table.AliasAt name decl → ∀ other ∈ decl.dependencies, other ∈ names

namespace Accounts

variable {table : SymbolTable} {names others : List String}

theorem nil : table.Accounts [] := ⟨nofun, nofun⟩

theorem union (first : table.Accounts names) (second : table.Accounts others) :
    table.Accounts (others.foldl addDistinct names) where
  known name member := by
    rcases mem_foldl_addDistinct_iff.1 member with member | member
    · exact first.known name member
    · exact second.known name member
  closed name member decl atName other depends := by
    refine mem_foldl_addDistinct_iff.2 ?_
    rcases mem_foldl_addDistinct_iff.1 member with member | member
    · exact .inl (first.closed name member decl atName other depends)
    · exact .inr (second.closed name member decl atName other depends)

/-- An alias, and after it all that it depends on. -/
theorem cons {name : String} {decl : AliasDecl} (atName : table.AliasAt name decl)
    (accounts : table.Accounts decl.dependencies) : table.Accounts (name :: decl.dependencies) where
  known other member := by
    rcases List.mem_cons.1 member with rfl | member
    · obtain ⟨s, found, _⟩ := Option.bind_eq_some_iff.1 atName
      exact ⟨s, found⟩
    · exact accounts.known other member
  closed other member decl' atOther third depends := by
    rcases List.mem_cons.1 member with rfl | member
    · obtain rfl : decl' = decl := Definition.aliasDef.inj (Option.some.inj (atOther.symm.trans atName))
      exact List.mem_cons_of_mem _ depends
    · exact List.mem_cons_of_mem _ (accounts.closed other member decl' atOther third depends)

end Accounts

end SymbolTable

/-! Runs that avoid an alias -/

namespace Resolve

variable {α β : Type} {table : SymbolTable} {name : String}

/-- What `m` uses is accounted for, and as long as the alias `name` is not among it, `avoiding` does the same. -/
class Tracks (table : SymbolTable) (name : String) (m avoiding : Resolve α) : Prop where
  run {s : Scope} {a : α} {q : Progress} : m (.start s) = some (a, q) →
    table.Accounts q.aliasesUsed ∧ (name ∉ q.aliasesUsed → avoiding (.start s) = some (a, q))

/-- Whatever `m` gives, it uses the alias `name`. -/
def Uses (name : String) (m : Resolve α) : Prop :=
  ∀ s a q, m (.start s) = some (a, q) → name ∈ q.aliasesUsed

theorem Uses.first {m : Resolve α} {f : α → Resolve β} [Steady m] [∀ a, Steady (f a)] (uses : Uses name m) :
    Uses name (m >>= f) := by
  intro s b q ran
  rw [run_bind] at ran
  obtain ⟨⟨a, middle⟩, ranFirst, ran⟩ := Option.bind_eq_some_iff.1 ran
  obtain ⟨_, _, same⟩ := Option.bind_eq_some_iff.1 ran
  cases same
  exact mem_foldl_addDistinct_iff.2 (.inl (uses s a middle ranFirst))

theorem Uses.next {m : Resolve α} {f : α → Resolve β} [Steady m] [∀ a, Steady (f a)] (uses : ∀ a, Uses name (f a)) :
    Uses name (m >>= f) := by
  intro s b q ran
  rw [run_bind] at ran
  obtain ⟨⟨a, middle⟩, _, ran⟩ := Option.bind_eq_some_iff.1 ran
  obtain ⟨⟨b, last⟩, ranNext, same⟩ := Option.bind_eq_some_iff.1 ran
  cases same
  exact mem_foldl_addDistinct_iff.2 (.inr (uses a s b last ranNext))

/-- What uses the alias anyway is tracked by anything. -/
theorem Tracks.of_uses {m avoiding : Resolve α} (tracks : Tracks table name m avoiding) (uses : Uses name m)
    (other : Resolve α) : Tracks table name m other where
  run ran := ⟨(tracks.run ran).1, fun unused => absurd (uses _ _ _ ran) unused⟩

/-- A step that uses no aliases is tracked by itself. -/
theorem Tracks.of_unused {m : Resolve α} (unused : ∀ {s a q}, m (.start s) = some (a, q) → q.aliasesUsed = []) :
    Tracks table name m m where
  run ran := by
    rw [unused ran]
    exact ⟨.nil, fun _ => ran⟩

instance tracks_pure (a : α) : Tracks table name (Pure.pure a) (Pure.pure a) :=
  .of_unused fun ran => by
    cases ran
    rfl

instance tracks_bind (m avoiding : Resolve α) (f shadow : α → Resolve β) [Steady m] [∀ a, Steady (f a)] [Steady avoiding]
    [∀ a, Steady (shadow a)] [first : Tracks table name m avoiding] [next : ∀ a, Tracks table name (f a) (shadow a)] :
    Tracks table name (m >>= f) (avoiding >>= shadow) where
  run {s b q} ran := by
    rw [run_bind] at ran
    obtain ⟨⟨a, middle⟩, ranFirst, ran⟩ := Option.bind_eq_some_iff.1 ran
    obtain ⟨⟨b, last⟩, ranNext, same⟩ := Option.bind_eq_some_iff.1 ran
    cases same
    obtain ⟨accounts, follows⟩ := first.run ranFirst
    obtain ⟨accounts', follows'⟩ := (next a).run ranNext
    refine ⟨accounts.union accounts', fun unused => ?_⟩
    have inNeither : name ∉ middle.aliasesUsed ∧ name ∉ last.aliasesUsed :=
      not_or.1 fun member => unused (mem_foldl_addDistinct_iff.2 member)
    rw [run_bind, follows inNeither.1]
    simp only [Option.bind_some, follows' inNeither.2]

instance tracks_stuck (avoiding : Resolve α) : Tracks table name (fun _ => none) avoiding where
  run := nofun

instance tracks_ite (c : Prop) [Decidable c] (m m' avoiding avoiding' : Resolve α) [Tracks table name m avoiding]
    [Tracks table name m' avoiding'] :
    Tracks table name (if c then m else m') (if c then avoiding else avoiding') := by
  split <;> infer_instance

instance tracks_reportAll (reports : List Diagnostic) : Tracks table name (reportAll reports) (reportAll reports) :=
  .of_unused fun ran => by
    cases ran
    rfl

instance tracks_report (pos : Position) (problem : Problem) : Tracks table name (report pos problem) (report pos problem) :=
  tracks_reportAll _

instance tracks_failAt (pos : Position) (problem : Problem) : Tracks table name (failAt pos problem) (failAt pos problem) :=
  tracks_bind _ _ _ _

instance tracks_raise (status : PassStatus) : Tracks table name (raise status) (raise status) :=
  .of_unused fun ran => by
    cases ran
    rfl

instance tracks_scope : Tracks table name scope scope :=
  .of_unused fun ran => by
    cases ran
    rfl

theorem tracks_useAliases {names : List String} (accounts : table.Accounts names) :
    Tracks table name (useAliases names) (useAliases names) where
  run ran := by
    cases ran
    exact ⟨SymbolTable.Accounts.nil.union accounts, fun _ => rfl⟩

instance tracks_mapM (f shadow : α → Resolve β) (xs : List α) [∀ x, Steady (f x)] [∀ x, Steady (shadow x)]
    [each : ∀ x, Tracks table name (f x) (shadow x)] : Tracks table name (xs.mapM f) (xs.mapM shadow) := by
  induction xs with
  | nil => exact tracks_pure []
  | cons x xs ih =>
    rw [List.mapM_cons, List.mapM_cons]
    infer_instance

instance tracks_collectMore (more shadow : Resolve (Option (List β))) [Steady more] [Steady shadow]
    [Tracks table name more shadow] (found : Option (List β)) :
    Tracks table name (collectMore more found) (collectMore shadow found) := by
  cases found with
  | none => exact tracks_pure none
  | some found => exact tracks_bind _ _ _ _

instance tracks_collectWhile (f shadow : α → Resolve (Option (List β))) (xs : List α) [∀ x, Steady (f x)]
    [∀ x, Steady (shadow x)] [each : ∀ x, Tracks table name (f x) (shadow x)] :
    Tracks table name (collectWhile f xs) (collectWhile shadow xs) := by
  induction xs with
  | nil => exact tracks_pure _
  | cons x xs ih =>
    rw [collectWhile_cons, collectWhile_cons]
    infer_instance

instance tracks_within (s : Scope) (m avoiding : Resolve α) [inside : Tracks table name m avoiding] :
    Tracks table name (within s m) (within s avoiding) where
  run {s' a q} ran := by
    obtain ⟨⟨b, ended⟩, ranInside, same⟩ := Option.map_eq_some_iff.1 ran
    cases same
    obtain ⟨accounts, follows⟩ := inside.run ranInside
    refine ⟨accounts, fun unused => ?_⟩
    have ranInside : avoiding (.start s) = some (a, ended) := follows unused
    unfold within
    change (avoiding (.start s)).map _ = _
    rw [ranInside]
    rfl

end Resolve

end TypeResolution
