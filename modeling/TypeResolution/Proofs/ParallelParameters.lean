import TypeResolution.Proofs.ArgumentOrder
import TypeResolution.Proofs.Warrants
import TypeResolution.Proofs.YieldedForms

namespace TypeResolution

theorem ArgKind.ofForm?_eq_some_iff {fullname : String} {kind : ArgKind} :
    ofForm? fullname = some kind ↔ (fullname, kind) ∈ argumentForms := by
  unfold ofForm?
  constructor
  · intro found
    obtain ⟨form, atForm, rfl⟩ := Option.map_eq_some_iff.1 found
    have named : form.1 = fullname := by simpa using List.find?_some atForm
    exact named ▸ List.mem_of_find?_eq_some atForm
  · intro member
    simp only [argumentForms, List.mem_cons, List.not_mem_nil, or_false, Prod.mk.injEq] at member
    rcases member with ⟨rfl, rfl⟩ | ⟨rfl, rfl⟩ | ⟨rfl, rfl⟩ | ⟨rfl, rfl⟩ | ⟨rfl, rfl⟩ | ⟨rfl, rfl⟩ <;> rfl

theorem ArgKind.ofForm?_eq_none_iff {fullname : String} :
    ofForm? fullname = none ↔ fullname ∉ argumentForms.map Prod.fst := by
  rw [Option.eq_none_iff_forall_ne_some]
  simp only [ne_eq, ofForm?_eq_some_iff, List.mem_map, Prod.exists, exists_and_right, exists_eq_right, not_exists]

/-- The first name that comes again, where some names were seen before, is one that comes too often. -/
theorem count_of_repeatedName? {seen : List String} {names : List (Option String)} {name : String}
    (again : repeatedName? seen names = some name) : (if name ∈ seen then 0 else 1) < names.count (some name) := by
  induction names generalizing seen with
  | nil => cases again
  | cons first names ih =>
    cases first with
    | none => simpa using ih again
    | some other =>
      rw [repeatedName?] at again
      by_cases before : other ∈ seen
      · obtain rfl : other = name := by simpa [before] using again
        simp [before]
      · have later := ih (by simpa [before] using again)
        by_cases same : other = name
        · subst same
          simpa [before] using later
        · simpa [same, Ne.symm same, List.count_cons] using later

/-- No name comes again exactly if each comes once at most, and those seen before not at all. -/
theorem repeatedName?_eq_none_iff {seen : List String} {names : List (Option String)} :
    repeatedName? seen names = none ↔ ∀ name, names.count (some name) ≤ if name ∈ seen then 0 else 1 := by
  constructor
  · intro never
    induction names generalizing seen with
    | nil => simp
    | cons first names ih =>
      cases first with
      | none => simpa using ih never
      | some other =>
        rw [repeatedName?] at never
        by_cases before : other ∈ seen
        · simp [before] at never
        · intro name
          have later := ih (by simpa [before] using never) name
          by_cases same : other = name
          · subst same
            simpa [before] using later
          · simpa [same, Ne.symm same, List.count_cons] using later
  · intro few
    cases again : repeatedName? seen names with
    | none => rfl
    | some name => exact absurd (few name) (Nat.not_le.2 (count_of_repeatedName? again))

namespace Parameter

variable {table : SymbolTable} {item : Ty}

/-- The items that spoil a list of parameters, with what is reported of them: parameters in the form of a call that name
no form, or one that is not defined, or something that is no form of parameters, or that give a name to `*args` or
`**kwargs`. -/
inductive Spoils (table : SymbolTable) : Ty → Option Diagnostic → Prop
  | formless {type : Ty} {name : Option String} {pos : Position} : Spoils table (.argument type name none pos) none
  | undefined {type : Ty} {name : Option String} {form : String} {pos : Position} : table.lookup form = none →
      Spoils table (.argument type name (some form) pos) (some ⟨pos, .undefinedName form⟩)
  | unknown {type : Ty} {name : Option String} {form : String} {pos : Position} {symbol : Symbol} :
      table.lookup form = some symbol → symbol.fullname ∉ argumentForms.map Prod.fst →
      Spoils table (.argument type name (some form) pos) (some ⟨pos, .unknownArgumentForm symbol.fullname⟩)
  | namedStar {type : Ty} {name form : String} {pos : Position} {symbol : Symbol} {kind : ArgKind} :
      table.lookup form = some symbol → (symbol.fullname, kind) ∈ argumentForms → kind.isStar →
      Spoils table (.argument type (some name) (some form) pos) (some ⟨pos, .namedStarArgument form⟩)

/-- The parameters that the other items stand for. -/
inductive StandsFor (table : SymbolTable) : Ty → Ty → ArgKind → Option String → Prop
  | plain {t : Ty} : (∀ type name form pos, t ≠ .argument type name form pos) → StandsFor table t t .positional none
  | called {type : Ty} {name : Option String} {form : String} {pos : Position} {symbol : Symbol} {kind : ArgKind} :
      table.lookup form = some symbol → (symbol.fullname, kind) ∈ argumentForms → (kind.isStar → name = none) →
      StandsFor table (.argument type name (some form) pos) type kind name

theorem ofItem_eq_error_iff {report : Option Diagnostic} :
    ofItem table item = .error report ↔ Spoils table item report := by
  constructor
  · intro failed
    unfold ofItem at failed
    split at failed
    · rename_i type name form pos
      cases form with
      | none =>
        cases failed
        exact .formless
      | some form =>
        dsimp only at failed
        split at failed
        · rename_i undefined
          cases failed
          exact .undefined undefined
        · rename_i symbol found
          split at failed
          · rename_i unknown
            cases failed
            exact .unknown found (ArgKind.ofForm?_eq_none_iff.1 unknown)
          · rename_i kind known
            split at failed
            · rename_i namedStar
              cases failed
              simp only [Bool.and_eq_true, Option.isSome_iff_exists] at namedStar
              obtain ⟨⟨name, rfl⟩, isStar⟩ := namedStar
              exact .namedStar found (ArgKind.ofForm?_eq_some_iff.1 known) isStar
            · cases failed
    · cases failed
  · intro spoils
    cases spoils with
    | formless => rfl
    | undefined undefined => simp [ofItem, undefined]
    | unknown found unknown => simp [ofItem, found, ArgKind.ofForm?_eq_none_iff.2 unknown]
    | namedStar found known isStar => simp [ofItem, found, ArgKind.ofForm?_eq_some_iff.2 known, isStar]

theorem standsFor_of_ofItem {parameter : Parameter} (read : ofItem table item = .ok parameter) :
    StandsFor table item parameter.type parameter.kind parameter.name := by
  unfold ofItem at read
  split at read
  · rename_i type name form pos
    cases form with
    | none => cases read
    | some form =>
      dsimp only at read
      split at read
      · cases read
      · rename_i symbol found
        split at read
        · cases read
        · rename_i kind known
          split at read
          · cases read
          · rename_i fine
            cases read
            refine .called found (ArgKind.ofForm?_eq_some_iff.1 known) fun isStar => ?_
            simpa [isStar] using fine
  · rename_i notArgument
    cases read
    exact .plain notArgument

/-- An item does not spoil a list exactly if it is read as a parameter. -/
theorem readable_iff : (∃ parameter, ofItem table item = .ok parameter) ↔ ∀ report, ¬ Spoils table item report := by
  constructor
  · rintro ⟨parameter, read⟩ report spoils
    rw [ofItem_eq_error_iff.2 spoils] at read
    cases read
  · intro fine
    cases read : ofItem table item with
    | error report => exact absurd (ofItem_eq_error_iff.1 read) (fine report)
    | ok parameter => exact ⟨parameter, rfl⟩

variable {items : List Ty} {pos : Position}

/-- If no item spoils the list, each stands for a parameter, and the names and kinds are checked. -/
theorem ofItems_of_readable (fine : ∀ item ∈ items, ∀ report, ¬ Spoils table item report) (pos : Position) :
    ∃ parameters, List.Forall₂ (fun item p => StandsFor table item p.type p.kind p.name) items parameters ∧
      ofItems table items pos = (some parameters,
        (checkNames (parameters.map (·.name)) "Callable").toList.map (⟨pos, ·⟩) ++
          (checkKinds (parameters.map (·.kind))).toList.map (⟨pos, ·⟩)) := by
  cases read : items.mapM (ofItem table) with
  | error report =>
    obtain ⟨before, item, after, rfl, _, failed⟩ := first_of_mapM_error read
    exact absurd (ofItem_eq_error_iff.1 failed) (fine item (by simp) report)
  | ok parameters =>
    refine ⟨parameters, (Resolver.ofItems_forall₂ read).imp fun _ _ => standsFor_of_ofItem, ?_⟩
    simp only [ofItems, read, List.map_append]

/-- If an item spoils the list, the first one that does is the only thing that is reported. -/
theorem ofItems_of_spoils {item : Ty} {report : Option Diagnostic} (member : item ∈ items)
    (spoils : Spoils table item report) (pos : Position) :
    ∃ before first report after, items = before ++ first :: after ∧
      (∀ item ∈ before, ∀ report, ¬ Spoils table item report) ∧ Spoils table first report ∧
      ofItems table items pos = (none, report.toList) := by
  cases read : items.mapM (ofItem table) with
  | error report =>
    obtain ⟨before, first, after, rfl, fine, failed⟩ := first_of_mapM_error read
    refine ⟨before, first, report, after, rfl, fun item member => readable_iff.1 (fine item member),
      ofItem_eq_error_iff.1 failed, ?_⟩
    simp only [ofItems, read]
  | ok parameters =>
    obtain ⟨parameter, _, readItem⟩ := forall₂_source (Resolver.ofItems_forall₂ read).flip member
    exact absurd spoils (readable_iff.1 ⟨parameter, readItem⟩ report)

end Parameter

/-- What is reported of names: the duplicate, if there is one. -/
theorem checkNames_cases (names : List (Option String)) (description : String) :
    (∀ name, names.count (some name) ≤ 1) ∧ checkNames names description = none ∨
      ∃ name, 1 < names.count (some name) ∧
        checkNames names description = some (.duplicateArgument name description) := by
  unfold checkNames
  cases again : repeatedName? [] names with
  | none => exact .inl ⟨by simpa using repeatedName?_eq_none_iff.1 again, rfl⟩
  | some name => exact .inr ⟨name, by simpa using count_of_repeatedName? again, rfl⟩

theorem checkKinds_cases (kinds : List ArgKind) :
    kinds ∈ ArgKind.wellOrdered.matches' ∧ checkKinds kinds = none ∨
      kinds ∉ ArgKind.wellOrdered.matches' ∧ ∃ kind : ArgKind, checkKinds kinds = some kind.misplaced := by
  cases checked : checkKinds kinds with
  | none => exact .inl ⟨checkKinds_eq_none_iff.1 checked, rfl⟩
  | some problem =>
    obtain ⟨_, kind, _, _, _, _, rfl⟩ := KindsSeen.firstProblem?_eq_some checked
    refine .inr ⟨fun accepted => ?_, kind, rfl⟩
    rw [checkKinds_eq_none_iff.2 accepted] at checked
    cases checked

/-- There are as many arguments as kinds and names of arguments. -/
structure Signature.Parallel (s : Signature) : Prop where
  kinds : s.kinds.length = s.args.length
  names : s.names.length = s.args.length

namespace Resolver

variable {r : Resolver}

theorem formSignature?_parallel {ref : Reference} {signature : Signature}
    (read : r.formSignature? ref = some signature) : signature.Parallel := by
  unfold formSignature? at read
  dsimp only at read
  split at read
  · cases read
    exact ⟨rfl, rfl⟩
  · obtain ⟨parameters, _, rfl⟩ := Option.map_eq_some_iff.1 read
    exact ⟨by simp [Signature.ofParameters, Signature.of], by simp [Signature.ofParameters, Signature.of]⟩
  · cases read
    exact ⟨rfl, rfl⟩
  · cases read

/-- The arguments of a signature are resolved one by one. -/
theorem signature_parallel {again : Recursion} [again.Steady] {signature s : Signature} (parallel : signature.Parallel)
    {level inner : Nesting} {p q : Progress} (ran : r.signature again signature level inner p = some (.callable s, q)) :
    s.Parallel := by
  have yields : Resolve.Yields (fun _ => True) (r.signature again signature level inner) p.scope (.callable s) :=
    Resolve.yields_of_run ran fun _ _ => trivial
  obtain ⟨_, args, ret, fallback, bindings, each, _, made⟩ := yields_signature yields
  cases made
  exact ⟨parallel.kinds.trans each.length_eq, parallel.names.trans each.length_eq⟩

theorem callableForm_parallel {again : Recursion} [again.Steady] {ref : Reference} {level : Nesting} {p q : Progress}
    {s : Signature} (ran : r.callableForm again ref level p = some (.callable s, q)) : s.Parallel := by
  rw [callableForm_eq] at ran
  change r.formResult again ref level (r.formSignature? ref) { p with reports := p.reports ++ r.formReports ref } =
    some (.callable s, q) at ran
  cases read : r.formSignature? ref with
  | none =>
    rw [read] at ran
    cases ran
  | some signature =>
    rw [read] at ran
    exact signature_parallel (formSignature?_parallel read) ran

end Resolver

open Parameter in
/-- The parameters of a callable. If no item of the list spoils it, it is read as types, kinds and names, of each as many
as there are items and those of one item in one place; a name that comes twice is one error, and an order of the kinds
that is no good is another. Otherwise the first item that spoils it is all that is reported, and there are no parameters.
Whatever a `Callable` is resolved to has as many kinds and names as it has arguments. -/
theorem parameters_parallel (table : SymbolTable) (items : List Ty) (pos : Position) :
    ((∀ item ∈ items, ∀ report, ¬ Spoils table item report) →
      ∃ parameters repeated misplaced, ofItems table items pos = (some parameters, repeated ++ misplaced) ∧
        ∀ ret : Ty, let s := Signature.ofParameters parameters ret
          (s.args.length = items.length ∧ s.kinds.length = items.length ∧ s.names.length = items.length) ∧
          (∀ (i : Nat) (item : Ty), items[i]? = some item → ∃ type kind name, s.args[i]? = some type ∧ s.kinds[i]? = some kind ∧
            s.names[i]? = some name ∧ StandsFor table item type kind name) ∧
          ((∀ name, s.names.count (some name) ≤ 1) ∧ repeated = [] ∨
            ∃ name, 1 < s.names.count (some name) ∧ repeated = [⟨pos, .duplicateArgument name "Callable"⟩]) ∧
          (s.kinds ∈ ArgKind.wellOrdered.matches' ∧ misplaced = [] ∨
            s.kinds ∉ ArgKind.wellOrdered.matches' ∧ ∃ kind : ArgKind, misplaced = [⟨pos, kind.misplaced⟩])) ∧
    (∀ item ∈ items, ∀ report, Spoils table item report →
      ∃ before first report after, items = before ++ first :: after ∧
        (∀ item ∈ before, ∀ report, ¬ Spoils table item report) ∧ Spoils table first report ∧
        ofItems table items pos = (none, report.toList)) ∧
    (∀ report ∈ (ofItems table items pos).2, report.isError) ∧
    (∀ (r : Resolver) (bound : Nat) (ref : Reference) (level : Nesting) (p q : Progress) (s : Signature),
      r.callableForm (r.recursion bound) ref level p = some (.callable s, q) → s.Parallel) := by
  refine ⟨fun fine => ?_, fun item member report spoils => ofItems_of_spoils member spoils pos, fun report member => ?_,
    fun r bound ref level p q s ran => Resolver.callableForm_parallel ran⟩
  · obtain ⟨parameters, each, read⟩ := ofItems_of_readable fine pos
    refine ⟨parameters, _, _, read, fun ret => ⟨?_, fun i item atItem => ?_, ?_, ?_⟩⟩
    · simp [Signature.ofParameters, Signature.of, each.length_eq]
    · obtain ⟨within, rfl⟩ := List.getElem?_eq_some_iff.1 atItem
      have stands := each.get within (each.length_eq ▸ within)
      refine ⟨_, _, _, ?_, ?_, ?_, stands⟩ <;>
        simp [Signature.ofParameters, Signature.of, ← each.length_eq, within]
    · rcases checkNames_cases (parameters.map (·.name)) "Callable" with ⟨apart, none⟩ | ⟨name, twice, some⟩
      · exact .inl ⟨apart, by rw [none]; rfl⟩
      · exact .inr ⟨name, twice, by rw [some]; rfl⟩
    · rcases checkKinds_cases (parameters.map (·.kind)) with ⟨ordered, none⟩ | ⟨misplaced, kind, some⟩
      · exact .inl ⟨ordered, by rw [none]; rfl⟩
      · exact .inr ⟨misplaced, kind, by rw [some]; rfl⟩
  · simp [Diagnostic.isError, Diagnostic.severity, (ofItems_onTheSide table items pos report member).severity]

end TypeResolution
