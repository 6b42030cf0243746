import Mathlib.Data.List.Induction
import TypeResolution.Proofs.Addresses
import TypeResolution.Proofs.Collected

namespace TypeResolution

/-- A type below which no type variables are searched for: a use of one, a literal form, and on behalf of the result of a
signature a callable, or what looks like one that is still to be resolved. -/
inductive Conceals (table : SymbolTable) (scope : Scope) (inResult : Prop) : Ty → Prop
  | variableUse {ref : Reference} {decl : TypeVarDecl} : table.FreeUse scope (ref.name, decl) →
      Conceals table scope inResult (.named ref)
  | literalForm {ref : Reference} {symbol : Symbol} : table.lookup ref.name = some symbol →
      symbol.fullname ∈ literalNames → Conceals table scope inResult (.named ref)
  | callable {s : Signature} : inResult → Conceals table scope inResult (.callable s)
  | someArguments {ref : Reference} {pos : Position} : inResult → ref.args.head? = some (.ellipsis pos) →
      Conceals table scope inResult (.named ref)
  | listedArguments {ref : Reference} {items : List Ty} {pos : Position} : inResult →
      ref.args.head? = some (.bracketed items pos) → Conceals table scope inResult (.named ref)

/-- At this address of a signature a reference uses a type variable that the scope does not bind, and nothing conceals it
on the way there from the argument or the result that it is in. The last of the children of a signature is its result. -/
structure Signature.UsesAt (table : SymbolTable) (scope : Scope) (s : Signature) (use : VariableUse)
    (address : List Nat) : Prop where
  free : table.FreeUse scope use
  written : ∃ ref, (Ty.callable s).at? address = some (.named ref) ∧ ref.name = use.1
  reached (i : Nat) (c : Ty) (below : List Nat) : address = i :: below → (Ty.callable s).children[i]? = some c →
    ∀ t, Ty.OnTheWay c below t → ¬ Conceals table scope (i = s.args.length) t

namespace VariableSearch

variable {search : VariableSearch} {t : Ty}

/-- Whether what is below a type is left out. -/
def closes (search : VariableSearch) : Ty → Bool
  | .named r => (search.found? r).isSome || !search.entersReference r
  | .callable _ => !search.insideCallables
  | _ => false

/-- The use that a type is. -/
def here (search : VariableSearch) : Ty → Option VariableUse
  | .named r => (search.found? r).map (r.name, ·)
  | _ => none

/-- The uses in a type that a search comes to, with their addresses. -/
def uses (search : VariableSearch) : Ty → List (List Nat × VariableUse) :=
  Ty.fold fun t parts => (search.here t).toList.map ([], ·) ++ if search.closes t then [] else numbered parts

theorem found?_eq_some_iff {ref : Reference} {decl : TypeVarDecl} (onlyFree : search.includeBound = false) :
    search.found? ref = some decl ↔ search.table.FreeUse search.scope (ref.name, decl) := by
  refine ⟨freeUse_of_found? onlyFree, fun use => Option.filter_eq_some_iff.2 ⟨use.named, ?_⟩⟩
  simp [onlyFree, use.free]

theorem here_eq_some_iff {use : VariableUse} (onlyFree : search.includeBound = false) :
    search.here t = some use ↔ search.table.FreeUse search.scope use ∧ ∃ ref, t = .named ref ∧ ref.name = use.1 := by
  cases t with
  | named ref =>
    rw [here, Option.map_eq_some_iff]
    constructor
    · rintro ⟨decl, found, rfl⟩
      exact ⟨(found?_eq_some_iff onlyFree).1 found, ref, rfl, rfl⟩
    · obtain ⟨name, decl⟩ := use
      rintro ⟨free, _, ⟨⟩, rfl⟩
      exact ⟨decl, (found?_eq_some_iff onlyFree).2 free, rfl⟩
  | _ => simp [here]

theorem seemsCallable_iff {ref : Reference} : seemsCallable ref = true ↔
    (∃ pos, ref.args.head? = some (.ellipsis pos)) ∨ ∃ items pos, ref.args.head? = some (.bracketed items pos) := by
  unfold seemsCallable
  split <;> simp_all

/-- The types that conceal are those that close a search for what the scope leaves free. -/
theorem closes_iff (onlyFree : search.includeBound = false) :
    search.closes t = true ↔ Conceals search.table search.scope (search.insideCallables = false) t := by
  cases t with
  | named ref =>
    have entered : (!search.entersReference ref) = true ↔
        (search.insideCallables = false ∧ seemsCallable ref = true) ∨
          ∃ symbol, search.table.lookup ref.name = some symbol ∧ symbol.fullname ∈ literalNames := by
      rw [entersReference, Bool.not_and, Bool.not_or, Bool.not_not, Bool.not_not, Bool.or_eq_true, Bool.and_eq_true,
        Bool.not_eq_true', Option.any_eq_true]
      simp only [List.contains_iff_mem]
    rw [closes, Bool.or_eq_true, Option.isSome_iff_exists, entered, seemsCallable_iff]
    constructor
    · rintro (⟨decl, found⟩ | ⟨inResult, ⟨pos, first⟩ | ⟨items, pos, first⟩⟩ | ⟨symbol, found, isLiteral⟩)
      · exact .variableUse ((found?_eq_some_iff onlyFree).1 found)
      · exact .someArguments inResult first
      · exact .listedArguments inResult first
      · exact .literalForm found isLiteral
    · intro conceals
      cases conceals with
      | variableUse free => exact .inl ⟨_, (found?_eq_some_iff onlyFree).2 free⟩
      | someArguments inResult first => exact .inr (.inl ⟨inResult, .inl ⟨_, first⟩⟩)
      | listedArguments inResult first => exact .inr (.inl ⟨inResult, .inr ⟨_, _, first⟩⟩)
      | literalForm found isLiteral => exact .inr (.inr ⟨_, found, isLiteral⟩)
  | callable s =>
    rw [closes, Bool.not_eq_true']
    refine ⟨.callable, fun conceals => ?_⟩
    cases conceals with
    | callable inResult => exact inResult
  | _ =>
    refine iff_of_false Bool.false_ne_true fun conceals => ?_
    cases conceals

/-- No type on the way to the address closes the search. -/
def Reached (search : VariableSearch) (t : Ty) (address : List Nat) : Prop :=
  ∀ x, Ty.OnTheWay t address x → search.closes x = false

/-- The uses are listed that are reached. -/
theorem mem_uses {address : List Nat} {use : VariableUse} :
    (address, use) ∈ search.uses t ↔
      (∃ x, t.at? address = some x ∧ search.here x = some use) ∧ search.Reached t address :=
  Ty.mem_listed

/-- The uses are listed in the order of their addresses. -/
theorem uses_sorted (search : VariableSearch) (t : Ty) : (search.uses t).Pairwise fun a b => a.1 < b.1 :=
  Ty.listed_sorted t

end VariableSearch

/-! Adding names -/

theorem addNewNames_append (known us vs : List VariableUse) :
    addNewNames known (us ++ vs) = addNewNames (addNewNames known us) vs :=
  List.foldl_append

/-- Names are added as elements are that have not been there. -/
theorem map_fst_addNewNames (known us : List VariableUse) :
    (addNewNames known us).map Prod.fst = (us.map Prod.fst).foldl addDistinct (known.map Prod.fst) := by
  unfold addNewNames
  induction us generalizing known with
  | nil => rfl
  | cons use us ih =>
    have first : (if known.any (·.1 == use.1) then known else known ++ [use]).map Prod.fst =
        addDistinct (known.map Prod.fst) use.1 := by
      rw [addDistinct, List.any_map]
      split <;> simp_all
    rw [List.foldl_cons, ih, first, List.map_cons, List.foldl_cons]

theorem addNewNames_singleton_of_mem {known us : List VariableUse} {use kept : VariableUse} (member : kept ∈ us)
    (sameName : kept.1 = use.1) : addNewNames (addNewNames known us) [use] = addNewNames known us := by
  obtain ⟨first, atFirst, same⟩ : ∃ first ∈ addNewNames known us, first.1 = kept.1 := named_of_addNewNames member
  exact if_pos (List.any_eq_true.2 ⟨first, atFirst, by simp [same, sameName]⟩)

/-- It is no matter whether equal uses are left out before names are added. -/
theorem addNewNames_firstOccurrences (known us : List VariableUse) :
    addNewNames known (firstOccurrences us) = addNewNames known us := by
  induction us using List.reverseRecOn with
  | nil => rfl
  | append_singleton us use ih =>
    have added : firstOccurrences (us ++ [use]) = addDistinct (firstOccurrences us) use := by simp [firstOccurrences]
    rw [added, addNewNames_append, ← ih, addDistinct]
    split
    · rename_i there
      obtain ⟨kept, atKept, equal⟩ := List.any_eq_true.1 there
      have sameName : kept.1 = use.1 := by
        have equal : (kept.1 == use.1 && kept.2 == use.2) = true := equal
        simp only [Bool.and_eq_true, beq_iff_eq] at equal
        exact equal.1
      exact (addNewNames_singleton_of_mem atKept sameName).symm
    · exact addNewNames_append ..

/-- What is added from each of some lists is what is added from all of them together. -/
theorem addNewNames_flatMap {f g : Ty → List VariableUse} {ts : List Ty}
    (each : ∀ t ∈ ts, ∀ known, addNewNames known (f t) = addNewNames known (g t)) (known : List VariableUse) :
    addNewNames known (ts.flatMap f) = addNewNames known (ts.flatMap g) := by
  induction ts generalizing known with
  | nil => rfl
  | cons t ts ih =>
    rw [List.flatMap_cons, List.flatMap_cons, addNewNames_append, addNewNames_append, each t List.mem_cons_self]
    exact ih (fun t member => each t (List.mem_cons_of_mem _ member)) _

/-- Among the entries one of `a` comes before all of `b`. -/
def ComesBefore (entries : List (List Nat × VariableUse)) (a b : VariableUse) : Prop :=
  ∃ first, (first, a) ∈ entries ∧ ∀ address, (address, b) ∈ entries → first < address

section ComesBefore

variable {entries : List (List Nat × VariableUse)} {last : List Nat × VariableUse} {a b : VariableUse}

theorem ComesBefore.concat (before : ComesBefore entries a b) (atEnd : ∀ entry ∈ entries, entry.1 < last.1) :
    ComesBefore (entries ++ [last]) a b := by
  obtain ⟨first, atFirst, least⟩ := before
  refine ⟨first, List.mem_append_left _ atFirst, fun address member => ?_⟩
  rcases List.mem_append.1 member with earlier | atLast
  · exact least address earlier
  · obtain rfl := List.mem_singleton.1 atLast
    exact atEnd _ atFirst

theorem comesBefore_last (member : a ∈ entries.map Prod.snd) (new : last.2 ∉ entries.map Prod.snd)
    (atEnd : ∀ entry ∈ entries, entry.1 < last.1) : ComesBefore (entries ++ [last]) a last.2 := by
  obtain ⟨⟨first, _⟩, atFirst, rfl⟩ := List.mem_map.1 member
  refine ⟨first, List.mem_append_left _ atFirst, fun address member => ?_⟩
  rcases List.mem_append.1 member with earlier | atLast
  · exact absurd (List.mem_map_of_mem earlier) new
  · obtain rfl : address = last.1 := congrArg Prod.fst (List.mem_singleton.1 atLast)
    exact atEnd _ atFirst

/-- From uses in the order of their addresses the first of each name is kept. -/
theorem addNewNames_ordered (sorted : entries.Pairwise fun a b => a.1 < b.1) :
    (addNewNames [] (entries.map Prod.snd)).Pairwise (ComesBefore entries) := by
  induction entries using List.reverseRecOn with
  | nil => exact .nil
  | append_singleton entries last ih =>
    obtain ⟨sorted, _, apart⟩ := List.pairwise_append.1 sorted
    have atEnd : ∀ entry ∈ entries, entry.1 < last.1 := fun entry member => apart entry member last (List.mem_singleton_self _)
    have earlier := (ih sorted).imp fun before => ComesBefore.concat before atEnd
    have added : addNewNames [] ((entries ++ [last]).map Prod.snd) =
        let known := addNewNames [] (entries.map Prod.snd)
        if known.any (·.1 == last.2.1) then known else known ++ [last.2] := by
      rw [List.map_append, addNewNames_append]
      rfl
    rw [added]
    dsimp only
    split
    · exact earlier
    · rename_i newName
      refine List.pairwise_append.2 ⟨earlier, List.pairwise_singleton _ _, fun a atKnown b atLast => ?_⟩
      obtain rfl := List.mem_singleton.1 atLast
      refine comesBefore_last ((mem_addNewNames atKnown).resolve_left List.not_mem_nil) (fun there => newName ?_) atEnd
      obtain ⟨kept, atKept, same⟩ : ∃ kept ∈ addNewNames [] (entries.map Prod.snd), kept.1 = last.2.1 :=
        named_of_addNewNames there
      exact List.any_eq_true.2 ⟨kept, atKept, beq_iff_eq.2 same⟩

end ComesBefore

/-! What a signature quantifies over -/

theorem VariableSearch.run_eq_here (search : VariableSearch) (t : Ty) :
    search.run t = (search.here t).toList ++
      if search.closes t then [] else firstOccurrences (t.children.map search.run).flatten := by
  rw [run_eq]
  cases t with
  | named ref =>
    cases found : search.found? ref <;> cases entered : search.entersReference ref <;>
      simp [here, closes, found, entered]
  | callable s => cases inside : search.insideCallables <;> simp [here, closes, inside]
  | _ => rfl

/-- What a search finds adds the same names as all the uses that it comes to. -/
theorem VariableSearch.addNewNames_run (search : VariableSearch) (t : Ty) (known : List VariableUse) :
    addNewNames known (search.run t) = addNewNames known ((search.uses t).map Prod.snd) := by
  induction t using Ty.inductionOn generalizing known with
  | step t ih =>
    have uses : (search.uses t).map Prod.snd = (search.here t).toList ++
        if search.closes t then [] else t.children.flatMap fun c => (search.uses c).map Prod.snd :=
      Ty.map_snd_listed t
    have below (known : List VariableUse) : addNewNames known (firstOccurrences (t.children.map search.run).flatten) =
        addNewNames known (t.children.flatMap fun c => (search.uses c).map Prod.snd) := by
      rw [addNewNames_firstOccurrences, ← List.flatMap_def]
      exact addNewNames_flatMap ih known
    rw [run_eq_here, uses, addNewNames_append, addNewNames_append]
    split
    · rfl
    · exact below _

namespace Signature

variable {table : SymbolTable} {scope : Scope} {s : Signature}

/-- The search in the child of a signature with this number. -/
def searchAt (table : SymbolTable) (scope : Scope) (s : Signature) (i : Nat) : VariableSearch :=
  ⟨table, scope, i != s.args.length, false⟩

/-- The uses of variables that a signature quantifies over, with their addresses. -/
def uses (table : SymbolTable) (scope : Scope) (s : Signature) : List (List Nat × VariableUse) :=
  numbered (s.args.map (VariableSearch.of table scope).uses ++ [(searchAt table scope s s.args.length).uses s.ret])

theorem inferTypeVariables_eq (table : SymbolTable) (scope : Scope) (s : Signature) :
    inferTypeVariables table scope s = addNewNames [] ((s.uses table scope).map Prod.snd) := by
  have limited : searchAt table scope s s.args.length = { VariableSearch.of table scope with insideCallables := false } := by
    simp [searchAt, VariableSearch.of]
  have inArgs : s.args.foldl (fun known arg => addNewNames known ((VariableSearch.of table scope).run arg)) [] =
      addNewNames [] (s.args.flatMap fun arg => ((VariableSearch.of table scope).uses arg).map Prod.snd) := by
    rw [← addNewNames_flatMap fun arg _ => VariableSearch.addNewNames_run _ arg]
    exact List.foldl_flatMap.symm
  rw [inferTypeVariables, inArgs, ← limited, VariableSearch.addNewNames_run, uses, map_snd_numbered, List.flatMap_append,
    List.flatMap_map, List.flatMap_singleton, addNewNames_append]

/-- The uses at the addresses that start with this number. -/
theorem getElem?_uses (i : Nat) :
    (s.args.map (VariableSearch.of table scope).uses ++ [(searchAt table scope s s.args.length).uses s.ret])[i]? =
      (Ty.callable s).children[i]?.map (searchAt table scope s i).uses := by
  rcases Nat.lt_or_ge i s.args.length with inArgs | beyond
  · have unlimited : searchAt table scope s i = VariableSearch.of table scope := by
      simp [searchAt, VariableSearch.of, Nat.ne_of_lt inArgs]
    have atArg : (Ty.callable s).children[i]? = s.args[i]? := List.getElem?_append_left inArgs
    rw [List.getElem?_append_left (by simpa using inArgs), List.getElem?_map, atArg, unlimited]
  · obtain ⟨k, rfl⟩ := Nat.exists_eq_add_of_le beyond
    cases k <;> simp [Ty.children]

theorem searchAt_closes_iff {i : Nat} {t : Ty} :
    (searchAt table scope s i).closes t = true ↔ Conceals table scope (i = s.args.length) t := by
  have inResult : ((searchAt table scope s i).insideCallables = false) = (i = s.args.length) := by simp [searchAt]
  rw [VariableSearch.closes_iff rfl, inResult]
  rfl

theorem mem_uses {address : List Nat} {use : VariableUse} :
    (address, use) ∈ s.uses table scope ↔ s.UsesAt table scope use address := by
  constructor
  · intro member
    obtain ⟨i, below, entries, rfl, atPart, member⟩ := mem_numbered.1 member
    rw [getElem?_uses] at atPart
    obtain ⟨c, atChild, rfl⟩ := Option.map_eq_some_iff.1 atPart
    obtain ⟨⟨x, atX, here⟩, reached⟩ := VariableSearch.mem_uses.1 member
    obtain ⟨free, ref, rfl, sameName⟩ := (VariableSearch.here_eq_some_iff rfl).1 here
    refine ⟨free, ⟨ref, Ty.at?_cons_eq_some_iff.2 ⟨c, atChild, atX⟩, sameName⟩, ?_⟩
    rintro _ c' _ ⟨⟩ atChild' t way conceals
    obtain rfl := Option.some.inj (atChild.symm.trans atChild')
    exact Bool.false_ne_true ((reached t way).symm.trans (searchAt_closes_iff.2 conceals))
  · rintro ⟨free, ⟨ref, atRef, sameName⟩, reached⟩
    cases address with
    | nil => cases atRef
    | cons i below =>
      obtain ⟨c, atChild, atRef⟩ := Ty.at?_cons_eq_some_iff.1 atRef
      refine mem_numbered.2 ⟨i, below, (searchAt table scope s i).uses c, rfl, ?_, VariableSearch.mem_uses.2 ⟨?_, ?_⟩⟩
      · rw [getElem?_uses, atChild, Option.map_some]
      · exact ⟨_, atRef, (VariableSearch.here_eq_some_iff rfl).2 ⟨free, ref, rfl, sameName⟩⟩
      · intro t way
        exact Bool.eq_false_iff.2 fun closed => reached i c below rfl atChild t way (searchAt_closes_iff.1 closed)

theorem uses_sorted (table : SymbolTable) (scope : Scope) (s : Signature) :
    (s.uses table scope).Pairwise fun a b => a.1 < b.1 := by
  refine numbered_sorted fun entries member => ?_
  rcases List.mem_append.1 member with atArg | atRet
  · obtain ⟨arg, _, rfl⟩ := List.mem_map.1 atArg
    exact VariableSearch.uses_sorted _ arg
  · rw [List.mem_singleton.1 atRet]
    exact VariableSearch.uses_sorted _ s.ret

theorem mem_inferTypeVariables_iff {use : VariableUse} :
    use ∈ inferTypeVariables table scope s ↔ ∃ address, s.UsesAt table scope use address := by
  have used_iff : use ∈ (s.uses table scope).map Prod.snd ↔ ∃ address, s.UsesAt table scope use address := by
    simp only [List.mem_map, Prod.exists, exists_eq_right, mem_uses]
  rw [← used_iff, inferTypeVariables_eq]
  refine ⟨fun member => (mem_addNewNames member).resolve_left List.not_mem_nil, fun member => ?_⟩
  -- the name is there, and it has only one declaration
  obtain ⟨kept, atKept, sameName⟩ : ∃ kept ∈ addNewNames [] ((s.uses table scope).map Prod.snd), kept.1 = use.1 :=
    named_of_addNewNames member
  obtain ⟨_, used⟩ := used_iff.1 member
  have free : table.FreeUse scope kept := freeUse_of_mem_inferTypeVariables (inferTypeVariables_eq table scope s ▸ atKept)
  have sameDecl : kept.2 = use.2 := Option.some.inj (free.named.symm.trans (sameName ▸ used.free.named))
  exact Prod.ext sameName sameDecl ▸ atKept

/-- A signature quantifies over exactly those variables of the table that are used in it, outside of what conceals them,
and not bound by the scope. None is listed twice, and they are in the order of their first uses. -/
theorem quantified_exactly (table : SymbolTable) (scope : Scope) (s : Signature) :
    ((inferTypeVariables table scope s).map Prod.fst).Nodup ∧
    (∀ use, use ∈ inferTypeVariables table scope s ↔ ∃ address, s.UsesAt table scope use address) ∧
    (inferTypeVariables table scope s).Pairwise fun a b => ∃ first, s.UsesAt table scope a first ∧
      ∀ address, s.UsesAt table scope b address → first < address := by
  refine ⟨?_, fun use => mem_inferTypeVariables_iff, ?_⟩
  · rw [inferTypeVariables_eq, map_fst_addNewNames]
    exact (foldl_addDistinct_distinct .nil).imp fun apart => beq_eq_false_iff_ne.1 apart
  · rw [inferTypeVariables_eq]
    refine (addNewNames_ordered (s.uses_sorted table scope)).imp ?_
    rintro a b ⟨first, atFirst, least⟩
    exact ⟨first, mem_uses.1 atFirst, fun address atAddress => least address (mem_uses.2 atAddress)⟩

end Signature

end TypeResolution
