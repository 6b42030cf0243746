import TypeResolution.Proofs.Frames
import TypeResolution.Proofs.Inside

namespace TypeResolution

/-- A use of a type variable of the table that the scope does not bind. -/
structure SymbolTable.FreeUse (table : SymbolTable) (scope : Scope) (use : VariableUse) : Prop where
  named : table.lookupTypeVar? use.1 = some use.2
  free : scope.find? use.2.fullname = none

theorem SymbolTable.holds_of_lookupTypeVar? {table : SymbolTable} {name : String} {decl : TypeVarDecl}
    (found : table.lookupTypeVar? name = some decl) : table.Holds (.typeVarDef decl) := by
  unfold lookupTypeVar? at found
  split at found
  · rename_i decl' defined
    cases found
    obtain ⟨symbol, atName, atSymbol⟩ := Option.bind_eq_some_iff.1 defined
    exact holds_of_lookup atName atSymbol
  · cases found

namespace VariableSearch

variable {search : VariableSearch}

theorem run_eq (search : VariableSearch) (t : Ty) :
    search.run t =
      match t with
      | .named r =>
        match search.found? r with
        | some decl => [(r.name, decl)]
        | none => if search.entersReference r then firstOccurrences (t.children.map search.run).flatten else []
      | .callable _ => if search.insideCallables then firstOccurrences (t.children.map search.run).flatten else []
      | _ => firstOccurrences (t.children.map search.run).flatten := by
  refine (Ty.fold_eq _ t).trans ?_
  cases t <;> rfl

theorem freeUse_of_found? (onlyFree : search.includeBound = false) {ref : Reference} {decl : TypeVarDecl}
    (found : search.found? ref = some decl) : search.table.FreeUse search.scope (ref.name, decl) := by
  obtain ⟨named, free⟩ := Option.filter_eq_some_iff.1 found
  refine ⟨named, ?_⟩
  rw [onlyFree] at free
  simpa using free

/-- What a search finds stands in the type. -/
theorem found_of_mem_run {t : Ty} {use : VariableUse} (member : use ∈ search.run t) :
    ∃ ref decl, Ty.Inside (.named ref) t ∧ search.found? ref = some decl ∧ use = (ref.name, decl) := by
  induction t using Ty.inductionOn with
  | step t ih =>
    have below (inParts : use ∈ firstOccurrences (t.children.map search.run).flatten) :
        ∃ ref decl, Ty.Inside (.named ref) t ∧ search.found? ref = some decl ∧ use = (ref.name, decl) := by
      obtain ⟨uses, atPart, member⟩ := List.mem_flatten.1 (mem_of_mem_firstOccurrences inParts)
      obtain ⟨c, atChild, rfl⟩ := List.mem_map.1 atPart
      obtain ⟨ref, decl, inside, found⟩ := ih c atChild member
      exact ⟨ref, decl, .child atChild inside, found⟩
    rw [run_eq] at member
    split at member
    · rename_i ref
      split at member
      · rename_i decl found
        exact ⟨ref, decl, .here, found, List.mem_singleton.1 member⟩
      · split at member
        · exact below member
        · cases member
    · split at member
      · exact below member
      · cases member
    · exact below member

/-- A search that leaves out what is bound finds free uses only. -/
theorem freeUse_of_mem_run (onlyFree : search.includeBound = false) {t : Ty} {use : VariableUse}
    (member : use ∈ search.run t) : search.table.FreeUse search.scope use := by
  obtain ⟨ref, decl, _, found, rfl⟩ := found_of_mem_run member
  exact freeUse_of_found? onlyFree found

end VariableSearch

theorem mem_addNewNames {known uses : List VariableUse} {use : VariableUse} (member : use ∈ addNewNames known uses) :
    use ∈ known ∨ use ∈ uses := by
  unfold addNewNames at member
  induction uses generalizing known with
  | nil => exact .inl member
  | cons first uses ih =>
    rw [List.foldl_cons] at member
    rcases ih member with before | later
    · split at before
      · exact .inl before
      · rcases List.mem_append.1 before with before | atFirst
        · exact .inl before
        · exact .inr (List.mem_singleton.1 atFirst ▸ List.mem_cons_self)
    · exact .inr (List.mem_cons_of_mem first later)

/-- Any variable of a signature is found by one of the two searches in one of its parts. -/
theorem search_of_mem_inferTypeVariables {table : SymbolTable} {scope : Scope} {signature : Signature} {use : VariableUse}
    (member : use ∈ inferTypeVariables table scope signature) :
    ∃ c ∈ (Ty.callable signature).children, ∃ insideCallables : Bool,
      use ∈ (⟨table, scope, insideCallables, false⟩ : VariableSearch).run c := by
  have ofArgs (args : List Ty) (known : List VariableUse)
      (atUse : use ∈ args.foldl (fun known arg => addNewNames known ((VariableSearch.of table scope).run arg)) known) :
      use ∈ known ∨ ∃ arg ∈ args, use ∈ (VariableSearch.of table scope).run arg := by
    induction args generalizing known with
    | nil => exact .inl atUse
    | cons arg args ih =>
      rcases ih _ atUse with before | ⟨later, atLater, found⟩
      · exact (mem_addNewNames before).imp_right fun found => ⟨arg, List.mem_cons_self, found⟩
      · exact .inr ⟨later, List.mem_cons_of_mem arg atLater, found⟩
  rcases mem_addNewNames member with inArgs | inRet
  · rcases ofArgs signature.args [] inArgs with impossible | ⟨arg, atArg, found⟩
    · cases impossible
    · exact ⟨arg, List.mem_append_left _ atArg, true, found⟩
  · exact ⟨signature.ret, List.mem_append_right _ (List.mem_singleton_self _), false, inRet⟩

theorem freeUse_of_mem_inferTypeVariables {table : SymbolTable} {scope : Scope} {signature : Signature}
    {use : VariableUse} (member : use ∈ inferTypeVariables table scope signature) : table.FreeUse scope use := by
  obtain ⟨_, _, _, found⟩ := search_of_mem_inferTypeVariables member
  exact VariableSearch.freeUse_of_mem_run rfl found

/-- A signature without a reference to a free type variable has no variables of its own. -/
theorem inferTypeVariables_eq_nil {table : SymbolTable} {scope : Scope} {signature : Signature}
    (noUse : ∀ ref decl, Ty.Inside (.named ref) (.callable signature) → ¬ table.FreeUse scope (ref.name, decl)) :
    inferTypeVariables table scope signature = [] := by
  refine List.eq_nil_iff_forall_not_mem.2 fun use member => ?_
  obtain ⟨c, atChild, _, found⟩ := search_of_mem_inferTypeVariables member
  obtain ⟨ref, decl, inside, _, rfl⟩ := VariableSearch.found_of_mem_run found
  exact noUse ref decl (.child atChild inside) (freeUse_of_mem_inferTypeVariables member)

namespace Scope

variable {s : Scope} {table : SymbolTable} {pos : Position}

theorem mem_bindings_bindUses {uses : List VariableUse} {binding : TypeVarBinding}
    (member : binding ∈ (s.bindUses table pos uses).bindings) :
    ∃ use ∈ uses, ∃ s' : Scope, binding = s'.freshBinding use.1 use.2 := by
  induction uses generalizing s with
  | nil => cases member
  | cons use uses ih =>
    obtain ⟨used, decl⟩ := use
    by_cases bound : s.bindsName table used = true
    · simp only [bindUses, bound, if_true] at member
      obtain ⟨use, atUse, fresh⟩ := ih member
      exact ⟨use, List.mem_cons_of_mem _ atUse, fresh⟩
    · simp only [bindUses, bound, Bool.false_eq_true, if_false, List.mem_cons] at member
      rcases member with rfl | member
      · exact ⟨(used, decl), List.mem_cons_self, s, rfl⟩
      · obtain ⟨use, atUse, fresh⟩ := ih member
        exact ⟨use, List.mem_cons_of_mem _ atUse, fresh⟩

/-- What is made for a use is bound in the end. -/
theorem find?_of_mem_bindUses {uses : List VariableUse} {binding : TypeVarBinding}
    (member : binding ∈ (s.bindUses table pos uses).bindings) :
    ((s.bindUses table pos uses).scope.find? binding.fullname).isSome := by
  induction uses generalizing s with
  | nil => cases member
  | cons use uses ih =>
    obtain ⟨used, decl⟩ := use
    by_cases bound : s.bindsName table used = true
    · simp only [bindUses, bound, if_true] at member ⊢
      exact ih member
    · simp only [bindUses, bound, Bool.false_eq_true, if_false, List.mem_cons] at member ⊢
      rcases member with rfl | member
      · refine bindUses_bindsAllOf pos uses _ _ ?_
        rw [find?_eq]
        have inserted : (s.bindNew used decl).bindings.find? decl.fullname = some (s.freshBinding used decl) :=
          NameMap.find?_insert_self _ _ _
        change (((s.bindNew used decl).bindings.find? decl.fullname).or _).isSome
        rw [inserted]
        rfl
      · exact ih member

end Scope

end TypeResolution
