import TypeResolution.Proofs.Prelude

namespace TypeResolution

namespace SymbolTable

/-- A name that stands for a class to come in the first table and for the class in the second. -/
def Comes (before after : SymbolTable) (fullname : String) (decl : ClassDecl) : Prop :=
  ∃ kind kind', before.find? fullname = some ⟨kind, fullname, some (.pendingDef ⟨fullname, true⟩)⟩ ∧
    after.find? fullname = some ⟨kind', fullname, some (.classDef decl)⟩ ∧ decl.fullname = fullname

/-- Two tables of which the second is the first after some classes have come, with more passes to follow on either. What is
not analysed yet is entered under its own name. -/
structure Matures (before after : SymbolTable) : Prop where
  module : after.module = before.module
  imports : after.imports = before.imports
  incomplete : after.incomplete = before.incomplete
  entry (fullname : String) : after.find? fullname = before.find? fullname ∨ ∃ decl, before.Comes after fullname decl
  notFinal : before.finalPass = false
  notFinal' : after.finalPass = false
  own {fullname : String} {symbol : Symbol} {decl : PendingDecl} : before.find? fullname = some symbol →
    symbol.definition = some (.pendingDef decl) → decl.fullname = fullname

/-- The class that has come under a name. -/
def arrived? (before after : SymbolTable) (fullname : String) : Option ClassDecl :=
  if (before.find? fullname).any Symbol.isPending then after.findClass? fullname else none

/-- A class that was there does not come. -/
theorem not_arrived_of_class {before after : SymbolTable} {fullname : String} {decl : ClassDecl}
    (found : before.findClass? fullname = some decl) : before.arrived? after fullname = none := by
  unfold arrived?
  unfold findClass? at found
  split at found
  · rename_i atName
    obtain ⟨symbol, is, defined⟩ := Option.bind_eq_some_iff.1 atName
    simp [is, Symbol.isPending, defined]
  · cases found

namespace Matures

variable {before after : SymbolTable}

theorem arrived_of_comes {fullname : String} {decl : ClassDecl} (comes : before.Comes after fullname decl) :
    before.arrived? after fullname = some decl := by
  obtain ⟨kind, kind', was, is, _⟩ := comes
  simp [arrived?, findClass?, was, is, Symbol.isPending]

variable (matures : before.Matures after)

include matures

theorem comes_of_arrived {fullname : String} {decl : ClassDecl} (come : before.arrived? after fullname = some decl) :
    before.Comes after fullname decl := by
  rcases matures.entry fullname with same | ⟨decl', comes⟩
  · unfold arrived? findClass? at come
    rw [same] at come
    cases found : before.find? fullname with
    | none => simp [found] at come
    | some symbol =>
      obtain ⟨kind, name, definition⟩ := symbol
      cases definition with
      | none => simp [found, Symbol.isPending] at come
      | some d => cases d <;> simp [found, Symbol.isPending] at come
  · rw [arrived_of_comes comes] at come
    cases come
    exact comes

/-- A name means the same in both tables, or the class that has come. -/
theorem lookup_cases (name : String) :
    (after.lookup name = before.lookup name ∧ ∀ symbol decl, before.lookup name = some symbol →
      symbol.definition = some (.pendingDef decl) → before.arrived? after decl.fullname = none) ∨
    ∃ fullname decl kind kind', before.lookup name = some ⟨kind, fullname, some (.pendingDef ⟨fullname, true⟩)⟩ ∧
      after.lookup name = some ⟨kind', fullname, some (.classDef decl)⟩ ∧ before.arrived? after fullname = some decl := by
  have sameNames : after.candidates name = before.candidates name := by
    unfold candidates
    rw [matures.module, matures.imports]
  unfold lookup
  rw [sameNames]
  induction before.candidates name with
  | nil => exact .inl ⟨rfl, nofun⟩
  | cons fullname rest ih =>
    simp only [List.findSome?_cons]
    rcases matures.entry fullname with same | ⟨decl, comes⟩
    · rw [same]
      cases found : before.find? fullname with
      | none => exact ih
      | some symbol =>
        refine .inl ⟨rfl, fun symbol' decl here pending => ?_⟩
        cases here
        rw [matures.own found pending]
        unfold arrived? findClass?
        rw [same, found, Option.bind_some, pending]
        simp
    · obtain ⟨kind, kind', was, is, _⟩ := id comes
      rw [was, is]
      exact .inr ⟨fullname, decl, kind, kind', rfl, rfl, arrived_of_comes comes⟩

theorem lookup_fullname (name : String) : (after.lookup name).map (·.fullname) = (before.lookup name).map (·.fullname) := by
  rcases matures.lookup_cases name with ⟨same, _⟩ | ⟨fullname, decl, kind, kind', was, is, _⟩
  · rw [same]
  · rw [was, is]
    rfl

theorem lookupTypeVar?_eq (name : String) : after.lookupTypeVar? name = before.lookupTypeVar? name := by
  unfold lookupTypeVar?
  rcases matures.lookup_cases name with ⟨same, _⟩ | ⟨fullname, decl, kind, kind', was, is, _⟩
  · rw [same]
  · rw [was, is]
    rfl

theorem find?_eq {fullname : String} (absent : before.arrived? after fullname = none) :
    after.find? fullname = before.find? fullname := by
  rcases matures.entry fullname with same | ⟨decl, comes⟩
  · exact same
  · rw [arrived_of_comes comes] at absent
    cases absent

theorem findClass?_eq {fullname : String} (absent : before.arrived? after fullname = none) :
    after.findClass? fullname = before.findClass? fullname := by
  unfold findClass?
  rw [matures.find?_eq absent]

theorem ofItems_eq (items : List Ty) (pos : Position) : Parameter.ofItems after items pos = Parameter.ofItems before items pos := by
  have each (item : Ty) : Parameter.ofItem after item = Parameter.ofItem before item := by
    unfold Parameter.ofItem
    split
    · split
      · rfl
      · rename_i form
        have same := matures.lookup_fullname form
        cases was : before.lookup form <;> cases is : after.lookup form <;> rw [was, is] at same <;>
          simp_all
    · rfl
  have same : Parameter.ofItem after = Parameter.ofItem before := funext each
  unfold Parameter.ofItems
  rw [same]

theorem any_lookup_eq (name : String) (P : String → Bool) :
    (after.lookup name).any (fun s => P s.fullname) = (before.lookup name).any fun s => P s.fullname := by
  have same := matures.lookup_fullname name
  cases was : before.lookup name <;> cases is : after.lookup name <;> rw [was, is] at same <;> simp_all

theorem search_eq (search : VariableSearch) (t : Ty) : { search with table := after }.run t = { search with table := before }.run t := by
  have found (ref : Reference) : { search with table := after }.found? ref = { search with table := before }.found? ref := by
    simp only [VariableSearch.found?, matures.lookupTypeVar?_eq]
  have enters (ref : Reference) :
      { search with table := after }.entersReference ref = { search with table := before }.entersReference ref := by
    simp only [VariableSearch.entersReference, matures.any_lookup_eq ref.name literalNames.contains]
  unfold VariableSearch.run
  congr 1
  funext t parts
  cases t with
  | named ref => simp only [found, enters]
  | _ => rfl

theorem inferTypeVariables_eq (scope : Scope) (signature : Signature) :
    inferTypeVariables after scope signature = inferTypeVariables before scope signature := by
  have same (insideCallables : Bool) (t : Ty) := matures.search_eq ⟨before, scope, insideCallables, false⟩ t
  simp only [inferTypeVariables, VariableSearch.of, same]

theorem bindUses_eq (pos : Position) (scope : Scope) (uses : List VariableUse) :
    scope.bindUses after pos uses = scope.bindUses before pos uses := by
  have sameBound (scope : Scope) (name : String) : scope.bindsName after name = scope.bindsName before name :=
    matures.any_lookup_eq name fun fullname => (scope.find? fullname).isSome
  induction uses generalizing scope with
  | nil => rfl
  | cons use uses ih => simp only [Scope.bindUses, sameBound, ih]

theorem bindSignature_eq (scope : Scope) (signature : Signature) :
    scope.bindSignature after signature = scope.bindSignature before signature := by
  have sameDeclared (scope : Scope) (binding : TypeVarBinding) :
      scope.bindDeclared after binding = scope.bindDeclared before binding := by
    unfold Scope.bindDeclared
    rw [matures.lookupTypeVar?_eq]
  have same : Scope.bindDeclared after = Scope.bindDeclared before := by
    funext scope binding
    exact sameDeclared scope binding
  unfold Scope.bindSignature
  rw [matures.inferTypeVariables_eq, matures.bindUses_eq, same]

end Matures

end SymbolTable

end TypeResolution
