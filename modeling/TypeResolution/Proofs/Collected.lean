import TypeResolution.Proofs.BoundRun
import TypeResolution.Proofs.Equality
import TypeResolution.Proofs.WellScoped

namespace TypeResolution

instance : ReflBEq TypeVarDecl where
  rfl {decl} := by
    have values : Ty.beqList decl.values decl.values = true :=
      Ty.beqList_iff.2 (forall₂_refl_of fun t _ => beq_self_eq_true t)
    change (_ && _ && _ && _) = true
    simp [values]

namespace SymbolTable

/-- What the collector of type variables counts on: entries go by the names of their definitions, and neither the bases
of classes nor the values and bounds of type variables refer to a type variable. -/
structure VariablesApart (table : SymbolTable) : Prop where
  ownName {fullname : String} {symbol : Symbol} {d : Definition} : table.find? fullname = some symbol →
    symbol.definition = some d → symbol.fullname = d.fullname
  tupleBase {decl : ClassDecl} {base : TupleShape} : table.Holds (.classDef decl) → decl.tupleBase = some base →
    ∀ t ∈ base.items, t.Throughout table.NoVariable
  recordBase {decl : ClassDecl} {base : RecordShape} : table.Holds (.classDef decl) → decl.recordBase = some base →
    ∀ field ∈ base.fields, field.2.Throughout table.NoVariable
  values {decl : TypeVarDecl} : table.Holds (.typeVarDef decl) → ∀ v ∈ decl.values, v.Throughout table.NoVariable
  upperBound {decl : TypeVarDecl} : table.Holds (.typeVarDef decl) → decl.upperBound.Throughout table.NoVariable

/-- The targets of aliases refer to no type variables besides formals, either, and `Callable` is not still to become a
class. -/
structure Collectable (table : SymbolTable) : Prop extends table.VariablesApart where
  target {decl : AliasDecl} : table.Holds (.aliasDef decl) →
    decl.TargetAllows fun t => table.NoVariable t ∧ Resolver.DeclaresThroughout table.NoVariable t
  callable {fullname : String} {symbol : Symbol} {decl : PendingDecl} : table.find? fullname = some symbol →
    symbol.fullname = "typing.Callable" → symbol.definition = some (.pendingDef decl) →
    table.finalPass ∨ decl.becomesClass = false

theorem Collectable.throughout {r : Resolver} (collectable : r.table.Collectable) :
    r.TableThroughout r.table.NoVariable r.table.NoVariable where
  target := collectable.target
  tupleBase := collectable.tupleBase
  recordBase := collectable.recordBase
  values := collectable.values
  upperBound := collectable.upperBound

theorem find?_of_lookup {table : SymbolTable} {name : String} {symbol : Symbol} (found : table.lookup name = some symbol) :
    ∃ fullname, table.find? fullname = some symbol := by
  obtain ⟨fullname, _, atName⟩ := List.exists_of_findSome?_eq_some found
  exact ⟨fullname, atName⟩

theorem VariablesApart.ownVariable {table : SymbolTable} (apart : table.VariablesApart) {name : String} {symbol : Symbol}
    {decl : TypeVarDecl} (found : table.lookup name = some symbol) (defined : symbol.definition = some (.typeVarDef decl)) :
    symbol.fullname = decl.fullname := by
  obtain ⟨fullname, atName⟩ := find?_of_lookup found
  exact apart.ownName atName defined

end SymbolTable

/-! What a search finds, the scope binds -/

namespace VariableSearch

variable {search : VariableSearch} {s : Scope} {t : Ty}

/-- The scope binds all variables that are found in the type. -/
def FindsBound (search : VariableSearch) (t : Ty) (s : Scope) : Prop :=
  ∀ use ∈ search.run t, (s.find? use.2.fullname).isSome

/-- What is found in a part is found in the whole. -/
theorem FindsBound.part (finds : search.FindsBound t s)
    (searched : search.run t = firstOccurrences (t.children.map search.run).flatten) :
    ∀ c ∈ t.children, search.FindsBound c s := by
  intro c member use atPart
  have together : use ∈ (t.children.map search.run).flatten :=
    List.mem_flatten.2 ⟨_, List.mem_map_of_mem member, atPart⟩
  obtain ⟨kept, atKept, equal⟩ := kept_of_mem together
  rw [← searched] at atKept
  have sameName : kept.2.fullname = use.2.fullname := by
    have equal : (kept.1 == use.1 && (kept.2.fullname == use.2.fullname && _ && _ && _)) = true := equal
    simp only [Bool.and_eq_true, beq_iff_eq] at equal
    exact equal.2.1.1.1
  rw [← sameName]
  exact finds kept atKept

theorem findsBound_of_leaf (searched : search.run t = firstOccurrences (t.children.map search.run).flatten)
    (leaf : t.children = []) : search.FindsBound t s := by
  intro use member
  rw [searched, leaf] at member
  cases member

theorem findsBound_of_parts (searched : search.run t = firstOccurrences (t.children.map search.run).flatten)
    (parts : ∀ c ∈ t.children, search.FindsBound c s) : search.FindsBound t s := by
  intro use member
  rw [searched] at member
  obtain ⟨uses, atPart, member⟩ := List.mem_flatten.1 (mem_of_mem_firstOccurrences member)
  obtain ⟨c, atChild, rfl⟩ := List.mem_map.1 atPart
  exact parts c atChild use member

end VariableSearch

theorem mem_addNewNames_of_known {known uses : List VariableUse} {use : VariableUse} (member : use ∈ known) :
    use ∈ addNewNames known uses := by
  unfold addNewNames
  induction uses generalizing known with
  | nil => exact member
  | cons first uses ih =>
    rw [List.foldl_cons]
    refine ih ?_
    split
    · exact member
    · exact List.mem_append_left _ member

/-- Of the uses that are added each is there in the end, by its name. -/
theorem named_of_addNewNames {known uses : List VariableUse} {use : VariableUse} (member : use ∈ uses) :
    ∃ kept ∈ addNewNames known uses, kept.1 = use.1 := by
  induction uses generalizing known with
  | nil => cases member
  | cons first uses ih =>
    have step : addNewNames known (first :: uses) =
        addNewNames (if known.any (·.1 == first.1) then known else known ++ [first]) uses := rfl
    rw [step]
    rcases List.mem_cons.1 member with rfl | member
    · split
      · rename_i there
        obtain ⟨kept, atKept, same⟩ := List.any_eq_true.1 there
        exact ⟨kept, mem_addNewNames_of_known atKept, by simpa using same⟩
      · exact ⟨use, mem_addNewNames_of_known (List.mem_append_right _ (List.mem_singleton_self _)), rfl⟩
    · exact ih member

theorem named_of_foldl_addNewNames {f : Ty → List VariableUse} {args : List Ty} {known : List VariableUse} {arg : Ty}
    {use : VariableUse} (atArg : arg ∈ args) (member : use ∈ f arg) :
    ∃ kept ∈ args.foldl (fun known arg => addNewNames known (f arg)) known, kept.1 = use.1 := by
  have grows (args : List Ty) {known : List VariableUse} {kept : VariableUse} (atKept : kept ∈ known) :
      kept ∈ args.foldl (fun known arg => addNewNames known (f arg)) known := by
    induction args generalizing known with
    | nil => exact atKept
    | cons arg args ih => exact ih (mem_addNewNames_of_known atKept)
  induction args generalizing known with
  | nil => cases atArg
  | cons first args ih =>
    rw [List.foldl_cons]
    rcases List.mem_cons.1 atArg with rfl | atArg
    · obtain ⟨kept, atKept, same⟩ := named_of_addNewNames member
      exact ⟨kept, grows args atKept, same⟩
    · exact ih atArg

namespace Scope

variable {s : Scope} {table : SymbolTable} {pos : Position}

/-- Each use of a variable is bound in the end. -/
theorem bindUses_binds (apart : table.VariablesApart) {uses : List VariableUse}
    (named : ∀ use ∈ uses, table.lookupTypeVar? use.1 = some use.2) :
    ∀ use ∈ uses, ((s.bindUses table pos uses).scope.find? use.2.fullname).isSome := by
  induction uses generalizing s with
  | nil => exact nofun
  | cons first uses ih =>
    obtain ⟨used, decl⟩ := first
    have rest (s : Scope) := ih (s := s) fun use member => named use (List.mem_cons_of_mem _ member)
    have atFirst : table.lookupTypeVar? used = some decl := named (used, decl) List.mem_cons_self
    intro use member
    by_cases bound : s.bindsName table used = true
    · simp only [bindUses, bound, if_true]
      rcases List.mem_cons.1 member with rfl | member
      · obtain ⟨symbol, found, defined⟩ := SymbolTable.lookupTypeVar?_eq_some_iff.1 atFirst
        rw [bindsName, found, Option.any_some, apart.ownVariable found defined] at bound
        exact bindUses_bindsAllOf pos uses s _ bound
      · exact rest s use member
    · simp only [bindUses, bound, Bool.false_eq_true, if_false]
      rcases List.mem_cons.1 member with rfl | member
      · refine bindUses_bindsAllOf pos uses _ _ ?_
        have inserted : (s.bindNew used decl).bindings.find? decl.fullname = some (s.freshBinding used decl) :=
          NameMap.find?_insert_self _ _ _
        rw [find?_eq, inserted]
        rfl
      · exact rest _ use member

end Scope

namespace Resolver

variable {r : Resolver} {s : Scope} {signature : Signature}

/-- What is collected in a signature without variables of its own is bound inside of it. -/
theorem innerScope_binds (using_ : r.flags.definingAlias = false) (apart : r.table.VariablesApart)
    (undeclared : signature.bindings = []) {use : VariableUse}
    (free : r.table.FreeUse s.functionFrame use)
    (collected : ∃ kept ∈ inferTypeVariables r.table s.functionFrame signature, kept.1 = use.1) :
    ((r.innerScope s signature).find? use.2.fullname).isSome := by
  obtain ⟨kept, atKept, sameName⟩ := collected
  have named (use : VariableUse) (member : use ∈ inferTypeVariables r.table s.functionFrame signature) :
      r.table.lookupTypeVar? use.1 = some use.2 := (freeUse_of_mem_inferTypeVariables member).named
  have sameDecl : kept.2 = use.2 := by
    have atKept := named kept atKept
    rw [sameName, free.named] at atKept
    exact (Option.some.inj atKept).symm
  simp only [innerScope, using_, Scope.bindSignature, undeclared, List.isEmpty_nil, if_true, Bool.false_eq_true, if_false]
  rw [← sameDecl]
  exact Scope.bindUses_binds apart named kept atKept

/-- The arguments of a signature are searched with the callables in them. -/
theorem innerScope_findsBound_args (using_ : r.flags.definingAlias = false) (apart : r.table.VariablesApart)
    (undeclared : signature.bindings = []) :
    ∀ arg ∈ signature.args, (VariableSearch.of r.table s.functionFrame).FindsBound arg (r.innerScope s signature) := by
  intro arg atArg use member
  have free : r.table.FreeUse s.functionFrame use :=
    (VariableSearch.of r.table s.functionFrame).freeUse_of_mem_run rfl member
  refine innerScope_binds using_ apart undeclared free ?_
  obtain ⟨kept, atKept, same⟩ := named_of_foldl_addNewNames atArg member
  exact ⟨kept, mem_addNewNames_of_known atKept, same⟩

/-- The result of a signature is searched without the callables in it. -/
theorem innerScope_findsBound_ret (using_ : r.flags.definingAlias = false) (apart : r.table.VariablesApart)
    (undeclared : signature.bindings = []) :
    (⟨r.table, s.functionFrame, false, false⟩ : VariableSearch).FindsBound signature.ret (r.innerScope s signature) := by
  intro use member
  have free : r.table.FreeUse s.functionFrame use :=
    (⟨r.table, s.functionFrame, false, false⟩ : VariableSearch).freeUse_of_mem_run rfl member
  exact innerScope_binds using_ apart undeclared free (named_of_addNewNames member)

/-- What is found in the arguments of `Callable` is bound inside of the signature that they stand for. -/
theorem innerScope_findsBound_form (using_ : r.flags.definingAlias = false) (apart : r.table.VariablesApart)
    {ref : Reference} (read : r.formSignature? ref = some signature) : ∀ c ∈ ref.args, ∃ inside,
      (⟨r.table, s.functionFrame, inside, false⟩ : VariableSearch).FindsBound c (r.innerScope s signature) := by
  have undeclared := formSignature?_bindings read
  have inArgs := innerScope_findsBound_args (s := s) using_ apart undeclared
  have inRet := innerScope_findsBound_ret (s := s) using_ apart undeclared
  intro c member
  unfold formSignature? at read
  dsimp only at read
  split at read
  · rename_i atArgs
    rw [atArgs] at member
    cases member
  · rename_i items pos ret atArgs
    rw [atArgs] at member
    obtain ⟨parameters, given, same⟩ := Option.map_eq_some_iff.1 read
    rcases List.mem_cons.1 member with rfl | member
    · refine ⟨true, VariableSearch.findsBound_of_parts (VariableSearch.run_eq _ _) fun item atItem => ?_⟩
      obtain ⟨parameter, atParameter, made⟩ := forall₂_source (ofItems_forall₂ (ofItems_eq_some given)).flip atItem
      have searched : (VariableSearch.of r.table s.functionFrame).FindsBound parameter.type (r.innerScope s signature) := by
        refine inArgs _ ?_
        rw [← same]
        exact List.mem_map_of_mem atParameter
      rcases ofItem_part made with sameItem | ⟨name, form, at_, sameItem⟩
      · exact sameItem ▸ searched
      · rw [sameItem]
        refine VariableSearch.findsBound_of_parts (VariableSearch.run_eq _ _) fun part atPart => ?_
        rw [List.mem_singleton.1 atPart]
        exact searched
    · rw [List.mem_singleton.1 member]
      refine ⟨false, ?_⟩
      rw [← same] at inRet ⊢
      exact inRet
  · rename_i pos ret atArgs
    rw [atArgs] at member
    cases read
    rcases List.mem_cons.1 member with rfl | member
    · exact ⟨true, VariableSearch.findsBound_of_leaf (VariableSearch.run_eq _ _) rfl⟩
    · rw [List.mem_singleton.1 member]
      exact ⟨false, inRet⟩
  · cases read

/-- What is asked of an expression in a signature whose variables are collected: it declares no variables, a literal form
holds no reference to one, and only `Callable` is written with the arguments of a callable. -/
structure CollectedFrom (r : Resolver) (t : Ty) : Prop where
  undeclared : t.declared = []
  literal {ref : Reference} : t = .named ref → r.isLiteralForm ref → ∀ c ∈ ref.args, c.Everywhere r.table.NoVariable
  callable {ref : Reference} : t = .named ref → VariableSearch.seemsCallable ref →
    ∃ symbol, r.table.lookup ref.name = some symbol ∧ symbol.fullname = "typing.Callable"

theorem noVariable_throughout {t : Ty} (none : t.Everywhere r.table.NoVariable) (plain : t.Everywhere r.CollectedFrom) :
    t.Throughout r.table.NoVariable := by
  induction t using Ty.inductionOn with
  | step t ih =>
    exact throughout_of_node none.root (declaresThroughout_of_undeclared plain.root.undeclared) fun c member =>
      ih c member (none.child member) (plain.child member)

theorem innerScope_bindsAllOf_functionFrame (r : Resolver) (s : Scope) (signature : Signature) :
    (r.innerScope s signature).BindsAllOf s.functionFrame := by
  intro name bound
  rw [Scope.find?_functionFrame] at bound
  exact r.innerScope_bindsAllOf s signature name bound

/-- In what a signature is made of, the resolver meets no variable free where a search in a new frame finds none that the inner
scope does not bind. -/
def SearchedInside (r : Resolver) (s : Scope) (signature : Signature) (c : Ty) : Prop :=
  ∀ insideCallables, (⟨r.table, s.functionFrame, insideCallables, false⟩ : VariableSearch).FindsBound c (r.innerScope s signature) →
    r.MeetsBound (r.innerScope s signature) c

theorem meetsBound_callable (using_ : r.flags.definingAlias = false) (apart : r.table.VariablesApart)
    (undeclared : signature.bindings = []) (parts : ∀ c ∈ (Ty.callable signature).children, r.SearchedInside s signature c) :
    r.MeetsBound s (.callable signature) := by
  refine .signature (declaresThroughout_of_undeclared undeclared) fun c member => ?_
  rcases List.mem_append.1 member with atArg | atRet
  · exact parts c member true (innerScope_findsBound_args using_ apart undeclared c atArg)
  · rw [List.mem_singleton.1 atRet] at member ⊢
    exact parts _ member false (innerScope_findsBound_ret using_ apart undeclared)

/-- A type variable that is not bound outside is found, and bound then. -/
theorem meetsBound_variable (apart : r.table.VariablesApart) {ref : Reference} {decl : TypeVarDecl}
    (isVariable : r.table.lookupTypeVar? ref.name = some decl) {search : VariableSearch} (sameTable : search.table = r.table)
    (binds : s.BindsAllOf search.scope) (finds : search.FindsBound (.named ref) s) : r.MeetsBound s (.named ref) := by
  obtain ⟨symbol, found, defined⟩ := SymbolTable.lookupTypeVar?_eq_some_iff.1 isVariable
  refine .bound ⟨symbol, decl, found, defined, ?_⟩
  rw [apart.ownVariable found defined]
  cases outside : search.scope.find? decl.fullname with
  | some binding => exact binds decl.fullname (by simp [outside])
  | none =>
    have isFound : search.found? ref = some decl := by
      simp [VariableSearch.found?, sameTable, isVariable, outside]
    have searched : search.run (.named ref) = [(ref.name, decl)] := by
      rw [VariableSearch.run_eq]
      simp only [isFound]
    exact finds (ref.name, decl) (by simp [searched])

theorem meetsBound_form (using_ : r.flags.definingAlias = false) (apart : r.table.VariablesApart) {ref : Reference}
    (none : r.table.NoVariable (.named ref)) (isForm : (r.table.lookup ref.name).any Symbol.isCallableForm = true)
    (parts : ∀ signature, ∀ c ∈ ref.args, r.SearchedInside s signature c) : r.MeetsBound s (.named ref) := by
  obtain ⟨symbol, found, isForm⟩ := (Option.any_eq_true _ _).1 isForm
  refine .form none found isForm fun signature read c member => ?_
  obtain ⟨insideCallables, finds⟩ := innerScope_findsBound_form using_ apart read c member
  exact parts signature c member insideCallables finds

/-- What is written like `Callable` but is not the form is not analysed yet. -/
theorem meetsBound_pending (table : r.table.Collectable) {ref : Reference} (plain : r.CollectedFrom (.named ref))
    (seems : VariableSearch.seemsCallable ref = true)
    (notForm : (r.table.lookup ref.name).any Symbol.isCallableForm = false) : r.MeetsBound s (.named ref) := by
  obtain ⟨symbol, found, isCallable⟩ := plain.callable rfl seems
  have isPending : symbol.isPending = true := by
    rw [found, Option.any_some] at notForm
    have known : SpecialForm.ofName? "typing.Callable" = some .callable := by decide
    simpa [Symbol.isCallableForm, isCallable, known] using notForm
  obtain ⟨decl, defined⟩ : ∃ decl, symbol.definition = some (.pendingDef decl) := by
    unfold Symbol.isPending at isPending
    split at isPending
    · rename_i decl defined
      exact ⟨decl, defined⟩
    · cases isPending
  obtain ⟨fullname, atName⟩ := SymbolTable.find?_of_lookup found
  exact .pending found defined (table.callable atName isCallable defined)

/-- The arguments of any other name are searched with it, but for literals, which hold no variable. -/
theorem meetsBound_name {ref : Reference} (plain : (Ty.named ref).Everywhere r.CollectedFrom)
    (noVariable : r.table.lookupTypeVar? ref.name = none)
    (notForm : (r.table.lookup ref.name).any Symbol.isCallableForm = false)
    (plainArgs : VariableSearch.seemsCallable ref = false) {search : VariableSearch} (sameTable : search.table = r.table)
    (below : search.run (.named ref) = firstOccurrences ((Ty.named ref).children.map search.run).flatten →
      ∀ c ∈ ref.args, r.MeetsBound s c) : r.MeetsBound s (.named ref) := by
  have none : r.table.NoVariable (.named ref) := by
    rintro _ ⟨⟩
    exact noVariable
  have literal (isLiteral : r.isLiteralForm ref) : ∀ c ∈ ref.args, c.Throughout r.table.NoVariable :=
    fun c member => noVariable_throughout (plain.root.literal rfl isLiteral c member) (plain.child member)
  refine .name none notForm literal ?_
  by_cases isLiteral : r.isLiteralForm ref = true
  · exact fun c member => .of_none (literal isLiteral c member) s
  · have entered : search.entersReference ref = true := by
      rw [VariableSearch.entersReference, sameTable]
      change ((search.insideCallables || !VariableSearch.seemsCallable ref) && !r.isLiteralForm ref) = true
      simp [plainArgs, isLiteral]
    have notFound : search.found? ref = Option.none := by
      simp [VariableSearch.found?, sameTable, noVariable]
    refine below ?_
    rw [VariableSearch.run_eq]
    simp only [notFound, entered, if_true]

/-- The resolver meets no variable free in a type if all that a search finds in it is bound. The induction is on the type; each
callable in it opens a frame of its own, in which a new search has bound what is found inside. -/
theorem meetsBound_of_findsBound (using_ : r.flags.definingAlias = false) (table : r.table.Collectable) {t : Ty}
    (plain : t.Everywhere r.CollectedFrom) {search : VariableSearch} (sameTable : search.table = r.table)
    (binds : s.BindsAllOf search.scope) (finds : search.FindsBound t s) : r.MeetsBound s t := by
  induction t using Ty.inductionOn generalizing search s with
  | step t ih =>
    have below (searched : search.run t = firstOccurrences (t.children.map search.run).flatten) :
        ∀ c ∈ t.children, r.MeetsBound s c := fun c member =>
      ih c member (plain.child member) sameTable binds (finds.part searched c member)
    have inside (signature : Signature) : ∀ c ∈ t.children, r.SearchedInside s signature c := fun c member _ finds =>
      ih c member (plain.child member) rfl (r.innerScope_bindsAllOf_functionFrame s signature) finds
    have apart := table.toVariablesApart
    cases t with
    | callable signature => exact meetsBound_callable using_ apart plain.root.undeclared (inside signature)
    | named ref =>
      cases variable_ : r.table.lookupTypeVar? ref.name with
      | some decl => exact meetsBound_variable apart variable_ sameTable binds finds
      | none =>
        cases isForm : (r.table.lookup ref.name).any Symbol.isCallableForm with
        | true =>
          have none : r.table.NoVariable (.named ref) := by
            rintro _ ⟨⟩
            exact variable_
          exact meetsBound_form using_ apart none isForm inside
        | false =>
          cases seems : VariableSearch.seemsCallable ref with
          | true => exact meetsBound_pending table plain.root seems isForm
          | false => exact meetsBound_name plain variable_ isForm seems sameTable below
    | _ => exact .other rfl (below (VariableSearch.run_eq _ _))

end Resolver

namespace SymbolTable

/-- The prelude of the module `m`, and some definitions more. -/
def preludeAnd (added : List Definition) : SymbolTable := added.foldl define (withPrelude "m")

theorem find?_preludeAnd {added : List Definition} {fullname : String} {symbol : Symbol}
    (found : (preludeAnd added).find? fullname = some symbol) :
    ∃ d, symbol = .of d ∧ (d ∈ added ∨ d ∈ Prelude.definitions) := by
  rcases find?_foldl_define found with ⟨d, member, same, _⟩ | found
  · exact ⟨d, same, .inl member⟩
  · obtain ⟨d, member, same, _⟩ := find?_withPrelude found
    exact ⟨d, same, .inr member⟩

theorem holds_preludeAnd {added : List Definition} {d : Definition} (holds : (preludeAnd added).Holds d) :
    d ∈ added ∨ d ∈ Prelude.definitions := by
  obtain ⟨fullname, symbol, found, defined⟩ := holds
  obtain ⟨d', rfl, member⟩ := find?_preludeAnd found
  cases defined
  exact member

/-- Without classes, and with type variables that may stand for any type, what is added has nothing to look into. -/
theorem variablesApart_preludeAnd {added : List Definition} (noClass : ∀ decl, .classDef decl ∉ added)
    (plainVariables : ∀ decl, .typeVarDef decl ∈ added → ∃ fullname, decl = .plain fullname) :
    (preludeAnd added).VariablesApart := by
  have noBases {decl : ClassDecl} (holds : (preludeAnd added).Holds (.classDef decl)) :
      decl.tupleBase = none ∧ decl.recordBase = none :=
    Prelude.noBases ((holds_preludeAnd holds).resolve_left (noClass decl))
  have plain {decl : TypeVarDecl} (holds : (preludeAnd added).Holds (.typeVarDef decl)) : ∃ fullname, decl = .plain fullname :=
    plainVariables decl ((holds_preludeAnd holds).resolve_right Prelude.typeVarDef_not_mem)
  refine ⟨fun found defined => ?_, fun holds atBase => ?_, fun holds atBase => ?_, fun holds => ?_, fun holds => ?_⟩
  · obtain ⟨d', rfl, _⟩ := find?_preludeAnd found
    cases defined
    rfl
  · rw [(noBases holds).1] at atBase
    cases atBase
  · rw [(noBases holds).2] at atBase
    cases atBase
  · obtain ⟨fullname, rfl⟩ := plain holds
    exact nofun
  · obtain ⟨fullname, rfl⟩ := plain holds
    exact Resolver.throughout_of_leaf rfl rfl nofun

end SymbolTable

namespace Resolver

/-- A reference that is no literal form and does not look like a callable may stand in a signature. -/
theorem collectedFrom_name {r : Resolver} (name : String) {args : List Ty} (notLiteral : r.isLiteralForm (.of name args) = false)
    (plain : VariableSearch.seemsCallable (.of name args) = false) : r.CollectedFrom (.named (.of name args)) := by
  refine ⟨rfl, ?_, ?_⟩
  · rintro _ ⟨⟩ isLiteral
    rw [notLiteral] at isLiteral
    cases isLiteral
  · rintro _ ⟨⟩ seems
    rw [plain] at seems
    cases seems

/-- A reference to `Callable` may stand in a signature, however it is written. -/
theorem collectedFrom_callable {r : Resolver} {name : String}
    (isCallable : ∃ symbol, r.table.lookup name = some symbol ∧ symbol.fullname = "typing.Callable") (args : List Ty) :
    r.CollectedFrom (.named (.of name args)) := by
  refine ⟨rfl, ?_, ?_⟩
  · rintro _ ⟨⟩ isLiteral
    obtain ⟨symbol, found, same⟩ := isCallable
    have other : literalNames.contains "typing.Callable" = false := by decide
    have isLiteral : (r.table.lookup name).any (fun symbol => literalNames.contains symbol.fullname) = true := isLiteral
    rw [found, Option.any_some, same, other] at isLiteral
    cases isLiteral
  · rintro _ ⟨⟩ _
    exact isCallable

end Resolver

/-- The collector and the resolver agree: in a signature without variables of its own, every type variable that resolution
meets is bound by then, so none is reported to be unbound. -/
theorem Resolver.resolution_collected {r : Resolver} (noHooks : r.hooks = .empty) (using_ : r.flags.definingAlias = false)
    (table : r.table.Collectable) {s : Signature} (plain : (Ty.callable s).Everywhere r.CollectedFrom) (p : Progress) :
    r.MeetsBound p.scope (.callable s) ∧ ∀ result q, r.resolveSignature s p = some (result, q) →
      ∀ report ∈ p.newReports q, ∀ name, report.problem ≠ .unboundVariable name := by
  have undeclared : s.bindings = [] := plain.root.undeclared
  have meets : r.MeetsBound p.scope (.callable s) :=
    meetsBound_callable using_ table.toVariablesApart undeclared fun c member _ finds =>
      meetsBound_of_findsBound using_ table (plain.child member) rfl (r.innerScope_bindsAllOf_functionFrame p.scope s) finds
  refine ⟨meets, fun result q ran => ?_⟩
  obtain ⟨⟨resolved, q'⟩, ranFirst, ended⟩ := Option.bind_eq_some_iff.1 ran
  obtain ⟨_, _, rfl⟩ := settle_ensures resolved q' result q ended
  have only := signature_reports (recursion_keepsBound noHooks table.throughout (r.allowance (.callable s))) table.throughout
    meets .top .top
  exact fun report member => (only.newReports ranFirst report member).ne

/-- `() -> Callable[[T], Callable[..., T]]` -/
def returningGeneric : Signature :=
  .of [] [] [] (.named (.of "typing.Callable" [.bracketed [.named (.of "T" [])] .unknown,
    .named (.of "typing.Callable" [.ellipsis .unknown, .named (.of "T" [])])]))

theorem SymbolTable.collectable_withTypeVar : Resolver.withTypeVar.table.Collectable := by
  have sameTable : Resolver.withTypeVar.table = preludeAnd [.typeVarDef (.plain "m.T")] := rfl
  rw [sameTable]
  refine ⟨variablesApart_preludeAnd (by simp) (by simp), fun holds => ?_, fun found _ defined => ?_⟩
  · have member := (holds_preludeAnd holds).resolve_left (by simp)
    obtain ⟨_, _, _, rfl⟩ := Prelude.aliasDef_mem member
    exact Ty.everywhere_of_leaf rfl (.inl ⟨nofun, ⟨nofun, nofun⟩⟩)
  · obtain ⟨d, rfl, member⟩ := find?_preludeAnd found
    cases defined
    simp [Prelude.definitions] at member

/-- The variable belongs to the callable that is returned, which the collector does not look into on behalf of the whole. -/
theorem Resolver.resolution_collected_returned :
    ∃ result q, withTypeVar.resolveSignature returningGeneric (.start .root) = some (result, q) ∧
      result.type.declared.map TypeVarBinding.fullname = [] ∧
      (result.type.children.flatMap Ty.declared).map TypeVarBinding.fullname = ["m.T"] ∧
      withTypeVar.MeetsBound .root (.callable returningGeneric) ∧
      ∀ report ∈ (Progress.start .root).newReports q, ∀ name, report.problem ≠ .unboundVariable name := by
  have ends : (withTypeVar.resolveSignature returningGeneric (.start .root)).map (fun ran =>
      (ran.1.type.declared.map TypeVarBinding.fullname,
        (ran.1.type.children.flatMap Ty.declared).map TypeVarBinding.fullname)) = some ([], ["m.T"]) := by
    decide +kernel
  obtain ⟨⟨result, q⟩, ran, same⟩ := Option.map_eq_some_iff.1 ends
  obtain ⟨outside, inside⟩ := Prod.mk.inj same
  obtain ⟨plainT, isCallable⟩ : withTypeVar.isLiteralForm (.of "T" []) = false ∧
      (withTypeVar.table.lookup "typing.Callable").map (·.fullname) = some "typing.Callable" := by
    decide +kernel
  have callable {args : List Ty} (parts : ∀ t ∈ args, t.Everywhere withTypeVar.CollectedFrom) :
      (Ty.named (.of "typing.Callable" args)).Everywhere withTypeVar.CollectedFrom := by
    refine Ty.everywhere_iff.2 ⟨collectedFrom_callable (Option.map_eq_some_iff.1 isCallable) args, parts⟩
  have variable_ : (Ty.named (.of "T" [])).Everywhere withTypeVar.CollectedFrom :=
    Ty.everywhere_of_leaf rfl (collectedFrom_name "T" plainT rfl)
  have plain : (Ty.callable returningGeneric).Everywhere withTypeVar.CollectedFrom := by
    refine Ty.everywhere_iff.2 ⟨⟨rfl, nofun, nofun⟩, fun c member => ?_⟩
    rw [List.mem_singleton.1 member]
    refine callable fun c member => ?_
    rcases List.mem_cons.1 member with rfl | member
    · refine Ty.everywhere_iff.2 ⟨⟨rfl, nofun, nofun⟩, fun c member => ?_⟩
      rw [List.mem_singleton.1 member]
      exact variable_
    · rw [List.mem_singleton.1 member]
      refine callable fun c member => ?_
      rcases List.mem_cons.1 member with rfl | member
      · exact Ty.everywhere_of_leaf rfl ⟨rfl, nofun, nofun⟩
      · rw [List.mem_singleton.1 member]
        exact variable_
  obtain ⟨meets, silent⟩ := resolution_collected rfl rfl SymbolTable.collectable_withTypeVar plain (.start .root)
  exact ⟨result, q, ran, outside, inside, meets, silent result q ran⟩

namespace Resolver

/-- A module in which `Callable` is still to become a class, and `A` is an alias whose target refers to `T` without having
it as a formal. -/
def withLeaks : Resolver :=
  ⟨.preludeAnd [.typeVarDef (.plain "m.T"), .pendingDef ⟨"typing.Callable", true⟩,
      .aliasDef ⟨"m.A", .union [.named (.of "T" []), .noneType .unknown] .unknown, [], false, []⟩],
    .empty, .default, .default⟩

/-- `() -> Callable[..., T]` -/
def returningCallable : Signature :=
  .of [] [] [] (.named (.of "typing.Callable" [.ellipsis .unknown, .named (.of "T" [])]))

/-- `(Literal[A]) -> None` -/
def takingLiteral : Signature :=
  .of [.named (.of "typing.Literal" [.named (.of "A" [])])] [.positional] [none] (.noneType .unknown)

/-- Not every variable that is met has been collected: the collector passes over `Callable[..., T]` in a result, which is no
callable while `Callable` is still to become a class, and over all that stands in a literal form, where the alias `A` brings
`T` in. -/
theorem collector_passes_over : withLeaks.table.VariablesApart ∧
    (Ty.callable returningCallable).Everywhere withLeaks.CollectedFrom ∧
    (Ty.callable takingLiteral).Everywhere withLeaks.CollectedFrom ∧
    (∃ result q, withLeaks.resolveSignature returningCallable (.start .root) = some (result, q) ∧
      ∃ report ∈ q.reports, report.problem = .unboundVariable "m.T") ∧
    ∃ result q, withLeaks.resolveSignature takingLiteral (.start .root) = some (result, q) ∧
      ∃ report ∈ q.reports, report.problem = .unboundVariable "m.T" := by
  obtain ⟨plainT, plainA, noVariable, isCallable⟩ : withLeaks.isLiteralForm (.of "T" []) = false ∧
      withLeaks.isLiteralForm (.of "A" []) = false ∧ (withLeaks.table.lookupTypeVar? "A").isNone ∧
      (withLeaks.table.lookup "typing.Callable").map (·.fullname) = some "typing.Callable" := by
    decide +kernel
  have leaf (name : String) (notLiteral : withLeaks.isLiteralForm (.of name []) = false) :
      (Ty.named (.of name [])).Everywhere withLeaks.CollectedFrom :=
    Ty.everywhere_of_leaf rfl (collectedFrom_name name notLiteral rfl)
  have reported {s : Signature} {problems : List Problem}
      (ends : ((withLeaks.resolveSignature s (.start .root)).map fun ran => ran.2.reports.map Diagnostic.problem) =
        some problems) (member : .unboundVariable "m.T" ∈ problems) :
      ∃ result q, withLeaks.resolveSignature s (.start .root) = some (result, q) ∧
        ∃ report ∈ q.reports, report.problem = .unboundVariable "m.T" := by
    obtain ⟨⟨result, q⟩, ran, same⟩ := Option.map_eq_some_iff.1 ends
    rw [← same] at member
    obtain ⟨report, atReport, same⟩ := List.mem_map.1 member
    exact ⟨result, q, ran, report, atReport, same⟩
  refine ⟨SymbolTable.variablesApart_preludeAnd (by simp) (by simp), ?_, ?_, ?_, ?_⟩
  · refine Ty.everywhere_iff.2 ⟨⟨rfl, nofun, nofun⟩, fun c member => ?_⟩
    rw [List.mem_singleton.1 member]
    refine Ty.everywhere_iff.2 ⟨collectedFrom_callable (Option.map_eq_some_iff.1 isCallable) _, fun c member => ?_⟩
    rcases List.mem_cons.1 member with rfl | member
    · exact Ty.everywhere_of_leaf rfl ⟨rfl, nofun, nofun⟩
    · rw [List.mem_singleton.1 member]
      exact leaf "T" plainT
  · refine Ty.everywhere_iff.2 ⟨⟨rfl, nofun, nofun⟩, fun c member => ?_⟩
    rcases List.mem_cons.1 member with rfl | member
    · refine Ty.everywhere_iff.2 ⟨⟨rfl, ?_, ?_⟩, fun c member => ?_⟩
      · rintro _ ⟨⟩ _ c member
        rw [List.mem_singleton.1 member]
        refine Ty.everywhere_of_leaf rfl ?_
        rintro _ ⟨⟩
        exact Option.isNone_iff_eq_none.1 noVariable
      · rintro _ ⟨⟩ seems
        cases seems
      · rw [List.mem_singleton.1 member]
        exact leaf "A" plainA
    · rw [List.mem_singleton.1 member]
      exact Ty.everywhere_of_leaf rfl ⟨rfl, nofun, nofun⟩
  · have ends : (withLeaks.resolveSignature returningCallable (.start .root)).map
        (fun ran => ran.2.reports.map Diagnostic.problem) =
          some [.strayEllipsis, .unboundVariable "m.T", .classBindingHint "T", .functionBindingHint "T"] := by
      decide +kernel
    exact reported ends (by simp)
  · have ends : (withLeaks.resolveSignature takingLiteral (.start .root)).map
        (fun ran => ran.2.reports.map Diagnostic.problem) =
          some [.unboundVariable "m.T", .classBindingHint "T", .functionBindingHint "T", .literalOfType 1] := by
      decide +kernel
    exact reported ends (by simp)

end Resolver

end TypeResolution
