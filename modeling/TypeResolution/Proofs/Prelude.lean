import TypeResolution.Proofs.Results
import TypeResolution.SymbolTable.Prelude

namespace TypeResolution

namespace SymbolTable

theorem find?_define {table : SymbolTable} {d : Definition} {fullname : String} {s : Symbol}
    (found : (table.define d).find? fullname = some s) :
    (s = .of d ∧ d.fullname = fullname) ∨ table.find? fullname = some s := by
  by_cases same : fullname = d.fullname
  · left
    rw [same] at found
    have atName : (table.define d).find? d.fullname = some (.of d) :=
      NameMap.find?_insert_self table.symbols d.fullname (.of d)
    exact ⟨Option.some.inj (found.symm.trans atName), same.symm⟩
  · right
    exact (NameMap.find?_insert_other table.symbols (.of d) same).symm.trans found

/-- A definition of a table is the one that was added last, or was there before. -/
theorem holds_define {table : SymbolTable} {added d : Definition} (holds : (table.define added).Holds d) :
    d = added ∨ table.Holds d := by
  obtain ⟨fullname, s, found, defined⟩ := holds
  rcases find?_define found with ⟨rfl, _⟩ | found
  · exact .inl (Option.some.inj defined).symm
  · exact .inr ⟨fullname, s, found, defined⟩

theorem not_holds_empty {module : String} {d : Definition} : ¬ (empty module).Holds d := by
  rintro ⟨fullname, s, found, _⟩
  cases found

theorem find?_foldl_define {ds : List Definition} {table : SymbolTable} {fullname : String} {s : Symbol}
    (found : (ds.foldl define table).find? fullname = some s) :
    (∃ d ∈ ds, s = .of d ∧ d.fullname = fullname) ∨ table.find? fullname = some s := by
  induction ds generalizing table with
  | nil => exact .inr found
  | cons d ds ih =>
    rcases ih found with ⟨other, member, atName⟩ | found
    · exact .inl ⟨other, List.mem_cons_of_mem d member, atName⟩
    · rcases find?_define found with atName | found
      · exact .inl ⟨d, List.mem_cons_self, atName⟩
      · exact .inr found

/-- Every symbol of the prelude is one of its definitions under its own name. -/
theorem find?_withPrelude {module fullname : String} {s : Symbol}
    (found : (withPrelude module).find? fullname = some s) :
    ∃ d ∈ Prelude.definitions, s = .of d ∧ d.fullname = fullname := by
  rcases find?_foldl_define found with defined | found
  · exact defined
  · cases found

theorem find?_foldl_define_other {ds : List Definition} {fullname : String} (other : fullname ∉ ds.map Definition.fullname)
    (table : SymbolTable) : (ds.foldl define table).find? fullname = table.find? fullname := by
  induction ds generalizing table with
  | nil => rfl
  | cons d ds ih =>
    obtain ⟨apart, others⟩ := not_or.1 (mt List.mem_cons.2 other)
    exact (ih others _).trans (NameMap.find?_insert_other table.symbols (.of d) apart)

/-- Each of several definitions with different names is found under its name. -/
theorem find?_foldl_define_of_mem {ds : List Definition} (distinct : (ds.map Definition.fullname).Nodup) {d : Definition}
    (member : d ∈ ds) (table : SymbolTable) : (ds.foldl define table).find? d.fullname = some (.of d) := by
  induction ds generalizing table with
  | nil => cases member
  | cons first ds ih =>
    obtain ⟨fresh, distinct⟩ := List.nodup_cons.1 distinct
    rcases List.mem_cons.1 member with rfl | member
    · exact (find?_foldl_define_other fresh _).trans (NameMap.find?_insert_self table.symbols d.fullname (.of d))
    · exact ih distinct member _

theorem find?_withPrelude_of_mem {d : Definition} (member : d ∈ Prelude.definitions) (module : String) :
    (withPrelude module).find? d.fullname = some (.of d) :=
  find?_foldl_define_of_mem (by decide +kernel) member _

/-- No name of the prelude has a qualified name after a dot. -/
theorem find?_withPrelude_qualify {name : String} (qualified : '.' ∈ name.toList) (module outer : String) :
    (withPrelude module).find? (qualify outer name) = none := by
  have single : ∀ d ∈ Prelude.definitions, d.fullname.toList.count '.' ≤ 1 := by decide +kernel
  rw [Option.eq_none_iff_forall_ne_some]
  intro symbol found
  obtain ⟨d, member, _, named⟩ := find?_withPrelude found
  have dots := single d member
  rw [named, qualify, String.toList_append, String.toList_append, List.count_append, List.count_append] at dots
  have inside := List.one_le_count_iff.2 qualified
  have between : ".".toList.count '.' = 1 := by decide +kernel
  omega

/-- In a module that knows nothing but the prelude, a qualified name of the prelude means what the prelude defines. -/
theorem lookup_withPrelude {d : Definition} (member : d ∈ Prelude.definitions) (qualified : '.' ∈ d.fullname.toList)
    (module : String) : (withPrelude module).lookup d.fullname = some (.of d) := by
  have noImports : (withPrelude module).imports = .empty := rfl
  have candidates : (withPrelude module).candidates d.fullname =
      [qualify (withPrelude module).module d.fullname, qualify "builtins" d.fullname, d.fullname] := by
    unfold SymbolTable.candidates
    rw [noImports]
    rfl
  unfold lookup
  rw [candidates]
  simp only [List.findSome?_cons, find?_withPrelude_qualify qualified, find?_withPrelude_of_mem member]

theorem holds_withPrelude {module : String} {d : Definition} (holds : (withPrelude module).Holds d) :
    d ∈ Prelude.definitions := by
  obtain ⟨fullname, s, found, defined⟩ := holds
  obtain ⟨d', member, rfl, _⟩ := find?_withPrelude found
  cases defined
  exact member

end SymbolTable

namespace Prelude

/-- The classes of the prelude derive from no tuple and no record. -/
theorem classDef_mem {decl : ClassDecl} (member : .classDef decl ∈ definitions) :
    decl ∈ genericClasses ∨ ∃ fullname ∈ plainClasses, decl = .plain fullname := by
  simp only [definitions, List.mem_append, List.mem_map, List.mem_filterMap, Option.map_eq_some_iff,
    reduceCtorEq, and_false, exists_false, or_false, false_or, Definition.classDef.injEq] at member
  rcases member with ⟨fullname, member, rfl⟩ | ⟨decl, member, rfl⟩
  · exact .inr ⟨fullname, member, rfl⟩
  · exact .inl member

/-- The aliases of the prelude are bare names of its generic classes. -/
theorem aliasDef_mem {decl : AliasDecl} (member : .aliasDef decl ∈ definitions) :
    ∃ fullname, ∃ generic ∈ genericClasses, decl = ⟨fullname, .inst (.of generic.head [] .unknown), [], true, []⟩ := by
  simp only [definitions, List.mem_append, List.mem_map, List.mem_filterMap, Option.map_eq_some_iff,
    reduceCtorEq, and_false, exists_false, or_false, false_or, Definition.aliasDef.injEq] at member
  obtain ⟨⟨fullname, target⟩, _, decl', made, rfl⟩ := member
  obtain ⟨generic, found, rfl⟩ := Option.map_eq_some_iff.1 made
  exact ⟨fullname, generic, List.mem_of_find?_eq_some found, rfl⟩

/-- None of the aliases of the prelude has arguments, or is one of the flexible aliases. -/
theorem aliasDef_target {decl : AliasDecl} (member : .aliasDef decl ∈ definitions) :
    decl.formals = [] ∧ ∃ head, decl.target = .inst (.of head [] .unknown) ∧ head.fullname ≠ flexibleAlias := by
  simp only [definitions, List.mem_append, List.mem_map, List.mem_filterMap, Option.map_eq_some_iff,
    reduceCtorEq, and_false, exists_false, or_false, false_or, Definition.aliasDef.injEq] at member
  obtain ⟨⟨fullname, target⟩, member, decl', made, rfl⟩ := member
  obtain ⟨generic, found, rfl⟩ := Option.map_eq_some_iff.1 made
  have named : generic.fullname = target := by simpa using List.find?_some found
  have notFlexible : ∀ entry ∈ classAliases, entry.2 ≠ flexibleAlias := by decide
  have other : generic.fullname ≠ flexibleAlias := named ▸ notFlexible _ member
  exact ⟨rfl, generic.head, rfl, other⟩

/-- The prelude declares no type variables. -/
theorem typeVarDef_not_mem {decl : TypeVarDecl} : .typeVarDef decl ∉ definitions := by
  simp [definitions]

theorem noBases {decl : ClassDecl} (member : .classDef decl ∈ definitions) :
    decl.tupleBase = none ∧ decl.recordBase = none := by
  have ofGeneric : ∀ generic ∈ genericClasses, generic.tupleBase = none ∧ generic.recordBase = none := by
    simp [genericClasses, ClassDecl.generic]
  rcases classDef_mem member with member | ⟨fullname, _, rfl⟩
  · exact ofGeneric decl member
  · exact ⟨rfl, rfl⟩

theorem arity_tuple {decl : ClassDecl} (member : .classDef decl ∈ definitions)
    (named : decl.fullname = "builtins.tuple") : decl.head.arity = 1 := by
  have ofGeneric : ∀ generic ∈ genericClasses, generic.fullname = "builtins.tuple" → generic.head.arity = 1 := by
    decide
  rcases classDef_mem member with member | ⟨fullname, atPlain, rfl⟩
  · exact ofGeneric decl member named
  · have absent : "builtins.tuple" ∉ plainClasses := by decide
    have here : fullname = "builtins.tuple" := named
    exact absurd (here ▸ atPlain) absent

end Prelude

/-- The resolver of a module that knows nothing but the prelude, with nothing particular asked of it. -/
def Resolver.ofPrelude (module : String) : Resolver := ⟨.withPrelude module, .empty, .default, .default⟩

end TypeResolution
