import TypeResolution.Proofs.OptionalSpellings
import TypeResolution.Proofs.TwoRuns

namespace TypeResolution

open Resolve

namespace Resolve

variable {α β : Type} {s : Scope}

/-- What a step makes in a scope, and how far it can be relied on. -/
def verdict (m : Resolve α) (s : Scope) : Option (α × PassStatus) :=
  (m (.start s)).map fun made => (made.1, made.2.status)

theorem verdict_bind (m : Resolve α) (f : α → Resolve β) [Steady m] [∀ a, Steady (f a)] :
    verdict (m >>= f) s =
      (verdict m s).bind fun made => (verdict (f made.1) s).map fun last => (last.1, made.2.merge last.2) := by
  unfold verdict
  rw [run_bind]
  cases m (.start s) with
  | none => rfl
  | some made => cases atNext : f made.1 (.start s) <;> simp [atNext, Progress.join]

theorem verdict_congr {m m' : Resolve α} (same : m (.start s) = m' (.start s)) : verdict m s = verdict m' s :=
  congrArg (Option.map _) same

/-- Steps with the same verdict in a scope. -/
def Sameness.verdict (s : Scope) : Sameness where
  same m m' := Resolve.verdict m s = Resolve.verdict m' s
  refl _ := rfl
  bind first next := by simp only [verdict_bind, first, next]

/-- What is only written down does not count. -/
theorem verdict_after {m : Resolve Unit} [Steady m] (passes : verdict m s = some ((), .complete)) (next : Resolve α)
    [Steady next] : verdict (m >>= fun _ => next) s = verdict next s := by
  rw [verdict_bind, passes, Option.bind_some]
  cases verdict next s with
  | none => rfl
  | some made =>
    obtain ⟨a, status⟩ := made
    cases status <;> rfl

end Resolve

namespace Reference

/-- The same reference to another name. -/
def renamed (ref : Reference) (name : String) : Reference := { ref with name := name }

/-- The arguments are neither written as `()` nor as `T, ...`. -/
def ListsItems (ref : Reference) : Prop :=
  (ref.args = [] → ref.emptyTuple = false) ∧ ∀ item pos, ref.args ≠ [item, .ellipsis pos]

end Reference

namespace Prelude

/-- A definition of the prelude under a qualified name that is no special form. -/
structure Defines (d : Definition) : Prop where
  member : d ∈ definitions
  qualified : '.' ∈ d.fullname.toList
  plain : SpecialForm.ofName? d.fullname = none

theorem Defines.of_class {decl : ClassDecl} (member : decl ∈ genericClasses) : Defines (.classDef decl) where
  member := by simp [definitions, member]
  qualified := by
    have all : ∀ decl ∈ genericClasses, '.' ∈ decl.fullname.toList := by decide +kernel
    exact all decl member
  plain := by
    have all : ∀ decl ∈ genericClasses, SpecialForm.ofName? decl.fullname = none := by decide
    exact all decl member

theorem Defines.of_alias {entry : String × String} {decl : AliasDecl} (member : entry ∈ classAliases)
    (made : bareAlias? entry.1 entry.2 = some decl) : Defines (.aliasDef decl) := by
  obtain ⟨generic, _, rfl⟩ := Option.map_eq_some_iff.1 made
  refine ⟨?_, ?_, ?_⟩
  · simp only [definitions, List.mem_append]
    exact .inl (.inr (List.mem_filterMap.2 ⟨entry, member, congrArg (Option.map Definition.aliasDef) made⟩))
  · have all : ∀ entry ∈ classAliases, '.' ∈ entry.1.toList := by decide +kernel
    exact all entry member
  · have all : ∀ entry ∈ classAliases, SpecialForm.ofName? entry.1 = none := by decide
    exact all entry member

/-- A replacement for a builtin class other than `tuple` is a bare alias of it. -/
theorem replacement_isAlias {builtin replacement : String} (entry : builtinReplacement? builtin = some (some replacement))
    (other : builtin ≠ "builtins.tuple") :
    ∃ generic, generic.fullname = builtin ∧ Defines (.classDef generic) ∧
      Defines (.aliasDef ⟨replacement, .inst (.of generic.head [] .unknown), [], true, []⟩) := by
  have aliases : ∀ entry ∈ builtinReplacements, entry.1 ≠ "builtins.tuple" →
      entry.2.all fun replacement => classAliases.contains (replacement, entry.1) := by decide
  have classes : ∀ entry ∈ classAliases, (genericClasses.find? (·.fullname == entry.2)).isSome := by decide
  obtain ⟨⟨name, _⟩, found, rfl⟩ := Option.map_eq_some_iff.1 entry
  obtain rfl : name = builtin := by simpa using List.find?_some found
  have isAlias : (replacement, name) ∈ classAliases := by
    simpa using aliases _ (List.mem_of_find?_eq_some found) other
  obtain ⟨generic, atName⟩ := Option.isSome_iff_exists.1 (classes _ isAlias)
  have named : generic.fullname = name := by simpa using List.find?_some atName
  have made : bareAlias? replacement name = some ⟨replacement, .inst (.of generic.head [] .unknown), [], true, []⟩ := by
    rw [bareAlias?, atName]
    rfl
  exact ⟨generic, named, .of_class (List.mem_of_find?_eq_some atName), .of_alias isAlias made⟩

def tupleClass : ClassDecl := .generic "builtins.tuple" ["T_co"]

theorem defines_tupleClass : Defines (.classDef tupleClass) := .of_class (List.mem_cons_self ..)

theorem findClass?_tuple (module : String) :
    (SymbolTable.withPrelude module).findClass? "builtins.tuple" = some tupleClass := by
  have found := SymbolTable.find?_withPrelude_of_mem defines_tupleClass.member module
  exact SymbolTable.findClass?_eq_some_iff.2 (congrArg (·.bind (·.definition)) found)

end Prelude

namespace Resolver

variable {r : Resolver} {s : Scope} {again : Recursion} [again.Steady]

theorem verdict_fixArity (i : Instance) (fromAlias : Bool) (written : Option String) :
    (Sameness.verdict s).same (r.fixArity i fromAlias written) (pure (r.repaired i false none)) := by
  have sameFiller (fullname fullname' : Option String) (name name' : String) :
      (omittedAny r.disallowsOmitted i.pos fullname name).1 = (omittedAny r.disallowsOmitted i.pos fullname' name').1 := by
    unfold omittedAny
    split <;> rfl
  have sameInstance : (fixInstance i r.disallowsOmitted fromAlias written).1 =
      (fixInstance i r.disallowsOmitted false none).1 := by
    unfold fixInstance
    split
    · rfl
    · split
      · dsimp only
        rw [sameFiller]
      · rfl
  unfold fixArity repaired
  split
  · exact (Sameness.verdict s).refl _
  · rw [← sameInstance]
    exact verdict_after rfl _

theorem verdict_repair (i : Instance) (fromAlias : Bool) (written : Option String) :
    (Sameness.verdict s).same (r.fixArity i fromAlias written >>= fun i => pure (Ty.inst i))
      (pure (.inst (r.repaired i false none))) :=
  Sameness.andThen (c := .verdict s) (verdict_fixArity i fromAlias written) fun i => pure (Ty.inst i)

/-- A class that derives from no tuple and no record is an instance with the right number of arguments. -/
theorem verdict_classType {decl : ClassDecl} (noTuple : decl.tupleBase = none) (noRecord : decl.recordBase = none)
    {args : List Ty} (other : args = [] ∨ decl.fullname ≠ "builtins.tuple") (pos : Position) (level : Nesting) :
    (Sameness.verdict s).same (r.classType again decl args pos level)
      (again.args args level >>= fun resolved => pure (.inst (r.repaired (.of decl.head resolved pos) false none))) := by
  have notTuple : ¬ (!args.isEmpty && decl.fullname == "builtins.tuple") = true := by
    rcases other with rfl | other
    · simp
    · simp [other]
  rw [classType_eq, if_neg notTuple, classInstance_eq]
  refine Sameness.after _ fun resolved => ?_
  have base (i : Instance) : classBase again decl args pos level i = pure (.inst i) := by
    unfold classBase
    rw [noTuple, noRecord]
  simp only [base]
  exact verdict_repair _ false none

/-- A bare alias of a class is an instance of it with the right number of arguments. -/
theorem verdict_aliasType {decl : AliasDecl} {head : ClassHead} {pos : Position} (noFormals : decl.formals = [])
    (isBare : decl.isBare = true) (target : decl.target = .inst (.of head [] pos)) (fullname : String) (ref : Reference)
    (level : Nesting) :
    (Sameness.verdict s).same (r.aliasType again decl fullname ref level)
      (again.args ref.args level >>= fun resolved => pure (.inst (r.repaired (.of head resolved ref.pos) false none))) := by
  have expanded (args : List Ty) :
      decl.expand args ref.pos (some ref.name) r.disallowsOmitted = (.inst (.of head args ref.pos), []) := by
    unfold AliasDecl.expand AliasDecl.targetClass?
    rw [noFormals, isBare, target]
    cases args <;> rfl
  rw [aliasType_eq]
  refine Eq.trans (verdict_after rfl _) ?_
  refine Sameness.after (c := .verdict s) _ fun resolved => ?_
  rw [expanded, reportAll_nil_bind]
  exact verdict_repair _ true _

/-- What a reference at the top is resolved to, and how far that can be relied on. -/
theorem resolve_verdict {ref : Reference} {bound : Nat} (atBound : r.allowance (.named ref) = bound + 1) :
    (r.resolve (.named ref) (.start s)).map Prod.fst =
      (verdict (r.plainReference (r.recursion bound) ref .top false) s).map fun made =>
        ⟨if ref.optional then made.1.makeOptional else made.1, made.2⟩ := by
  unfold resolve
  rw [atBound]
  change (((r.plainReference (r.recursion bound) ref .top false (.start s)).bind _).bind _).map _ = _
  unfold verdict
  cases r.plainReference (r.recursion bound) ref .top false (.start s) <;> rfl

/-- Types that two spellings are resolved to: the same, but for a case in which they are unequal. -/
structure SpelledAlike (exception : Prop) (t u : Ty) : Prop where
  same : ¬ exception → t = u
  apart : exception → (t.isUnion = false ∧ t.isNone = false) ∧ (u.isUnion = false ∧ u.isNone = false) ∧ ¬ t ≈ u

theorem SpelledAlike.equal_iff {exception : Prop} {t u : Ty} (alike : SpelledAlike exception t u) (suffix : Bool) :
    ((if suffix then t.makeOptional else t) == (if suffix then u.makeOptional else u)) = true ↔ ¬ exception := by
  by_cases excepted : exception
  · obtain ⟨single, single', unequal⟩ := alike.apart excepted
    refine iff_of_false (fun equal => ?_) (not_not_intro excepted)
    cases suffix with
    | false => exact unequal equal
    | true => exact unequal ((Ty.makeOptional_equal_iff single single').1 equal)
  · rw [alike.same excepted]
    exact iff_of_true (Setoid.refl (if suffix then u.makeOptional else u)) excepted

/-- The class `tuple` and the special form `Tuple` read the arguments differently: as a list of items only one of them does, or
there are none while an alias is defined. -/
def TupleApart (r : Resolver) (ref : Reference) : Prop :=
  ¬ ref.ListsItems ∨ ref.args = [] ∧ r.flags.definingAlias = true

theorem spelledAlike_of_apart {exception : Prop} (excepted : exception) {t u : Ty} (single : t.isUnion = false ∧ t.isNone = false)
    (single' : u.isUnion = false ∧ u.isNone = false) (unequal : ¬ t ≈ u) : SpelledAlike exception t u :=
  ⟨fun notExcepted => absurd excepted notExcepted, fun _ => ⟨single, single', unequal⟩⟩

/-- A bare `tuple` keeps the arguments that it has while an alias is defined, and a bare `Tuple` is one of `Any`. -/
theorem bareTuple_spelledAlike {ref : Reference} (lists : ref.ListsItems) (bare : ref.args = []) :
    SpelledAlike (r.TupleApart ref)
      (.inst (r.repaired (.of Prelude.tupleClass.head [] ref.pos) false none))
      (.inst (.of Prelude.tupleClass.head [(omittedAny r.disallowsOmitted ref.pos none ref.name).1] ref.pos)) where
  same notExcepted := by
    have using_ : ¬ r.flags.definingAlias = true := fun defining => notExcepted (.inr ⟨bare, defining⟩)
    rw [repaired, if_neg using_]
    unfold omittedAny fixInstance
    cases r.disallowsOmitted <;> rfl
  apart excepted := by
    have defining : r.flags.definingAlias = true := (excepted.resolve_left (not_not_intro lists)).2
    refine ⟨⟨rfl, rfl⟩, ⟨rfl, rfl⟩, fun equal => ?_⟩
    rw [repaired, if_pos defining] at equal
    cases Ty.matches_of_beq equal with
    | inst sameInstance =>
      have sameArgs := (Instance.beq_iff.1 sameInstance).2.1
      cases sameArgs

/-- What is not a type among the arguments says nothing about how far the result can be relied on. -/
theorem verdict_withDots {level : Nesting}
    (dots : ∀ pos, verdict (again.arg (.ellipsis pos) level) s = some (.error, .complete)) (item : Ty) (pos : Position) :
    verdict (again.args [item, .ellipsis pos] level) s =
      (verdict (again.arg item level) s).map fun made => ([made.1, .error], made.2) := by
  unfold Recursion.args
  rw [List.mapM_cons, List.mapM_cons, List.mapM_nil]
  simp only [verdict_bind, dots]
  cases verdict (again.arg item level) s with
  | none => rfl
  | some made =>
    obtain ⟨a, status⟩ := made
    cases status <;> rfl

/-- The builtin class `tuple` and the special form agree exactly where they read the arguments in the same way. -/
theorem tuple_spelledAlike (found : r.table.findClass? "builtins.tuple" = some Prelude.tupleClass) {level : Nesting}
    (dots : ∀ pos, verdict (again.arg (.ellipsis pos) level) s = some (.error, .complete)) (ref : Reference) :
    Option.Rel (fun made made' => made.2 = made'.2 ∧ SpelledAlike (r.TupleApart ref) made.1 made'.1)
      (verdict (r.classType again Prelude.tupleClass ref.args ref.pos level) s) (verdict (r.tupleForm again ref level) s) := by
  by_cases bare : ref.args = []
  · have asClass : verdict (r.classType again Prelude.tupleClass ref.args ref.pos level) s =
        some (.inst (r.repaired (.of Prelude.tupleClass.head [] ref.pos) false none), .complete) := by
      rw [bare]
      exact verdict_classType rfl rfl (.inl rfl) ref.pos level
    rw [asClass]
    cases written : ref.emptyTuple with
    | false =>
      have asForm : verdict (r.tupleForm again ref level) s = some (.inst (.of Prelude.tupleClass.head
          [(omittedAny r.disallowsOmitted ref.pos none ref.name).1] ref.pos), .complete) := by
        unfold tupleForm
        simp only [found, bare, written]
        rfl
      rw [asForm]
      have lists : ref.ListsItems := ⟨fun _ => written, fun item pos some => by simp [bare] at some⟩
      exact .some ⟨rfl, bareTuple_spelledAlike lists bare⟩
    | true =>
      have asForm : verdict (r.tupleForm again ref level) s = some (.tuple ⟨[], .of Prelude.tupleClass.head
          [.anyAt .specialForm .unknown] ref.pos, false, ref.pos⟩, .complete) := by
        unfold tupleForm
        simp only [found, bare, written]
        rfl
      rw [asForm]
      have unlisted : ¬ ref.ListsItems := fun lists => by cases (lists.1 bare).symm.trans written
      refine .some ⟨rfl, spelledAlike_of_apart (.inl unlisted) ⟨rfl, rfl⟩ ⟨rfl, rfl⟩ fun equal => ?_⟩
      cases Ty.matches_of_beq equal
  · have asClass : r.classType again Prelude.tupleClass ref.args ref.pos level = again.args ref.args level >>= fun items =>
        pure (.tuple ⟨items, .of Prelude.tupleClass.head [.anyAt .specialForm .unknown] ref.pos, false, ref.pos⟩) := by
      rw [classType_eq, if_pos (by simp [bare, Prelude.tupleClass, ClassDecl.generic]; rfl)]
    rw [asClass]
    by_cases dotted : ∃ item pos, ref.args = [item, .ellipsis pos]
    · obtain ⟨item, pos, written⟩ := dotted
      have asForm : r.tupleForm again ref level = again.arg item level >>= fun item =>
          pure (.inst (.of Prelude.tupleClass.head [item] ref.pos)) := by
        unfold tupleForm
        simp only [found, written]
      rw [asForm, written, verdict_bind, verdict_bind, verdict_withDots dots]
      have unlisted : ¬ ref.ListsItems := fun lists => lists.2 item pos written
      cases verdict (again.arg item level) s with
      | none => exact .none
      | some made =>
        refine .some ⟨rfl, spelledAlike_of_apart (.inl unlisted) ⟨rfl, rfl⟩ ⟨rfl, rfl⟩ fun equal => ?_⟩
        cases Ty.matches_of_beq equal
    · rw [tupleForm_items found (fun none_ => absurd none_ bare) fun item pos same => dotted ⟨item, pos, same⟩, verdict_bind]
      have lists : ref.ListsItems := ⟨fun none_ => absurd none_ bare, fun item pos written => dotted ⟨item, pos, written⟩⟩
      cases verdict (again.args ref.args level) s with
      | none => exact .none
      | some made =>
        exact .some ⟨rfl, fun _ => rfl, fun excepted => absurd (excepted.resolve_left (not_not_intro lists)).1 bare⟩

section Prelude

variable (noHooks : r.hooks = .empty) {module : String} (table : r.table = .withPrelude module)

include noHooks table

omit [again.Steady] in
/-- `Tuple` of the prelude is the special form. -/
theorem plainReference_tupleForm (ref : Reference) (level : Nesting) (inLiteral : Bool) :
    r.plainReference again (ref.renamed "typing.Tuple") level inLiteral (.start s) =
      r.tupleForm again (ref.renamed "typing.Tuple") level (.start s) := by
  have member : Definition.variableDef (.untyped "typing.Tuple") ∈ Prelude.definitions := by
    simp [Prelude.definitions, Prelude.specialNames]
  have found : r.table.lookup (ref.renamed "typing.Tuple").name = some (.of (.variableDef (.untyped "typing.Tuple"))) := by
    rw [table]
    exact SymbolTable.lookup_withPrelude member (by decide +kernel) module
  have named : r.namedForm? s (ref.renamed "typing.Tuple").name = some .tuple := namedForm?_of_symbol found rfl rfl
  exact plainReference_of_namedForm noHooks named level inLiteral

variable (trusted : r.flags.allowUnnormalized = true)

include trusted

omit [again.Steady] in
/-- A definition of the prelude is used where its arguments are not complained about. -/
theorem plainReference_ofPrelude {d : Definition} (defines : Prelude.Defines d) (ref : Reference) (level : Nesting)
    (inLiteral : Bool) :
    r.plainReference again (ref.renamed d.fullname) level inLiteral (.start s) =
      r.definedType again d d.fullname (ref.renamed d.fullname) level inLiteral (.start s) := by
  have found : r.table.lookup (ref.renamed d.fullname).name = some (.of d) := by
    rw [table]
    exact SymbolTable.lookup_withPrelude defines.member defines.qualified module
  have settled : (Symbol.of d).isPending = false := by
    have member := defines.member
    cases d with
    | pendingDef decl => simp [Prelude.definitions] at member
    | _ => rfl
  have noForm : formOf? d s (Symbol.of d).fullname = none := by
    unfold formOf?
    split
    · rfl
    · exact defines.plain
  have silent : r.subscriptReports (Symbol.of d).fullname (ref.renamed d.fullname) = [] := by
    simp [subscriptReports, trusted]
  rw [plainReference_of_symbol found rfl settled, symbolType_start noHooks, noForm, silent]
  rfl

/-- A builtin class other than `tuple` is resolved like the alias of it, whatever its arguments. -/
theorem verdict_alias {builtin replacement : String} (entry : builtinReplacement? builtin = some (some replacement))
    (other : builtin ≠ "builtins.tuple") (ref : Reference) (level : Nesting) (inLiteral : Bool) :
    verdict (r.plainReference again (ref.renamed builtin) level inLiteral) s =
      verdict (r.plainReference again (ref.renamed replacement) level inLiteral) s := by
  obtain ⟨generic, rfl, isClass, isAlias⟩ := Prelude.replacement_isAlias entry other
  obtain ⟨noTuple, noRecord⟩ := Prelude.noBases isClass.member
  calc verdict (r.plainReference again (ref.renamed generic.fullname) level inLiteral) s
    _ = verdict (r.classType again generic ref.args ref.pos level) s :=
      verdict_congr (plainReference_ofPrelude noHooks table trusted isClass ref level inLiteral)
    _ = verdict (again.args ref.args level >>= fun resolved =>
          pure (.inst (r.repaired (.of generic.head resolved ref.pos) false none))) s :=
      verdict_classType noTuple noRecord (.inr other) ref.pos level
    _ = verdict (r.aliasType again ⟨replacement, .inst (.of generic.head [] .unknown), [], true, []⟩ replacement
          (ref.renamed replacement) level) s := (verdict_aliasType rfl rfl rfl replacement (ref.renamed replacement) level).symm
    _ = verdict (r.plainReference again (ref.renamed replacement) level inLiteral) s :=
      (verdict_congr (plainReference_ofPrelude noHooks table trusted isAlias ref level inLiteral)).symm

/-- Where arguments of the classes are not complained about, a builtin class and its replacement come to the same type unless the
class is `tuple`, read differently from `Tuple`. -/
theorem spellings_alike {builtin replacement : String} (entry : builtinReplacement? builtin = some (some replacement))
    (ref : Reference) (s : Scope) :
    Option.Rel (fun made made' => made.status = made'.status ∧
        ((made.type == made'.type) = true ↔ ¬ (builtin = "builtins.tuple" ∧ r.TupleApart ref)))
      ((r.resolve (.named (ref.renamed builtin)) (.start s)).map Prod.fst)
      ((r.resolve (.named (ref.renamed replacement)) (.start s)).map Prod.fst) := by
  obtain ⟨bound, atBound⟩ := r.allowance_eq_add (.named (ref.renamed builtin))
  have sameBound : r.allowance (.named (ref.renamed replacement)) = bound + 2 := by
    rw [← atBound]
    unfold allowance
    rw [weight_named, weight_named]
    rfl
  rw [resolve_verdict atBound, resolve_verdict sameBound]
  by_cases isTuple : builtin = "builtins.tuple"
  · subst isTuple
    obtain rfl : "typing.Tuple" = replacement := by
      cases entry
      rfl
    have found : r.table.findClass? "builtins.tuple" = some Prelude.tupleClass := by
      rw [table]
      exact Prelude.findClass?_tuple module
    have dots (pos : Position) : verdict ((r.recursion (bound + 1)).arg (.ellipsis pos) .top) s = some (.error, .complete) :=
      rfl
    have asClass : verdict (r.plainReference (r.recursion (bound + 1)) (ref.renamed "builtins.tuple") .top false) s =
        verdict (r.classType (r.recursion (bound + 1)) Prelude.tupleClass ref.args ref.pos .top) s :=
      verdict_congr (plainReference_ofPrelude noHooks table trusted Prelude.defines_tupleClass ref .top false)
    have asForm : verdict (r.plainReference (r.recursion (bound + 1)) (ref.renamed "typing.Tuple") .top false) s =
        verdict (r.tupleForm (r.recursion (bound + 1)) (ref.renamed "typing.Tuple") .top) s :=
      verdict_congr (plainReference_tupleForm noHooks table ref .top false)
    rw [asClass, asForm, Option.map_eq_bind, Option.map_eq_bind]
    refine rel_bind (tuple_spelledAlike found dots (ref.renamed "typing.Tuple")) fun made made' alike => .some ⟨alike.1, ?_⟩
    refine (alike.2.equal_iff ref.optional).trans (not_congr ?_)
    exact ⟨fun excepted => ⟨rfl, excepted⟩, And.right⟩
  · rw [verdict_alias noHooks table trusted entry isTuple]
    cases verdict (r.plainReference (r.recursion (bound + 1)) (ref.renamed replacement) .top false) s with
    | none => exact .none
    | some made =>
      have alike : SpelledAlike (builtin = "builtins.tuple" ∧ r.TupleApart ref) made.1 made.1 :=
        ⟨fun _ => rfl, fun excepted => absurd excepted.1 isTuple⟩
      exact .some ⟨rfl, alike.equal_iff ref.optional⟩

/-- The builtin classes and their replacements are spellings of the same types where arguments of the classes are not
complained about. Only a bare `tuple` is not a `Tuple` while an alias is defined; `tuple[()]` and `tuple[T, ...]`, which the class
reads as a bare one and as a list of two items, are left out here. -/
theorem builtinSpelling_iff {builtin replacement : String} (entry : builtinReplacement? builtin = some (some replacement))
    (ref : Reference) (s : Scope) :
    Option.Rel (fun made made' => made.status = made'.status ∧
        ((builtin = "builtins.tuple" → ref.ListsItems) → ((made.type == made'.type) = true ↔
          ¬ (builtin = "builtins.tuple" ∧ ref.args = [] ∧ r.flags.definingAlias = true))))
      ((r.resolve (.named (ref.renamed builtin)) (.start s)).map Prod.fst)
      ((r.resolve (.named (ref.renamed replacement)) (.start s)).map Prod.fst) := by
  refine rel_mono (spellings_alike noHooks table trusted entry ref s) fun made made' _ _ alike => ⟨alike.1, fun lists => ?_⟩
  refine alike.2.trans (not_congr (and_congr_right fun isTuple => ?_))
  exact or_iff_right (not_not_intro (lists isTuple))

/-- `tuple[()]` and `tuple[T, ...]` never come to the type that `Tuple[()]` and `Tuple[T, ...]` do. -/
theorem unlistedTuple_apart {ref : Reference} (unlisted : ¬ ref.ListsItems) {s : Scope} {made made' : Resolution}
    {q q' : Progress}
    (asClass : r.resolve (.named (ref.renamed "builtins.tuple")) (.start s) = some (made, q))
    (asForm : r.resolve (.named (ref.renamed "typing.Tuple")) (.start s) = some (made', q')) :
    (made.type == made'.type) = false := by
  have entry : builtinReplacement? "builtins.tuple" = some (some "typing.Tuple") := rfl
  have alike := spellings_alike noHooks table trusted entry ref s
  rw [asClass, asForm] at alike
  cases alike with
  | some alike => exact Bool.eq_false_iff.2 fun equal => alike.2.1 equal ⟨rfl, .inl unlisted⟩

end Prelude

/-- The resolver of a trusted declaration in a module that knows nothing but the prelude. -/
def trustedPrelude : Resolver := { ofPrelude "m" with flags := { Flags.default with allowUnnormalized := true } }

/-- A list with a wrong number of arguments is the same under both names. -/
theorem builtinSpelling_iff_list :
    ∃ made made', (trustedPrelude.resolve (.named (.of "builtins.list" [.noneType .unknown, .noneType .unknown]))
        (.start .root)).map Prod.fst = some made ∧
      (trustedPrelude.resolve (.named (.of "typing.List" [.noneType .unknown, .noneType .unknown]))
        (.start .root)).map Prod.fst = some made' ∧ made.status = made'.status ∧ (made.type == made'.type) = true := by
  have entry : builtinReplacement? "builtins.list" = some (some "typing.List") := rfl
  have related := builtinSpelling_iff (r := trustedPrelude) rfl rfl rfl entry
    (.of "" [.noneType .unknown, .noneType .unknown]) .root
  have asClass : ∃ made, (trustedPrelude.resolve (.named ((Reference.of "" [.noneType .unknown, .noneType .unknown]).renamed
      "builtins.list")) (.start .root)).map Prod.fst = some made := ⟨_, rfl⟩
  obtain ⟨made, asClass⟩ := asClass
  rw [asClass] at related
  cases asAlias : (trustedPrelude.resolve (.named ((Reference.of "" [.noneType .unknown, .noneType .unknown]).renamed
      "typing.List")) (.start .root)).map Prod.fst with
  | none =>
    rw [asAlias] at related
    cases related
  | some made' =>
    rw [asAlias] at related
    cases related with
    | some alike => exact ⟨made, made', asClass, asAlias, alike.1, (alike.2 nofun).2 nofun⟩

/-- While an alias is defined a bare `tuple` has no arguments, and a bare `Tuple` has one. -/
theorem bareTuple_apart :
    ∃ made made' q q', ({ trustedPrelude with flags := { trustedPrelude.flags with definingAlias := true } } : Resolver).resolve
        (.named (.of "builtins.tuple" [])) (.start .root) = some (made, q) ∧
      ({ trustedPrelude with flags := { trustedPrelude.flags with definingAlias := true } } : Resolver).resolve
        (.named (.of "typing.Tuple" [])) (.start .root) = some (made', q') ∧ (made.type == made'.type) = false :=
  ⟨_, _, _, _, rfl, rfl, rfl⟩

end Resolver

end TypeResolution
