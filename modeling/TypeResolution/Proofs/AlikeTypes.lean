import TypeResolution.Proofs.InferredVariables
import TypeResolution.Proofs.SteadyForms
import TypeResolution.Proofs.Unexplained

namespace TypeResolution

open Resolve

/-- Two values agree in what `look` shows of them, and in everything where `exact` holds. -/
structure Alike {α β : Type} (exact : Prop) (look : α → β) (a b : α) : Prop where
  shown : look a = look b
  same : exact → a = b

namespace Alike

variable {α β γ δ : Type} {exact exact' : Prop} {look : α → β} {look' : γ → δ}

theorem refl (a : α) : Alike exact look a a := ⟨rfl, fun _ => rfl⟩

theorem mono {a b : α} (alike : Alike exact look a b) (weaker : exact' → exact) : Alike exact' look a b :=
  ⟨alike.shown, fun holds => alike.same (weaker holds)⟩

theorem map {a b : α} (alike : Alike exact look a b) {f : α → γ} (shows : look a = look b → look' (f a) = look' (f b)) :
    Alike exact look' (f a) (f b) :=
  ⟨shows alike.shown, fun holds => congrArg f (alike.same holds)⟩

theorem cons {x y : α} {xs ys : List α} (first : Alike exact look x y) (rest : Alike exact (List.map look) xs ys) :
    Alike exact (List.map look) (x :: xs) (y :: ys) :=
  ⟨by rw [List.map_cons, List.map_cons, first.shown, rest.shown], fun holds => by rw [first.same holds, rest.same holds]⟩

theorem single {x y : α} (alike : Alike exact look x y) : Alike exact (List.map look) [x] [y] := alike.cons (.refl [])

theorem nil_left {ys : List α} (alike : Alike exact (List.map look) [] ys) : ys = [] :=
  List.map_eq_nil_iff.1 alike.shown.symm

theorem cons_left {x : α} {xs ys : List α} (alike : Alike exact (List.map look) (x :: xs) ys) :
    ∃ y rest, ys = y :: rest ∧ Alike exact look x y ∧ Alike exact (List.map look) xs rest := by
  obtain ⟨shown, same⟩ := alike
  cases ys with
  | nil => cases shown
  | cons y rest =>
    obtain ⟨first, others⟩ := List.cons_eq_cons.1 shown
    exact ⟨y, rest, rfl, ⟨first, fun holds => (List.cons_eq_cons.1 (same holds)).1⟩,
      ⟨others, fun holds => (List.cons_eq_cons.1 (same holds)).2⟩⟩

theorem append {xs ys xs' ys' : List α} (first : Alike exact (List.map look) xs ys)
    (next : Alike exact (List.map look) xs' ys') : Alike exact (List.map look) (xs ++ xs') (ys ++ ys') :=
  ⟨by rw [List.map_append, List.map_append, first.shown, next.shown],
    fun holds => by rw [first.same holds, next.same holds]⟩

theorem length_eq {xs ys : List α} (alike : Alike exact (List.map look) xs ys) : xs.length = ys.length := by
  simpa using congrArg List.length alike.shown

theorem isEmpty_eq {xs ys : List α} (alike : Alike exact (List.map look) xs ys) : xs.isEmpty = ys.isEmpty := by
  cases xs with
  | nil => rw [alike.nil_left]
  | cons x xs =>
    obtain ⟨y, rest, rfl, _⟩ := alike.cons_left
    rfl

theorem some {x y : α} (alike : Alike exact look x y) : Alike exact (Option.map look) (some x) (some y) :=
  ⟨congrArg Option.some alike.shown, fun holds => congrArg Option.some (alike.same holds)⟩

theorem none_left {o : Option α} (alike : Alike exact (Option.map look) none o) : o = none :=
  Option.map_eq_none_iff.1 alike.shown.symm

theorem some_left {x : α} {o : Option α} (alike : Alike exact (Option.map look) (Option.some x) o) :
    ∃ y, o = Option.some y ∧ Alike exact look x y := by
  obtain ⟨y, rfl, shown⟩ := Option.map_eq_some_iff.1 alike.shown.symm
  exact ⟨y, rfl, shown.symm, fun holds => Option.some.inj (alike.same holds)⟩

end Alike

/-- What two types are made of that agree without the reasons for an `Any` in them. -/
inductive Ty.AlikeForm (exact : Prop) : Ty → Ty → Prop
  | any {origin origin' missing pos} : (exact → origin = origin') → AlikeForm exact (.any origin missing pos) (.any origin' missing pos)
  | noneType {pos} : AlikeForm exact (.noneType pos) (.noneType pos)
  | never {noReturn pos} : AlikeForm exact (.never noReturn pos) (.never noReturn pos)
  | deleted {source pos} : AlikeForm exact (.deleted source pos) (.deleted source pos)
  | typeVar {binding binding' pos} : Alike exact TypeVarBinding.unexplained binding binding' →
      AlikeForm exact (.typeVar binding pos) (.typeVar binding' pos)
  | inst {i i'} : Alike exact Instance.unexplained i i' → AlikeForm exact (.inst i) (.inst i')
  | tuple {shape items fallback} : Alike exact (List.map Ty.unexplained) shape.items items →
      Alike exact Instance.unexplained shape.fallback fallback →
      AlikeForm exact (.tuple shape) (.tuple { shape with items := items, fallback := fallback })
  | record {shape fields fallback} :
      Alike exact (List.map fun field => (field.1, field.2.unexplained)) shape.fields fields →
      Alike exact Instance.unexplained shape.fallback fallback →
      AlikeForm exact (.record shape) (.record { shape with fields := fields, fallback := fallback })
  | callable {s args ret fallback bindings} : Alike exact (List.map Ty.unexplained) s.args args →
      Alike exact Ty.unexplained s.ret ret → Alike exact (Option.map Instance.unexplained) s.fallback fallback →
      Alike exact (List.map TypeVarBinding.unexplained) s.bindings bindings →
      AlikeForm exact (.callable s) (.callable { s with args := args, ret := ret, fallback := fallback, bindings := bindings })
  | union {ms ms' pos} : Alike exact (List.map Ty.unexplained) ms ms' → AlikeForm exact (.union ms pos) (.union ms' pos)
  | literal {l l'} : Alike exact Literal.unexplained l l' → AlikeForm exact (.literal l) (.literal l')
  | classObject {item item' pos} : Alike exact Ty.unexplained item item' →
      AlikeForm exact (.classObject item pos) (.classObject item' pos)
  | star {item item' pos} : Alike exact Ty.unexplained item item' → AlikeForm exact (.star item pos) (.star item' pos)
  | forward {fullname args args' pos} : Alike exact (List.map Ty.unexplained) args args' →
      AlikeForm exact (.forward fullname args pos) (.forward fullname args' pos)
  | named {ref args} : Alike exact (List.map Ty.unexplained) ref.args args →
      AlikeForm exact (.named ref) (.named (ref.withArgs args))
  | bracketed {items items' pos} : Alike exact (List.map Ty.unexplained) items items' →
      AlikeForm exact (.bracketed items pos) (.bracketed items' pos)
  | argument {item item' name form pos} : Alike exact Ty.unexplained item item' →
      AlikeForm exact (.argument item name form pos) (.argument item' name form pos)
  | ellipsis {pos} : AlikeForm exact (.ellipsis pos) (.ellipsis pos)
  | scalar {value className note pos} :
      AlikeForm exact (.scalar value className note pos) (.scalar value className note pos)

namespace Ty

variable {exact : Prop}

theorem ctorIdx_eq_of_alike {t u : Ty} (alike : Alike exact unexplained t u) : t.ctorIdx = u.ctorIdx := by
  rw [← form_unexplained t, alike.shown, form_unexplained]

theorem alikeForm_tuple {shape : TupleShape} {u : Ty} (alike : Alike exact unexplained (.tuple shape) u) :
    AlikeForm exact (.tuple shape) u := by
  cases u <;> cases ctorIdx_eq_of_alike alike
  rename_i shape'
  obtain ⟨shown, same⟩ := alike
  obtain ⟨items, fallback, implicit, pos⟩ := shape
  obtain ⟨items', fallback', implicit', pos'⟩ := shape'
  simp only [unexplained, unexplainedAll_eq, tuple.injEq, TupleShape.mk.injEq] at shown same
  obtain ⟨inItems, atFallback, rfl, rfl⟩ := shown
  exact .tuple ⟨inItems, fun holds => (same holds).1⟩ ⟨atFallback, fun holds => (same holds).2.1⟩

theorem alikeForm_record {shape : RecordShape} {u : Ty} (alike : Alike exact unexplained (.record shape) u) :
    AlikeForm exact (.record shape) u := by
  cases u <;> cases ctorIdx_eq_of_alike alike
  rename_i shape'
  obtain ⟨shown, same⟩ := alike
  obtain ⟨fields, required, fallback, pos⟩ := shape
  obtain ⟨fields', required', fallback', pos'⟩ := shape'
  simp only [unexplained, unexplainedFields_eq, record.injEq, RecordShape.mk.injEq] at shown same
  obtain ⟨inFields, rfl, atFallback, rfl⟩ := shown
  exact .record ⟨inFields, fun holds => (same holds).1⟩ ⟨atFallback, fun holds => (same holds).2.2.1⟩

theorem alikeForm_callable {signature : Signature} {u : Ty} (alike : Alike exact unexplained (.callable signature) u) :
    AlikeForm exact (.callable signature) u := by
  cases u <;> cases ctorIdx_eq_of_alike alike
  rename_i signature'
  obtain ⟨shown, same⟩ := alike
  obtain ⟨args, kinds, names, ret, fallback, bindings, anyArgs, pos⟩ := signature
  obtain ⟨args', kinds', names', ret', fallback', bindings', anyArgs', pos'⟩ := signature'
  simp only [unexplained, unexplainedAll_eq, Instance.unexplainedOption_eq, TypeVarBinding.unexplainedAll_eq,
    callable.injEq, Signature.mk.injEq] at shown same
  obtain ⟨inArgs, rfl, rfl, atRet, atFallback, inBindings, rfl, rfl⟩ := shown
  exact .callable ⟨inArgs, fun holds => (same holds).1⟩ ⟨atRet, fun holds => (same holds).2.2.2.1⟩
    ⟨atFallback, fun holds => (same holds).2.2.2.2.1⟩ ⟨inBindings, fun holds => (same holds).2.2.2.2.2.1⟩

theorem alikeForm_named {ref : Reference} {u : Ty} (alike : Alike exact unexplained (.named ref) u) :
    AlikeForm exact (.named ref) u := by
  cases u <;> cases ctorIdx_eq_of_alike alike
  rename_i ref'
  obtain ⟨shown, same⟩ := alike
  obtain ⟨name, args, optional, emptyTuple, quoted, quotedClass, pos⟩ := ref
  obtain ⟨name', args', optional', emptyTuple', quoted', quotedClass', pos'⟩ := ref'
  simp only [unexplained, unexplainedAll_eq, named.injEq, Reference.mk.injEq] at shown same
  obtain ⟨rfl, inArgs, rfl, rfl, rfl, rfl, rfl⟩ := shown
  exact .named ⟨inArgs, fun holds => (same holds).2.1⟩

theorem alikeForm_of_alike {t u : Ty} (alike : Alike exact unexplained t u) : AlikeForm exact t u := by
  cases t with
  | tuple => exact alikeForm_tuple alike
  | record => exact alikeForm_record alike
  | callable => exact alikeForm_callable alike
  | named => exact alikeForm_named alike
  | any =>
    cases u <;> cases ctorIdx_eq_of_alike alike
    obtain ⟨shown, same⟩ := alike
    simp only [unexplained, any.injEq] at shown same
    obtain ⟨_, rfl, rfl⟩ := shown
    exact .any fun holds => (same holds).1
  | inst | literal =>
    cases u <;> cases ctorIdx_eq_of_alike alike
    obtain ⟨shown, same⟩ := alike
    simp only [unexplained, inst.injEq, literal.injEq] at shown same
    constructor
    exact ⟨shown, same⟩
  | typeVar | union | classObject | star | bracketed =>
    cases u <;> cases ctorIdx_eq_of_alike alike
    obtain ⟨shown, same⟩ := alike
    simp only [unexplained, unexplainedAll_eq, typeVar.injEq, union.injEq, classObject.injEq, star.injEq,
      bracketed.injEq] at shown same
    obtain ⟨parts, rfl⟩ := shown
    constructor
    exact ⟨parts, fun holds => (same holds).1⟩
  | forward =>
    cases u <;> cases ctorIdx_eq_of_alike alike
    obtain ⟨shown, same⟩ := alike
    simp only [unexplained, unexplainedAll_eq, forward.injEq] at shown same
    obtain ⟨rfl, inArgs, rfl⟩ := shown
    exact .forward ⟨inArgs, fun holds => (same holds).2.1⟩
  | argument =>
    cases u <;> cases ctorIdx_eq_of_alike alike
    obtain ⟨shown, same⟩ := alike
    simp only [unexplained, argument.injEq] at shown same
    obtain ⟨atItem, rfl, rfl, rfl⟩ := shown
    exact .argument ⟨atItem, fun holds => (same holds).1⟩
  | noneType | never | deleted | ellipsis | scalar =>
    cases u <;> cases ctorIdx_eq_of_alike alike
    cases alike.shown
    constructor

theorem AlikeForm.alike {t u : Ty} (form : AlikeForm exact t u) : Alike exact unexplained t u := by
  cases form with
  | any same => exact ⟨rfl, fun holds => by rw [same holds]⟩
  | noneType | never | deleted | ellipsis | scalar => exact .refl _
  | @tuple shape items fallback inItems atFallback =>
    obtain ⟨items', fallback', implicit, pos⟩ := shape
    refine ⟨?_, fun holds => ?_⟩
    · simpa [unexplained] using ⟨inItems.shown, atFallback.shown⟩
    · rw [← inItems.same holds, ← atFallback.same holds]
  | @record shape fields fallback inFields atFallback =>
    obtain ⟨fields', required, fallback', pos⟩ := shape
    refine ⟨?_, fun holds => ?_⟩
    · simpa [unexplained] using ⟨inFields.shown, atFallback.shown⟩
    · rw [← inFields.same holds, ← atFallback.same holds]
  | @callable s args ret fallback bindings inArgs atRet atFallback inBindings =>
    obtain ⟨args', kinds, names, ret', fallback', bindings', anyArgs, pos⟩ := s
    refine ⟨?_, fun holds => ?_⟩
    · simpa [unexplained] using ⟨inArgs.shown, atRet.shown, atFallback.shown, inBindings.shown⟩
    · rw [← inArgs.same holds, ← atRet.same holds, ← atFallback.same holds, ← inBindings.same holds]
  | @named ref args inArgs =>
    obtain ⟨name, args', optional, emptyTuple, quoted, quotedClass, pos⟩ := ref
    refine ⟨?_, fun holds => ?_⟩
    · simpa [unexplained, Reference.withArgs] using inArgs.shown
    · rw [← inArgs.same holds]
      rfl
  | typeVar parts | inst parts | union parts | literal parts | classObject parts | star parts | forward parts
  | bracketed parts | argument parts =>
    exact ⟨by simpa [unexplained] using parts.shown, fun holds => by rw [parts.same holds]⟩

theorem makeUnion_alike {ts us : List Ty} (alike : Alike exact (List.map unexplained) ts us) (pos : Position) :
    Alike exact unexplained (makeUnion ts pos) (makeUnion us pos) :=
  ⟨by rw [unexplained_makeUnion, unexplained_makeUnion, alike.shown], fun holds => by rw [alike.same holds]⟩

theorem makeOptional_alike {t u : Ty} (alike : Alike exact unexplained t u) :
    Alike exact unexplained t.makeOptional u.makeOptional :=
  alike.map fun shown => by rw [unexplained_makeOptional, unexplained_makeOptional, shown]

theorem makeClassObject_alike {t u : Ty} (alike : Alike exact unexplained t u) (pos : Position) :
    Alike exact unexplained (t.makeClassObject pos) (u.makeClassObject pos) :=
  ⟨by rw [unexplained_makeClassObject, unexplained_makeClassObject, alike.shown], fun holds => by rw [alike.same holds]⟩

end Ty

/-! Scopes that agree -/

/-- Two scopes agree: they bind the same names to variables that agree, and give the same ids. -/
structure Scope.AlikeScope (exact : Prop) (s s' : Scope) : Prop where
  found (name : String) : (s.find? name).map TypeVarBinding.unexplained = (s'.find? name).map TypeVarBinding.unexplained
  allows (name : String) : s.allows name = s'.allows name
  ofClass : s.isClass = s'.isClass
  functionIds : s.functionIds = s'.functionIds
  classIds : s.classIds = s'.classIds
  same : exact → s = s'

namespace Scope

variable {exact exact' : Prop} {s s' : Scope}

namespace AlikeScope

theorem refl (s : Scope) : AlikeScope exact s s := ⟨fun _ => rfl, fun _ => rfl, rfl, rfl, rfl, fun _ => rfl⟩

theorem mono (alike : AlikeScope exact s s') (weaker : exact' → exact) : AlikeScope exact' s s' :=
  { alike with same := fun holds => alike.same (weaker holds) }

theorem binding (alike : AlikeScope exact s s') (name : String) :
    Alike exact (Option.map TypeVarBinding.unexplained) (s.find? name) (s'.find? name) :=
  ⟨alike.found name, fun holds => by rw [alike.same holds]⟩

theorem isSome_eq (alike : AlikeScope exact s s') (name : String) : (s.find? name).isSome = (s'.find? name).isSome := by
  simpa using congrArg Option.isSome (alike.found name)

theorem nextId (alike : AlikeScope exact s s') : s.nextId = s'.nextId := by
  simp only [Scope.nextId, alike.ofClass, alike.functionIds, alike.classIds]

theorem freshBinding (alike : AlikeScope exact s s') (name : String) (decl : TypeVarDecl) :
    s.freshBinding name decl = s'.freshBinding name decl := by
  simp only [Scope.freshBinding, alike.nextId]

theorem functionFrame (alike : AlikeScope exact s s') : AlikeScope exact s.functionFrame s'.functionFrame where
  found name := by rw [find?_functionFrame, find?_functionFrame, alike.found]
  allows name := by simp [Scope.functionFrame, openFrame, Scope.allows, alike.allows]
  ofClass := rfl
  functionIds := alike.functionIds
  classIds := alike.classIds
  same holds := by rw [alike.same holds]

theorem insert (alike : AlikeScope exact s s') {name : String} {binding binding' : TypeVarBinding}
    (agree : Alike exact TypeVarBinding.unexplained binding binding') (functionIds classIds : Int) :
    AlikeScope exact (s.insert name binding functionIds classIds) (s'.insert name binding' functionIds classIds) where
  found other := by
    rw [find?_insert, find?_insert]
    split
    · rw [Option.map_some, Option.map_some, agree.shown]
    · exact alike.found other
  allows other := by rw [allows_insert, allows_insert, alike.allows]
  ofClass := alike.ofClass
  functionIds := rfl
  classIds := rfl
  same holds := by rw [alike.same holds, agree.same holds]

theorem bindExisting (alike : AlikeScope exact s s') {binding binding' : TypeVarBinding}
    (agree : Alike exact TypeVarBinding.unexplained binding binding') :
    AlikeScope exact (s.bindExisting binding) (s'.bindExisting binding') := by
  have sameName : binding.fullname = binding'.fullname := by
    have shown := agree.shown
    cases binding; cases binding'
    exact (TypeVarBinding.mk.injEq .. ▸ shown).2.1
  unfold Scope.bindExisting
  rw [← sameName, ← alike.functionIds, ← alike.classIds]
  exact alike.insert agree s.functionIds s.classIds

theorem bindNew (alike : AlikeScope exact s s') (name : String) (decl : TypeVarDecl) :
    AlikeScope exact (s.bindNew name decl) (s'.bindNew name decl) := by
  have inserted : s'.bindNew name decl = s'.insert decl.fullname (s.freshBinding name decl)
      (if s.isClass then s.functionIds else s.nextId) (if s.isClass then s.nextId else s.classIds) := by
    rw [alike.freshBinding, alike.functionIds, alike.classIds, alike.nextId, alike.ofClass]
    rfl
  rw [inserted]
  exact alike.insert (.refl _) _ _

theorem bindDeclared (table : SymbolTable) (alike : AlikeScope exact s s') {binding binding' : TypeVarBinding}
    (agree : Alike exact TypeVarBinding.unexplained binding binding') :
    AlikeScope exact (s.bindDeclared table binding) (s'.bindDeclared table binding') := by
  have sameName : binding.name = binding'.name := by
    have shown := agree.shown
    cases binding; cases binding'
    exact (TypeVarBinding.mk.injEq .. ▸ shown).1
  unfold Scope.bindDeclared
  rw [sameName]
  split
  · exact alike.bindNew _ _
  · exact alike.bindExisting agree

theorem foldl_bindDeclared (table : SymbolTable) (alike : AlikeScope exact s s') {bindings bindings' : List TypeVarBinding}
    (agree : Alike exact (List.map TypeVarBinding.unexplained) bindings bindings') :
    AlikeScope exact (bindings.foldl (Scope.bindDeclared table) s) (bindings'.foldl (Scope.bindDeclared table) s') := by
  induction bindings generalizing s s' bindings' with
  | nil =>
    rw [agree.nil_left]
    exact alike
  | cons binding bindings ih =>
    obtain ⟨binding', rest, rfl, first, others⟩ := agree.cons_left
    exact ih (alike.bindDeclared table first) others

theorem bindsName (table : SymbolTable) (alike : AlikeScope exact s s') (name : String) :
    s.bindsName table name = s'.bindsName table name := by
  simp only [Scope.bindsName, alike.isSome_eq]

/-- The variables that a signature uses are bound alike. -/
theorem bindUses (table : SymbolTable) (pos : Position) (uses : List VariableUse) (alike : AlikeScope exact s s') :
    AlikeScope exact (s.bindUses table pos uses).scope (s'.bindUses table pos uses).scope ∧
      (s.bindUses table pos uses).bindings = (s'.bindUses table pos uses).bindings ∧
      (s.bindUses table pos uses).reports = (s'.bindUses table pos uses).reports := by
  induction uses generalizing s s' with
  | nil => exact ⟨alike, rfl, rfl⟩
  | cons use uses ih =>
    obtain ⟨name, decl⟩ := use
    unfold Scope.bindUses
    rw [alike.bindsName table]
    split
    · exact ih alike
    · obtain ⟨scopes, bindings, reports⟩ := ih (alike.bindNew name decl)
      dsimp only
      rw [bindings, reports, alike.freshBinding, alike.allows]
      exact ⟨scopes, rfl, rfl⟩

end AlikeScope

end Scope

namespace VariableSearch

variable {exact : Prop}

/-- The same variables are found in types that agree. -/
theorem run_alike {search search' : VariableSearch} (scopes : Scope.AlikeScope exact search.scope search'.scope)
    (rest : search' = { search with scope := search'.scope }) {t u : Ty} (alike : t.unexplained = u.unexplained) :
    search.run t = search'.run u := by
  have sameFound (ref ref' : Reference) (sameName : ref'.name = ref.name) : search.found? ref = search'.found? ref' := by
    unfold found?
    rw [rest, sameName]
    congr 1
    funext decl
    have free := congrArg not (scopes.isSome_eq decl.fullname)
    simpa using congrArg (search.includeBound || ·) free
  induction t using Ty.inductionOn generalizing u with
  | step t ih =>
    have parts : t.children.map search.run = u.children.map search'.run := by
      have shown : t.children.map Ty.unexplained = u.children.map Ty.unexplained := by
        rw [← Ty.children_unexplained, alike, Ty.children_unexplained]
      have each : ∀ ts us : List Ty, (∀ c ∈ ts, c ∈ t.children) → ts.map Ty.unexplained = us.map Ty.unexplained →
          ts.map search.run = us.map search'.run := by
        intro ts
        induction ts with
        | nil =>
          intro us _ same
          rw [List.map_eq_nil_iff.1 same.symm]
          rfl
        | cons c ts inTail =>
          intro us within same
          cases us with
          | nil => cases same
          | cons d us =>
            obtain ⟨first, others⟩ := List.cons_eq_cons.1 same
            rw [List.map_cons, List.map_cons, ih c (within c List.mem_cons_self) first,
              inTail us (fun c member => within c (List.mem_cons_of_mem _ member)) others]
      exact each t.children u.children (fun _ => id) shown
    have sameInside : search'.insideCallables = search.insideCallables := by rw [rest]
    have sameTable : search'.table = search.table := by rw [rest]
    rw [run_eq, run_eq, parts]
    cases Ty.alikeForm_of_alike ⟨alike, False.elim⟩ with
    | @named ref args inArgs =>
      have sameEntry : search.entersReference ref = search'.entersReference (ref.withArgs args) := by
        have seems : seemsCallable ref = seemsCallable (ref.withArgs args) := by
          unfold seemsCallable
          cases atArgs : ref.args with
          | nil =>
            rw [atArgs] at inArgs
            rw [inArgs.nil_left]
            rfl
          | cons first others =>
            rw [atArgs] at inArgs
            obtain ⟨first', rest, rfl, atFirst, _⟩ := inArgs.cons_left
            cases Ty.alikeForm_of_alike atFirst <;> rfl
        simp only [entersReference, sameInside, sameTable, seems]
        rfl
      simp only [sameFound ref (ref.withArgs args) rfl, sameEntry]
      rfl
    | callable => simp only [sameInside]
    | _ => rfl

end VariableSearch

/-- Signatures that agree quantify over the same variables where the scopes agree. -/
theorem inferTypeVariables_alike (table : SymbolTable) {exact : Prop} {s s' : Scope} (scopes : s.AlikeScope exact s')
    {signature signature' : Signature} (args : signature.args.map Ty.unexplained = signature'.args.map Ty.unexplained)
    (ret : signature.ret.unexplained = signature'.ret.unexplained) :
    inferTypeVariables table s signature = inferTypeVariables table s' signature' := by
  have inArgs : ∀ (ts us : List Ty) (known : List VariableUse), ts.map Ty.unexplained = us.map Ty.unexplained →
      ts.foldl (fun known t => addNewNames known ((VariableSearch.of table s).run t)) known =
        us.foldl (fun known t => addNewNames known ((VariableSearch.of table s').run t)) known := by
    intro ts
    induction ts with
    | nil =>
      intro us known same
      rw [List.map_eq_nil_iff.1 same.symm]
      rfl
    | cons t ts ih =>
      intro us known same
      cases us with
      | nil => cases same
      | cons u us =>
        obtain ⟨first, others⟩ := List.cons_eq_cons.1 same
        have atFirst : (VariableSearch.of table s).run t = (VariableSearch.of table s').run u :=
          VariableSearch.run_alike scopes rfl first
        rw [List.foldl_cons, List.foldl_cons, atFirst]
        exact ih us _ others
  unfold inferTypeVariables
  dsimp only
  rw [inArgs _ _ [] args]
  congr 1
  exact VariableSearch.run_alike scopes rfl ret

end TypeResolution
