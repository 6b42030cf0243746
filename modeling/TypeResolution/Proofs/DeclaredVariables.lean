import TypeResolution.Proofs.SettledVariables
import TypeResolution.Proofs.VariableIds

namespace TypeResolution

open Resolve

/-- The name of a variable stands for a type variable. -/
def SymbolTable.knowsVariable (table : SymbolTable) (v : TypeVarBinding) : Bool := (table.lookupTypeVar? v.name).isSome

/-- If the name of a declared variable stands for a type variable, then for the declared one. -/
def SymbolTable.DeclaresOwn (table : SymbolTable) (v : TypeVarBinding) : Prop :=
  ∀ decl, table.lookupTypeVar? v.name = some decl → decl.fullname = v.fullname

namespace Scope

variable {table : SymbolTable} {s : Scope}

/-- What a declared variable is bound to: itself, unless its name stands for a type variable. -/
def declaredBinding (table : SymbolTable) (s : Scope) (v : TypeVarBinding) : TypeVarBinding :=
  match table.lookupTypeVar? v.name with
  | some decl => s.freshBinding v.name decl
  | none => v

/-- A variable is bound under the full name that its declaration gives. -/
theorem bindDeclared_bindings {v : TypeVarBinding} (own : table.DeclaresOwn v) (s : Scope) :
    (s.bindDeclared table v).bindings = s.bindings.insert v.fullname (s.declaredBinding table v) ∧
    (s.bindDeclared table v).outer = s.outer := by
  unfold bindDeclared declaredBinding
  cases known : table.lookupTypeVar? v.name with
  | none => exact ⟨rfl, rfl⟩
  | some decl =>
    rw [← own decl known]
    exact ⟨rfl, rfl⟩

theorem find?_bindDeclared_self {v : TypeVarBinding} (own : table.DeclaresOwn v) (s : Scope) :
    (s.bindDeclared table v).find? v.fullname = some (s.declaredBinding table v) := by
  rw [find?_eq, (bindDeclared_bindings own s).1, NameMap.find?_insert_self]
  rfl

theorem find?_bindDeclared_other {v : TypeVarBinding} (own : table.DeclaresOwn v) {name : String} (other : name ≠ v.fullname)
    (s : Scope) : (s.bindDeclared table v).find? name = s.find? name := by
  rw [find?_eq, (bindDeclared_bindings own s).1, (bindDeclared_bindings own s).2, NameMap.find?_insert_other _ _ other,
    ← find?_eq]

theorem find?_foldl_other {vs : List TypeVarBinding} (own : ∀ v ∈ vs, table.DeclaresOwn v) {name : String}
    (others : ∀ v ∈ vs, name ≠ v.fullname) (s : Scope) : (vs.foldl (bindDeclared table) s).find? name = s.find? name := by
  induction vs generalizing s with
  | nil => rfl
  | cons v vs ih =>
    rw [List.forall_mem_cons] at own others
    exact (ih own.2 others.2 _).trans (find?_bindDeclared_other own.1 others.1 s)

/-- The next id is used up by a variable only if its name stands for a type variable. -/
theorem functionIds_bindDeclared (table : SymbolTable) (ofFunction : s.isClass = false) (v : TypeVarBinding) :
    (s.bindDeclared table v).isClass = false ∧
    (s.bindDeclared table v).functionIds = s.functionIds - if table.knowsVariable v then 1 else 0 := by
  unfold bindDeclared SymbolTable.knowsVariable
  cases table.lookupTypeVar? v.name with
  | none => exact ⟨ofFunction, (Int.sub_zero _).symm⟩
  | some decl =>
    refine ⟨ofFunction, ?_⟩
    simp only [(counters_bindNew s v.name decl).1, ofFunction, Option.isSome_some, Bool.false_eq_true, if_true, if_false]

theorem functionIds_foldl (table : SymbolTable) (ofFunction : s.isClass = false) (vs : List TypeVarBinding) :
    (vs.foldl (bindDeclared table) s).isClass = false ∧
    (vs.foldl (bindDeclared table) s).functionIds = s.functionIds - vs.countP table.knowsVariable := by
  induction vs generalizing s with
  | nil => exact ⟨ofFunction, (Int.sub_zero _).symm⟩
  | cons v vs ih =>
    obtain ⟨stays, counted⟩ := functionIds_bindDeclared table ofFunction v
    refine ⟨(ih stays).1, ?_⟩
    rw [List.foldl_cons, (ih stays).2, counted, List.countP_cons]
    split <;> omega

/-- What a declared variable is bound to keeps its full name, and it keeps its id if it is not numbered anew, or if the
next number happens to be its id. -/
theorem declaredBinding_id_iff (ofFunction : s.isClass = false) {v : TypeVarBinding} (own : table.DeclaresOwn v) :
    (s.declaredBinding table v).fullname = v.fullname ∧
    ((s.declaredBinding table v).id = v.id ↔ table.lookupTypeVar? v.name = none ∨ v.id = s.functionIds - 1) := by
  unfold declaredBinding
  cases known : table.lookupTypeVar? v.name with
  | none => simp
  | some decl =>
    have next : (s.freshBinding v.name decl).id = s.functionIds - 1 := by simp [freshBinding, nextId, ofFunction]
    refine ⟨own decl known, ?_⟩
    dsimp only
    rw [next]
    simp [eq_comm]

/-- Of variables that are declared one after the other each is bound to what it is when its turn comes. -/
theorem find?_foldl_declared {before after : List TypeVarBinding} {v : TypeVarBinding}
    (own : ∀ d ∈ before ++ v :: after, table.DeclaresOwn d)
    (distinct : ((before ++ v :: after).map (·.fullname)).Nodup) (s : Scope) :
    ((before ++ v :: after).foldl (bindDeclared table) s).find? v.fullname =
      some ((before.foldl (bindDeclared table) s).declaredBinding table v) := by
  have ownHere : table.DeclaresOwn v := own v (by simp)
  have ownAfter : ∀ d ∈ after, table.DeclaresOwn d := fun d member => own d (by simp [member])
  -- a later variable of the same name would take the place of this one
  have others : ∀ d ∈ after, v.fullname ≠ d.fullname := by
    rw [List.map_append, List.map_cons] at distinct
    have notAgain := (List.nodup_cons.1 (List.nodup_append.1 distinct).2.1).1
    exact fun d member same => notAgain (same ▸ List.mem_map_of_mem member)
  rw [List.foldl_append, List.foldl_cons, find?_foldl_other ownAfter others, find?_bindDeclared_self ownHere]

end Scope

theorem forall₂_at {α β : Type} {R : α → β → Prop} {before after : List α} {x : α} {ys : List β}
    (related : List.Forall₂ R (before ++ x :: after) ys) : ∃ y, ys[before.length]? = some y ∧ R x y := by
  induction before generalizing ys with
  | nil =>
    cases related with
    | cons here _ => exact ⟨_, rfl, here⟩
  | cons _ before ih =>
    cases related with
    | cons _ rest => exact ih rest

namespace Resolver

variable {r : Resolver}

/-- A reference by name to the type variable `fullname`. -/
def RefersTo (r : Resolver) (ref : Reference) (fullname : String) : Prop :=
  ∃ symbol decl, r.table.lookup ref.name = some symbol ∧ symbol.definition = some (.typeVarDef decl) ∧
    symbol.fullname = fullname

/-- In a signature that stands in the scope `s`, the type variable `fullname` is the binding `b`. -/
structure StandsFor (r : Resolver) (s : Scope) (signature : Signature) (fullname : String) (b : TypeVarBinding) : Prop where
  /-- A reference is resolved to the binding, or with the suffix `?` to it or `None`. -/
  resolved {ref : Reference} : r.RefersTo ref fullname → ∀ n level, level.level ≤ maxNesting →
    outcome ((r.recursion (n + 1)).expr (.named ref) level) (r.innerScope s signature) =
      outcome (pure (if ref.optional then (Ty.typeVar b ref.pos).makeOptional else .typeVar b ref.pos))
        (r.innerScope s signature)
  /-- The binding is put in for a reference wherever the arguments or the result hold one that is resolved there. -/
  putIn {ref : Reference} : r.RefersTo ref fullname → ref.optional = false →
    r.settled (r.innerScope s signature) (.named ref) = .typeVar b ref.pos
  /-- With that done beforehand, the signature is resolved to the same. -/
  whole (n : Nat) (level inner : Nesting) :
    outcome (r.signature (r.recursion n) (r.settledSignature s signature) level inner) s =
      outcome (r.signature (r.recursion n) signature level inner) s

/-- The variables of a callable are those that its signature declares, in their order and under their names and ids. -/
theorem signature_declared (using_ : r.flags.definingAlias = false) {signature : Signature}
    (declares : signature.bindings ≠ []) {again : Recursion} [again.Steady] {level inner : Nesting} {p q : Progress} {a : Ty}
    (ran : r.signature again signature level inner p = some (a, q)) :
    ∃ made, a = .callable made ∧
      List.Forall₂ (fun d v => v.fullname = d.fullname ∧ v.id = d.id) signature.bindings made.bindings := by
  have asDeclared : r.innerBindings p.scope signature = signature.bindings := by
    simp [innerBindings, using_, Scope.bindSignature, declares]
  have yields : Yields (fun _ => True) (r.signature again signature level inner) p.scope a :=
    yields_of_run ran fun _ _ => trivial
  rw [signature_within] at yields
  obtain ⟨s, atScope, yields⟩ := yields.bind
  obtain ⟨_, _, yields⟩ := yields.bind
  rw [atScope.scope, asDeclared] at yields
  obtain ⟨args, _, yields⟩ := yields.within.bind
  obtain ⟨ret, _, yields⟩ := yields.bind
  obtain ⟨bindings, resolved, yields⟩ := yields.bind
  refine ⟨_, yields.pure.symm, resolved.mapM.imp fun d v made => ?_⟩
  obtain ⟨values, _, made⟩ := made.bind
  obtain ⟨upperBound, _, made⟩ := made.bind
  rw [← made.pure]
  exact ⟨rfl, rfl⟩

section

variable (noHooks : r.hooks = .empty) (using_ : r.flags.definingAlias = false)

include noHooks using_

/-- A variable that is found in the scope of a signature is the one that stands for it there. -/
theorem standsFor_of_find? {s : Scope} {signature : Signature} (declares : signature.bindings ≠ []) {fullname : String}
    {b : TypeVarBinding} (atName : (r.innerScope s signature).find? fullname = some b) :
    r.StandsFor s signature fullname b := by
  have bound {ref : Reference} (refers : r.RefersTo ref fullname) :
      r.boundVariable? (r.innerScope s signature) ref = some b := by
    obtain ⟨symbol, decl, found, defined, rfl⟩ := refers
    exact boundVariable?_eq_some_iff.2 ⟨symbol, decl, found, defined, atName⟩
  refine ⟨fun {ref} refers n level shallow => ?_, fun refers plain => settled_variable plain (bound refers),
    signature_settled noHooks using_ declares s⟩
  change outcome (r.expr (r.recursion n) (.named ref) level) _ = _
  rw [expr_eq, if_neg (Nat.not_lt.2 shallow)]
  exact reference_bound noHooks using_ (bound refers) (r.recursion n) level

/-- Of the type variables that a signature declares, under distinct full names, each is one and the same binding `b`
throughout the arguments and the result, if the names of the variables, as far as they stand for type variables, stand for
the declared ones. The callable has the variables with the ids that are declared. So `b` is the one in its list exactly if
the name of the variable does not stand for a type variable, or the declared id is the next one when its turn comes. -/
theorem declaredVariable_iff (s : Scope) {signature : Signature} {before after : List TypeVarBinding} {v : TypeVarBinding}
    (declared : signature.bindings = before ++ v :: after) (distinct : (signature.bindings.map (·.fullname)).Nodup)
    (own : ∀ d ∈ signature.bindings, r.table.DeclaresOwn d) :
    ∃ b, r.StandsFor s signature v.fullname b ∧
      ∀ n level inner p q a, r.signature (r.recursion n) signature level inner p = some (a, q) →
        ∃ made entry, a = .callable made ∧ made.bindings.length = signature.bindings.length ∧
          made.bindings[before.length]? = some entry ∧
          ((b.fullname = entry.fullname ∧ b.id = entry.id) ↔
            r.table.lookupTypeVar? v.name = none ∨ v.id = s.functionIds - before.countP r.table.knowsVariable - 1) := by
  have declares : signature.bindings ≠ [] := by simp [declared]
  have bound : r.innerScope s signature = (before ++ v :: after).foldl (Scope.bindDeclared r.table) s.functionFrame := by
    simp [innerScope, using_, Scope.bindSignature, declared]
  rw [declared] at own distinct
  obtain ⟨ofFunction, counted⟩ := Scope.functionIds_foldl r.table (s := s.functionFrame) rfl before
  obtain ⟨sameName, sameId⟩ := Scope.declaredBinding_id_iff ofFunction (own v (by simp))
  refine ⟨_, standsFor_of_find? noHooks using_ declares (bound ▸ Scope.find?_foldl_declared own distinct s.functionFrame),
    fun n level inner p q a ran => ?_⟩
  obtain ⟨made, rfl, related⟩ := signature_declared using_ declares ran
  rw [declared] at related
  obtain ⟨entry, atEntry, nameOfEntry, idOfEntry⟩ := forall₂_at related
  -- a frame goes on with the counters of the frame around it
  have counters : s.functionFrame.functionIds = s.functionIds := rfl
  refine ⟨made, entry, rfl, declared ▸ related.length_eq.symm, atEntry, ?_⟩
  rw [nameOfEntry, idOfEntry, sameId, counted, counters]
  exact and_iff_right sameName

end

/-- A module with a type variable `T`. -/
def withVariable : Resolver :=
  { ofPrelude "m" with table := (SymbolTable.empty "m").define (.typeVarDef (.plain "m.T")) }

/-- The signature `(T) -> T`, which declares `T` under this id. -/
def declaring (id : Int) : Signature :=
  { Signature.of [.named (.of "T" [])] [.positional] [none] (.named (.of "T" [])) with
    bindings := [⟨"T", "m.T", id, [], .anyAt .specialForm .unknown, .invariant, .unknown⟩] }

/-- The first variable of a function has the id -1, so that it may be declared under it. -/
theorem declaredVariable_iff_next :
    ∃ b, withVariable.StandsFor .root (declaring (-1)) "m.T" b ∧ b.fullname = "m.T" ∧ b.id = -1 := by
  have declared : (declaring (-1)).bindings =
      [] ++ ⟨"T", "m.T", -1, [], .anyAt .specialForm .unknown, .invariant, .unknown⟩ :: [] := rfl
  have own : ∀ d ∈ (declaring (-1)).bindings, withVariable.table.DeclaresOwn d := by
    intro d member decl known
    rw [List.mem_singleton.1 member] at known ⊢
    cases known
    rfl
  obtain ⟨b, stands, made⟩ := declaredVariable_iff (r := withVariable) rfl rfl .root declared (by decide) own
  obtain ⟨callable, entry, same, _, atEntry, agrees⟩ := made 2 .top .top (.start .root) _ _ rfl
  cases same
  cases atEntry
  exact ⟨b, stands, agrees.2 (.inr rfl)⟩

/-- Under any other id the callable has the variable as it is declared, but what it takes and returns is `T` with the
id -1. -/
theorem declaredVariable_renumbered :
    ∃ made b q, withVariable.resolve (.callable (declaring (-7))) (.start .root) = some (⟨.callable made, .complete⟩, q) ∧
      made.args = [.typeVar b .unknown] ∧ made.ret = .typeVar b .unknown ∧ b.fullname = "m.T" ∧ b.id = -1 ∧
      made.bindings.map (fun v => (v.fullname, v.id)) = [("m.T", -7)] ∧
      withVariable.hooks = .empty ∧ withVariable.flags.definingAlias = false :=
  ⟨_, _, _, rfl, rfl, rfl, rfl, rfl, rfl, rfl, rfl⟩

end Resolver

end TypeResolution
