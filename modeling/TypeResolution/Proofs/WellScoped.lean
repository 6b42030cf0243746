import TypeResolution.Proofs.Frames
import TypeResolution.Proofs.Inherited
import TypeResolution.Proofs.Prelude
import TypeResolution.Proofs.Throughout

namespace TypeResolution

/-- Bindings of one variable: variables are told apart by their full name and their id. -/
def TypeVarBinding.Same (a b : TypeVarBinding) : Prop := a.fullname = b.fullname ∧ a.id = b.id

/-- The variable has a binding that is visible in the scope. -/
def Scope.Sees (s : Scope) (binding : TypeVarBinding) : Prop :=
  ∃ name visible, s.find? name = some visible ∧ visible.Same binding

namespace Ty

/-- `x` is reached from a type through children, and the callables on the way declare the variables `enclosing`. -/
inductive Under (x : Ty) : List TypeVarBinding → Ty → Prop
  | here : Under x [] x
  | child {t c : Ty} {enclosing : List TypeVarBinding} : c ∈ t.children → Under x enclosing c →
      Under x (t.declared ++ enclosing) t

/-- Each variable in a type is one of the `known`, or one that a callable around it declares. -/
def ScopedIn (known : TypeVarBinding → Prop) (t : Ty) : Prop :=
  ∀ binding pos enclosing, Under (.typeVar binding pos) enclosing t →
    known binding ∨ ∃ declared ∈ enclosing, declared.Same binding

/-- A type that is no variable and declares none. -/
structure WithoutVariables (t : Ty) : Prop where
  notVariable (binding : TypeVarBinding) (pos : Position) : t ≠ .typeVar binding pos
  undeclared : t.declared = []

variable {known known' : TypeVarBinding → Prop} {t : Ty}

theorem scopedIn_iff : t.ScopedIn known ↔ (∀ binding pos, t = .typeVar binding pos → known binding) ∧
    ∀ c ∈ t.children, c.ScopedIn fun binding => known binding ∨ ∃ b ∈ t.declared, b.Same binding := by
  constructor
  · intro holds
    constructor
    · rintro binding pos rfl
      rcases holds binding pos [] .here with found | ⟨b, member, _⟩
      · exact found
      · cases member
    · intro c atChild binding pos enclosing reached
      rcases holds binding pos _ (.child atChild reached) with found | ⟨b, member, same⟩
      · exact .inl (.inl found)
      · rcases List.mem_append.1 member with member | member
        · exact .inl (.inr ⟨b, member, same⟩)
        · exact .inr ⟨b, member, same⟩
  · rintro ⟨atRoot, below⟩ binding pos enclosing reached
    cases reached with
    | here => exact .inl (atRoot binding pos rfl)
    | @child _ c enclosing atChild reached =>
      rcases below c atChild binding pos enclosing reached with (found | ⟨b, member, same⟩) | ⟨b, member, same⟩
      · exact .inl found
      · exact .inr ⟨b, List.mem_append_left _ member, same⟩
      · exact .inr ⟨b, List.mem_append_right _ member, same⟩

theorem ScopedIn.mono (holds : t.ScopedIn known) (weaken : ∀ binding, known binding → known' binding) :
    t.ScopedIn known' := by
  intro binding pos enclosing reached
  rcases holds binding pos enclosing reached with found | declared
  · exact .inl (weaken binding found)
  · exact .inr declared

/-- Where nothing is declared, the variables of a type are those of its children. -/
theorem ScopedIn.child (holds : t.ScopedIn known) (undeclared : t.declared = []) {c : Ty} (atChild : c ∈ t.children) :
    c.ScopedIn known := by
  refine ((scopedIn_iff.1 holds).2 c atChild).mono ?_
  rintro binding (found | ⟨b, member, _⟩)
  · exact found
  · rw [undeclared] at member
    cases member

theorem scopedIn_inherited (known : TypeVarBinding → Prop) : Inherited WithoutVariables (ScopedIn known) where
  composed {t} composed := by
    constructor
    · rintro binding pos rfl
      cases composed
    · cases t <;> first | rfl | cases composed
  rebuilt {t} cs _ plain := by
    constructor
    · intro binding pos same
      cases t <;> first | exact plain.notVariable _ _ rfl | cases same
    · rw [declared_withChildren]
      exact plain.undeclared
  node {t} plain parts := by
    refine scopedIn_iff.2 ⟨fun binding pos same => absurd same (plain.notVariable binding pos), fun c atChild => ?_⟩
    exact (parts c atChild).mono fun _ found => .inl found
  part {t c} opens holds atChild := by
    refine holds.child ?_ atChild
    cases t <;> first | rfl | cases opens
  move {t} pos holds := by
    obtain ⟨atRoot, below⟩ := scopedIn_iff.1 holds
    refine scopedIn_iff.2 ⟨fun binding at_ same => ?_, fun c atChild => ?_⟩
    · cases t with
      | typeVar binding' pos' =>
        cases same
        exact atRoot binding pos' rfl
      | _ => cases same
    · rw [declared_withPos]
      rw [children_withPos] at atChild
      exact below c atChild

end Ty

/-- The targets of aliases and the bases of classes hold no variable, and no callable that declares one. -/
structure SymbolTable.WithoutVariables (table : SymbolTable) : Prop where
  target {decl : AliasDecl} : table.Holds (.aliasDef decl) → decl.target.Everywhere Ty.WithoutVariables
  tupleBase {decl : ClassDecl} {base : TupleShape} : table.Holds (.classDef decl) →
    decl.tupleBase = some base → ∀ t ∈ base.items, t.Everywhere Ty.WithoutVariables
  recordBase {decl : ClassDecl} {base : RecordShape} : table.Holds (.classDef decl) →
    decl.recordBase = some base → ∀ field ∈ base.fields, field.2.Everywhere Ty.WithoutVariables

namespace Resolver

variable {r : Resolver}

/-- A variable that is visible inside a signature is visible around it, or the signature quantifies over it. -/
theorem find?_innerScope (using_ : r.flags.definingAlias = false) {s : Scope} {signature : Signature}
    (undeclared : signature.bindings = []) {name : String} {found : TypeVarBinding}
    (atName : (r.innerScope s signature).find? name = some found) :
    s.find? name = some found ∨ found ∈ r.innerBindings s signature := by
  simp only [innerScope, innerBindings, using_, Scope.bindSignature, undeclared, List.isEmpty_nil, if_true] at atName ⊢
  rcases Scope.find?_bindUses atName with outside | inside
  · rw [Scope.find?_functionFrame] at outside
    exact .inl outside
  · exact .inr inside

theorem BindingMade.sameVariable {In : Scope → Ty → Prop} {Out : Progress → Progress → Ty → Prop} {p q : Progress}
    {binding made : TypeVarBinding} (was : BindingMade In Out p q binding made) : made.Same binding := by
  rw [was.same]
  exact ⟨rfl, rfl⟩

theorem reads_withoutVariables (plain : r.table.WithoutVariables) :
    r.ReadsBases fun _ t => t.Everywhere Ty.WithoutVariables := by
  refine .everywhere (fun t isAny => ?_) (fun s undeclared => ?_) (fun holds _ atBase => plain.tupleBase holds atBase)
    (fun holds _ atBase => plain.recordBase holds atBase)
  · cases t with
    | any => exact (Ty.scopedIn_inherited fun _ => True).composed rfl
    | _ => cases isAny
  · exact ⟨fun _ _ => Ty.noConfusion, undeclared⟩

/-- The variables of what is made are bound around the place where it stands: a callable declares all that its frame
binds. -/
theorem rule_scoped (using_ : r.flags.definingAlias = false) (plain : r.table.WithoutVariables) :
    r.Rule (fun _ t => t.Everywhere Ty.WithoutVariables) fun p _ t => t.ScopedIn p.scope.Sees := by
  have whole (s : Scope) {t : Ty} (all : t.Everywhere Ty.WithoutVariables) : t.ScopedIn s.Sees :=
    (Ty.scopedIn_inherited s.Sees).whole all
  have node (s : Scope) {t : Ty} (atRoot : t.WithoutVariables) (parts : ∀ c ∈ t.children, c.ScopedIn s.Sees) :
      t.ScopedIn s.Sees := (Ty.scopedIn_inherited s.Sees).node atRoot parts
  refine .ofInherited (fun p _ => Ty.scopedIn_inherited p.scope.Sees) (reads_withoutVariables plain) ?_ ?_ ?_ ?_ ?_ ?_
    ?_ ?_ ?_
  · intro s ref decl _ uses x reached
    exact .inl (plain.target uses.holds x reached)
  · intro p p' q q' t _ same _ holds
    rw [same]
    exact holds
  · intro p q t _ given
    exact whole p.scope given
  · intro p q fullname args pos given _ _ _
    exact whole p.scope given
  · intro p q ref symbol decl given _ _ _ _ _
    exact whole p.scope given
  · intro p q fullname binding pos bound
    refine Ty.scopedIn_iff.2 ⟨?_, List.forall_mem_nil _⟩
    rintro _ _ ⟨⟩
    exact ⟨fullname, binding, bound, rfl, rfl⟩
  · intro p q signature args ret bindings fallback given made parts
    have undeclared : signature.bindings = [] := given.root.undeclared
    refine Ty.scopedIn_iff.2 ⟨fun _ _ => Ty.noConfusion, fun c atChild => (parts c atChild).mono ?_⟩
    rintro binding ⟨name, visible, atName, same⟩
    rcases find?_innerScope using_ undeclared atName with outside | inside
    · exact .inl ⟨name, visible, outside, same⟩
    · obtain ⟨b, member, was⟩ := forall₂_source made.flip inside
      exact .inr ⟨b, member, was.sameVariable.1.trans same.1, was.sameVariable.2.trans same.2⟩
  · intro p q args fullname pos _ _ parts
    exact node p.scope ⟨fun _ _ => Ty.noConfusion, rfl⟩ parts
  · intro p q ref symbol d args _ _ _ _ _ _ parts
    exact node p.scope ⟨fun _ _ => Ty.noConfusion, rfl⟩ parts

end Resolver

/-- Whatever is written without variables and without callables that declare them, each variable that comes out of
resolution is bound in the scope at the start, or declared by a callable around it in the result. -/
theorem Resolver.resolution_scoped {r : Resolver} (noHooks : r.hooks = .empty)
    (using_ : r.flags.definingAlias = false) (plain : r.table.WithoutVariables) {p q : Progress} {result : Resolution} :
    (∀ t : Ty, t.Everywhere Ty.WithoutVariables → r.resolve t p = some (result, q) →
      result.type.ScopedIn p.scope.Sees) ∧
    (∀ s : Signature, (Ty.callable s).Everywhere Ty.WithoutVariables → r.resolveSignature s p = some (result, q) →
      result.type.ScopedIn p.scope.Sees) := by
  have rule := rule_scoped using_ plain
  constructor
  · intro t given ran
    obtain ⟨_, _, _, _, _, made⟩ := resolve_made rule noHooks ran given
    exact made
  · intro s given ran
    obtain ⟨_, _, _, _, _, made⟩ := resolveSignature_made rule noHooks ran given
    exact made

/-- `Callable[[T], List[T]]`, where `T` is a type variable that nothing binds. -/
def genericCallable : Ty :=
  .named (.of "typing.Callable" [.bracketed [.named (.of "T" [])] .unknown,
    .named (.of "typing.List" [.named (.of "T" [])])])

/-- A module that declares the type variable `T`. -/
def Resolver.withTypeVar : Resolver :=
  ⟨(SymbolTable.withPrelude "m").define (.typeVarDef (.plain "m.T")), .empty, .default, .default⟩

theorem SymbolTable.withoutVariables_withTypeVar : Resolver.withTypeVar.table.WithoutVariables where
  target holds := by
    rcases holds_define holds with impossible | holds
    · cases impossible
    · obtain ⟨_, _, _, rfl⟩ := Prelude.aliasDef_mem (holds_withPrelude holds)
      exact Ty.everywhere_of_leaf rfl ((Ty.scopedIn_inherited fun _ => True).composed rfl)
  tupleBase holds atBase := by
    rcases holds_define holds with impossible | holds
    · cases impossible
    · rw [(Prelude.noBases (holds_withPrelude holds)).1] at atBase
      cases atBase
  recordBase holds atBase := by
    rcases holds_define holds with impossible | holds
    · cases impossible
    · rw [(Prelude.noBases (holds_withPrelude holds)).2] at atBase
      cases atBase

theorem Resolver.resolution_scoped_callable :
    ∃ result q, withTypeVar.resolve genericCallable (.start .root) = some (result, q) ∧
      result.type.declared.map TypeVarBinding.fullname = ["m.T"] ∧ result.type.ScopedIn Scope.root.Sees := by
  have ends : ((withTypeVar.resolve genericCallable (.start .root)).map fun ran =>
      ran.1.type.declared.map TypeVarBinding.fullname) = some ["m.T"] := by
    decide +kernel
  obtain ⟨⟨result, q⟩, ran, declared⟩ := Option.map_eq_some_iff.1 ends
  have named (name : String) (args : List Ty) (parts : ∀ t ∈ args, t.Everywhere Ty.WithoutVariables) :
      (Ty.named (.of name args)).Everywhere Ty.WithoutVariables := by
    refine Ty.everywhere_iff.2 ⟨⟨fun _ _ same => ?_, rfl⟩, parts⟩
    cases same
  have given : genericCallable.Everywhere Ty.WithoutVariables := by
    refine named _ _ fun t member => ?_
    rcases List.mem_cons.1 member with rfl | member
    · refine Ty.everywhere_iff.2 ⟨⟨fun _ _ same => ?_, rfl⟩, fun t member => ?_⟩
      · cases same
      · rw [List.mem_singleton.1 member]
        exact named "T" [] (by simp)
    · rw [List.mem_singleton.1 member]
      refine named _ _ fun t member => ?_
      rw [List.mem_singleton.1 member]
      exact named "T" [] (by simp)
  exact ⟨result, q, ran, declared, (resolution_scoped rfl rfl SymbolTable.withoutVariables_withTypeVar).1 _ given ran⟩

end TypeResolution
