import TypeResolution.Proofs.Inherited
import TypeResolution.Proofs.Parts
import TypeResolution.Proofs.WellScoped

namespace TypeResolution

/-- A type whose form is not one that only a parser makes. -/
def Ty.NotSyntactic (t : Ty) : Prop := t.isSyntactic = false

/-- An error that some expression is no valid type. -/
def Diagnostic.SaysInvalid (d : Diagnostic) : Prop := d.code = some .validType ∧ d.isError

theorem Progress.newReports_mono {p p' q q' : Progress} (before : p'.Precedes p) (after : q.Precedes q') {d : Diagnostic}
    (member : d ∈ p.newReports q) : d ∈ p'.newReports q' := by
  obtain ⟨early, grown⟩ := before.reports
  obtain ⟨late, grown'⟩ := after.reports
  rw [newReports, ← grown] at member
  rw [newReports, ← grown']
  rw [List.length_append, ← List.drop_drop] at member
  have longer : q.reports.drop p'.reports.length <+: (q.reports ++ late).drop p'.reports.length := by
    rw [List.drop_append]
    exact List.prefix_append _ _
  exact longer.subset (List.mem_of_mem_drop member)

namespace Resolver

variable {r : Resolver}

/-- Type variables that nothing binds may stay. -/
def leavesFree (r : Resolver) : Bool := r.flags.allowUnboundVariables || r.flags.definingAlias

/-- What is asked of an expression in the scope where it is read. Nothing that only a parser makes stands inside of what is
kept as it is written, instances and references to classes to come, and a free variable that may stay has no arguments. -/
structure KeepsCanonical (r : Resolver) (s : Scope) (t : Ty) : Prop where
  inst {i : Instance} : t = .inst i → ∀ c ∈ i.args, c.Everywhere Ty.NotSyntactic
  forward {fullname : Option String} {args : List Ty} {pos : Position} : t = .forward fullname args pos →
    ∀ c ∈ args, c.Everywhere Ty.NotSyntactic
  free {ref : Reference} : t = .named ref → r.leavesFree → r.IsFreeVariable ref s → ref.args = []

/-- What is asked of a table: the targets of aliases hold nothing that only a parser makes, formals apart, and the bases of
classes are as any expression is, wherever in the scope `s₀` the class is used. -/
structure CanonicalTable (r : Resolver) (s₀ : Scope) : Prop where
  target {decl : AliasDecl} : r.table.Holds (.aliasDef decl) → decl.TargetAllows Ty.NotSyntactic
  tupleBase {s : Scope} {decl : ClassDecl} {base : TupleShape} : s.BindsAllOf s₀ → r.table.Holds (.classDef decl) →
    decl.tupleBase = some base → ∀ t ∈ base.items, r.WhereRead r.KeepsCanonical s t
  recordBase {s : Scope} {decl : ClassDecl} {base : RecordShape} : s.BindsAllOf s₀ → r.table.Holds (.classDef decl) →
    decl.recordBase = some base → ∀ field ∈ base.fields, r.WhereRead r.KeepsCanonical s field.2

/-- What may be left of the forms that only a parser makes: a bare reference to a variable that is free in the scope, if such
variables may stay, and a reference to something that was reported to be no type. -/
inductive MayStay (r : Resolver) (s : Scope) (reported : Prop) : Ty → Prop
  | free {ref : Reference} : r.leavesFree → ref.args = [] → r.IsFreeVariable ref s → MayStay r s reported (.named ref)
  | rejected {ref : Reference} : reported → MayStay r s reported (.named ref)

theorem MayStay.withPos {s : Scope} {reported : Prop} {t : Ty} (stays : r.MayStay s reported t) (pos : Position) :
    r.MayStay s reported (t.withPos pos) := by
  cases stays with
  | free left bare isFree => exact .free left bare isFree
  | rejected said => exact .rejected said

theorem MayStay.weaken {s s' : Scope} {reported reported' : Prop} {t : Ty} (stays : r.MayStay s reported t)
    (binds : s.BindsAllOf s') (said : reported → reported') : r.MayStay s' reported' t := by
  cases stays with
  | free left bare isFree =>
    obtain ⟨symbol, decl, found, defined, free⟩ := isFree
    refine .free left bare ⟨symbol, decl, found, defined, ?_⟩
    cases bound : s'.find? symbol.fullname with
    | none => rfl
    | some binding =>
      have inside := binds symbol.fullname (by rw [bound]; rfl)
      rw [free] at inside
      cases inside
  | rejected here => exact .rejected (said here)

/-- No form that only a parser makes, but for what may stay. -/
abbrev IsCanonical (r : Resolver) (s : Scope) (reported : Prop) (t : Ty) : Prop :=
  t.Everywhere fun x => x.NotSyntactic ∨ r.MayStay s reported x

theorem canonical_inherited (r : Resolver) (s : Scope) (reported : Prop) :
    Ty.Inherited Ty.NotSyntactic (r.IsCanonical s reported) := by
  refine .everywhere .inl (fun {t} composed => ?_) (fun {t} cs here => ?_) fun {t} pos => ?_
  · cases t <;> first | rfl | cases composed
  · cases t <;> exact here
  · refine Or.imp (fun here => ?_) fun stays => stays.withPos pos
    cases t <;> exact here

/-- That something written was reported to be no type since the record `p`. -/
def ReportsInvalid (p q : Progress) : Prop := ∃ d ∈ p.newReports q, d.SaysInvalid

theorem rule_canonical {s₀ : Scope} (canonical : r.CanonicalTable s₀) :
    r.Rule (fun s t => s.BindsAllOf s₀ ∧ r.WhereRead r.KeepsCanonical s t) fun p q t =>
      r.IsCanonical p.scope (ReportsInvalid p q) t := by
  have inherited (p q : Progress) := canonical_inherited r p.scope (ReportsInvalid p q)
  have any (s : Scope) (t : Ty) (isAny : t.isAny) : r.KeepsCanonical s t := by
    refine ⟨?_, ?_, ?_⟩ <;> intros <;> subst t <;> cases isAny
  have reads := reads_whereRead (r := r) (fun s signature => ⟨nofun, nofun, nofun⟩) any canonical.tupleBase canonical.recordBase
  refine .ofInherited inherited reads (fun _ uses => canonical.target uses.holds) ?_ ?_ ?_ ?_ ?_ ?_ ?_ ?_
  · intro p p' q q' t before same after made
    refine made.imp fun x here => here.imp_right fun stays => stays.weaken (same ▸ .refl _) ?_
    rintro ⟨d, member, invalid⟩
    exact ⟨d, Progress.newReports_mono before after member, invalid⟩
  · intro p q t settled given
    cases t with
    | inst i =>
      exact Ty.everywhere_iff.2 ⟨.inl rfl, fun c member => (inherited p q).whole (given.2.root.inst rfl c member)⟩
    | any | noneType | never | deleted | typeVar | literal => exact Ty.everywhere_of_leaf rfl (.inl rfl)
    | _ => cases settled
  · intro p q fullname args pos given _ _ _
    exact Ty.everywhere_iff.2 ⟨.inl rfl, fun c member => (inherited p q).whole (given.2.root.forward rfl c member)⟩
  · intro p q ref symbol decl given found _ defined free left
    have isFree : r.IsFreeVariable ref p.scope := ⟨symbol, decl, found, defined, free⟩
    have bare := given.2.root.free rfl left isFree
    exact Ty.everywhere_of_leaf bare (.inr (.free left bare isFree))
  · intro p q fullname binding pos _
    exact Ty.everywhere_of_leaf rfl (.inl rfl)
  · intro p q signature args ret bindings fallback _ _ parts
    refine Ty.everywhere_iff.2 ⟨.inl rfl, fun c member => (parts c member).imp fun x here => ?_⟩
    exact here.imp_right fun stays => stays.weaken (r.innerScope_bindsAllOf p.scope signature) id
  · intro p q args fullname pos _ _ parts
    exact Ty.everywhere_iff.2 ⟨.inl rfl, parts⟩
  · intro p q ref symbol d args _ _ _ _ _ ⟨problem, rejects, reported⟩ parts
    refine Ty.everywhere_iff.2 ⟨.inr (.rejected ⟨_, reported, rejects.1, ?_⟩), parts⟩
    simp [Diagnostic.isError, Diagnostic.severity, rejects.2]

end Resolver

/-- Resolution leaves none of the forms that only a parser makes. A reference is left only if something written was reported
to be no type, or if it is a bare one to a variable that nothing binds and such variables may stay. -/
theorem Resolver.resolution_canonical {r : Resolver} (noHooks : r.hooks = .empty) {p q : Progress} {result : Resolution}
    (canonical : r.CanonicalTable p.scope)
    (ran : (∃ t, r.WhereRead r.KeepsCanonical p.scope t ∧ r.resolve t p = some (result, q)) ∨
      (∃ s, r.WhereRead r.KeepsCanonical p.scope (.callable s) ∧ r.resolveSignature s p = some (result, q)))
    {x : Ty} (reached : Ty.Inside x result.type) (syntactic : x.isSyntactic) :
    ∃ ref, x = .named ref ∧ ((r.leavesFree ∧ ref.args = [] ∧ r.IsFreeVariable ref p.scope) ∨
      ∃ d ∈ p.newReports q, d.SaysInvalid) := by
  have made : r.IsCanonical p.scope (ReportsInvalid p q) result.type := by
    have rule := rule_canonical canonical
    rcases ran with ⟨t, given, ran⟩ | ⟨s, given, ran⟩
    · obtain ⟨_, _, _, rfl, _, made⟩ := resolve_made rule noHooks ran ⟨.refl _, given⟩
      exact made
    · obtain ⟨_, _, _, rfl, _, made⟩ := resolveSignature_made rule noHooks ran ⟨.refl _, given⟩
      exact made
  cases (made x reached).resolve_left fun here => by simp [Ty.NotSyntactic, syntactic] at here with
  | free left bare isFree => exact ⟨_, rfl, .inl ⟨left, bare, isFree⟩⟩
  | rejected said => exact ⟨_, rfl, .inr said⟩

/-- `Tuple[T, Callable[[T], int]]`, where `T` is a type variable that nothing binds. -/
def variableAndCallable : Ty :=
  .named (.of "typing.Tuple" [.named (.of "T" []),
    .named (.of "typing.Callable" [.bracketed [.named (.of "T" [])] .unknown, .named (.of "int" [])])])

/-- The resolver of a module that declares `T`, with leave to use variables that nothing binds. -/
def Resolver.leavingTypeVar : Resolver := { withTypeVar with flags := { Flags.default with allowUnboundVariables := true } }

theorem Resolver.canonicalTable_leavingTypeVar (s : Scope) : leavingTypeVar.CanonicalTable s where
  target holds := by
    rcases SymbolTable.holds_define holds with impossible | holds
    · cases impossible
    · obtain ⟨_, _, _, rfl⟩ := Prelude.aliasDef_mem (SymbolTable.holds_withPrelude holds)
      exact Ty.everywhere_of_leaf rfl (.inl rfl)
  tupleBase _ holds atBase := by
    rcases SymbolTable.holds_define holds with impossible | holds
    · cases impossible
    · rw [(Prelude.noBases (SymbolTable.holds_withPrelude holds)).1] at atBase
      cases atBase
  recordBase _ holds atBase := by
    rcases SymbolTable.holds_define holds with impossible | holds
    · cases impossible
    · rw [(Prelude.noBases (SymbolTable.holds_withPrelude holds)).2] at atBase
      cases atBase

/-- Of the list of parameters nothing is left, and of the variable what stands outside of the callable. -/
theorem Resolver.resolution_canonical_variable :
    ∃ result q, leavingTypeVar.resolve variableAndCallable (.start .root) = some (result, q) ∧
      result.type.referenceNames = ["T"] ∧ q.reports = [] ∧
      ∀ x, Ty.Inside x result.type → x.isSyntactic →
        ∃ ref, x = .named ref ∧ ((leavingTypeVar.leavesFree ∧ ref.args = [] ∧ leavingTypeVar.IsFreeVariable ref .root) ∨
          ∃ d ∈ (Progress.start .root).newReports q, d.SaysInvalid) := by
  have ends : ((leavingTypeVar.resolve variableAndCallable (.start .root)).map fun ran =>
      (ran.1.type.referenceNames, ran.2.reports)) = some (["T"], []) := by
    decide +kernel
  obtain ⟨⟨result, q⟩, ran, left⟩ := Option.map_eq_some_iff.1 ends
  obtain ⟨names, silent⟩ := Prod.mk.inj left
  have bare (name : String) (s : Scope) : leavingTypeVar.KeepsCanonical s (.named (.of name [])) :=
    ⟨nofun, nofun, by
      rintro _ ⟨⟩ _ _
      rfl⟩
  have applied (name : String) (args : List Ty) (other : leavingTypeVar.table.lookupTypeVar? name = none) (s : Scope) :
      leavingTypeVar.KeepsCanonical s (.named (.of name args)) := by
    refine ⟨nofun, nofun, ?_⟩
    rintro _ ⟨⟩ _ ⟨symbol, decl, found, defined, _⟩
    have found : leavingTypeVar.table.lookup name = some symbol := found
    simp [SymbolTable.lookupTypeVar?, found, defined] at other
  have given : leavingTypeVar.WhereRead leavingTypeVar.KeepsCanonical .root variableAndCallable := by
    refine .of_everywhere (Ty.everywhere_iff.2 ⟨applied _ _ rfl, fun c member => ?_⟩) _
    rcases List.mem_cons.1 member with rfl | member
    · exact Ty.everywhere_of_leaf rfl (bare "T")
    · rw [List.mem_singleton.1 member]
      refine Ty.everywhere_iff.2 ⟨applied _ _ rfl, fun c member => ?_⟩
      rcases List.mem_cons.1 member with rfl | member
      · refine Ty.everywhere_iff.2 ⟨fun s => ⟨nofun, nofun, nofun⟩, fun c member => ?_⟩
        rw [List.mem_singleton.1 member]
        exact Ty.everywhere_of_leaf rfl (bare "T")
      · rw [List.mem_singleton.1 member]
        exact Ty.everywhere_of_leaf rfl (bare "int")
  exact ⟨result, q, ran, names, silent, fun x reached syntactic =>
    resolution_canonical rfl (canonicalTable_leavingTypeVar .root) (.inl ⟨_, given, ran⟩) reached syntactic⟩

end TypeResolution
