import TypeResolution.Proofs.LiteralMembers
import TypeResolution.Proofs.Maturing
import TypeResolution.Proofs.Reread

namespace TypeResolution

open Resolve

/-- The forms that come out of resolution as their parts do. -/
def Ty.isByParts : Ty → Bool
  | .inst _ | .named _ | .forward .. | .scalar .. => false
  | _ => true

namespace Resolver

/-- The same resolver with another table. -/
abbrev withTable (r : Resolver) (table : SymbolTable) : Resolver := { r with table := table }

/-- What a class may mean without arguments, if nothing in it is nested too deep. -/
def Means (r : Resolver) (decl : ClassDecl) (t : Ty) : Prop :=
  ∃ bound pos level s, Yields Problem.IsShallow (r.classType (r.recursion bound) decl [] pos level) s t

/-- What the class means without arguments is the same wherever it is read, and holds no type variables. -/
structure MeansOne (r : Resolver) (decl : ClassDecl) : Prop where
  same {t u : Ty} : r.Means decl t → r.Means decl u → t ≈ u
  noVariable {t : Ty} : r.Means decl t → t.Everywhere Ty.NotVariable

/-- In the table `after` some classes have come that the table of the resolver was waiting for. None of them is known to
resolution by its name, and each means one and the same wherever it is written. -/
structure Arrives (r : Resolver) (after : SymbolTable) : Prop where
  matures : r.table.Matures after
  notForm {fullname : String} {decl : ClassDecl} : r.table.arrived? after fullname = some decl →
    SpecialForm.ofName? fullname = none
  notTuple {fullname : String} {decl : ClassDecl} : r.table.arrived? after fullname = some decl →
    fullname ≠ "builtins.tuple"
  notFlexible {fullname : String} {decl : ClassDecl} : r.table.arrived? after fullname = some decl →
    fullname ≠ flexibleAlias
  means {fullname : String} {decl : ClassDecl} : r.table.arrived? after fullname = some decl →
    (r.withTable after).MeansOne decl

theorem Means.not_union {r : Resolver} {decl : ClassDecl} {t : Ty} (means : r.Means decl t) : t.isUnion = false := by
  obtain ⟨bound, pos, level, s, yields⟩ := means
  cases yields_classType yields <;> rfl

theorem Means.not_syntactic {r : Resolver} {decl : ClassDecl} {t : Ty} (means : r.Means decl t) : t.isSyntactic = false := by
  obtain ⟨bound, pos, level, s, yields⟩ := means
  cases yields_classType yields <;> rfl

theorem Means.repaired {r : Resolver} {decl : ClassDecl} {i : Instance} (means : r.Means decl (.inst i)) :
    i.head = decl.head ∧ (r.flags.definingAlias = false → i.hasExpectedArity) := by
  obtain ⟨bound, pos, level, s, yields⟩ := means
  cases yields_classType yields with
  | plain =>
    refine ⟨repaired_head _ _ _, fun using_ => ?_⟩
    unfold Resolver.repaired
    rw [using_]
    exact fixInstance_hasExpectedArity _ _ _ _

/-- If the reference is a string, then its class is not one that has come. -/
def SameString (r : Resolver) (after : SymbolTable) (ref : Reference) : Prop :=
  ref.quoted.isSome → r.table.arrived? after (r.stringClass (ref.quotedClass.getD "builtins.str")) = none

end Resolver

namespace Resolver

/-- Each class has the number of type variables that `arity` gives for its name, wherever an instance of it comes up when `t₀`
is resolved in the scope `s₀`. -/
structure OfArity (r : Resolver) (arity : String → Nat) (s₀ : Scope) (t₀ : Ty) : Prop where
  head {s : Scope} {t : Ty} {decl : ClassDecl} : r.ComesToRead s₀ t₀ s t → r.StandsForClass t decl →
    decl.head.arity = arity decl.fullname
  tuple {decl : ClassDecl} : r.table.findClass? "builtins.tuple" = some decl → decl.head.arity = arity decl.fullname
  target {s : Scope} {ref : Reference} {decl : AliasDecl} : r.ComesToRead s₀ t₀ s (.named ref) → r.UsesAlias ref decl →
    decl.target.Everywhere (Ty.HeadOf arity)
  read {s : Scope} {t : Ty} : r.ComesToRead s₀ t₀ s t → t.Everywhere (Ty.HeadOf arity)

variable {r : Resolver} {arity : String → Nat} {s₀ : Scope} {t₀ : Ty}

/-- Instances are made of the classes that are read. -/
theorem rule_headOf (ofArity : r.OfArity arity s₀ t₀) :
    r.Rule (r.ComesToRead s₀ t₀) fun _ _ t => t.Everywhere (Ty.HeadOf arity) := by
  have nodes := Ty.headOf_ofNodes arity
  refine .ofNodes nodes (reads_comesToRead r s₀ t₀) (fun _ comes => ofArity.read comes)
    (fun comes _ t member => (ofArity.read comes).child member)
    (fun comes _ _ _ t member => (ofArity.read comes).child member) ?_ ?_ ?_
  · intro s ref decl item _ found made
    exact Ty.everywhere_iff.2 ⟨ofArity.tuple found, fun t member => List.mem_singleton.1 member ▸ made⟩
  · intro s decl written args pos _ reads _ made
    obtain ⟨_, comes, stands⟩ := reads.source
    have root : (Ty.inst (r.repaired (.of decl.head args pos) false none)).HeadOf arity := by
      rw [Ty.HeadOf, Resolver.repaired_head]
      exact ofArity.head comes stands
    exact Ty.everywhere_iff.2 ⟨root, Resolver.repaired_args_everywhere nodes made⟩
  · intro s decl ref args t uses comes _ made expanded
    have target := ofArity.target comes uses
    have all := expanded.everywhere nodes (fun _ _ sameHead here => by rwa [Ty.HeadOf, sameHead]) target made
    cases t with
    | inst i =>
      have root : (Ty.inst (r.repaired i true (some ref.name))).HeadOf arity := by
        rw [Ty.HeadOf, Resolver.repaired_head]
        exact all.root
      exact Ty.everywhere_iff.2 ⟨root, Resolver.repaired_args_everywhere nodes fun c member => all.child member⟩
    | _ => exact all

namespace Arrives

variable {r : Resolver} {after : SymbolTable} (arrives : r.Arrives after)

open Classical in
/-- The classes that have come. -/
noncomputable def new : Arrivals (r.withTable after) where
  class? := r.table.arrived? after
  bare decl :=
    if meaning : ∃ t, (r.withTable after).Means decl t ∧ t.Everywhere Ty.NotVariable then meaning.choose
    else .never false .unknown
  found {fullname decl} come := by
    obtain ⟨_, _, _, is, _⟩ := arrives.matures.comes_of_arrived come
    exact SymbolTable.findClass?_eq_some_iff.2 (by rw [is]; rfl)
  notTuple {fullname decl} come := by
    obtain ⟨_, _, _, _, same⟩ := arrives.matures.comes_of_arrived come
    exact same ▸ arrives.notTuple come
  notFlexible {fullname decl} come := by
    obtain ⟨_, _, _, _, same⟩ := arrives.matures.comes_of_arrived come
    exact same ▸ arrives.notFlexible come
  means {fullname decl bound pos level s t} come yields := by
    obtain ⟨_, _, _, _, same⟩ := arrives.matures.comes_of_arrived come
    have here : (r.withTable after).Means decl t := ⟨bound, pos, level, s, yields⟩
    have meaning : ∃ t, (r.withTable after).Means decl t ∧ t.Everywhere Ty.NotVariable :=
      ⟨t, here, (arrives.means come).noVariable here⟩
    rw [dif_pos meaning]
    exact (arrives.means come).same here meaning.choose_spec.1
  bare_not_union decl := by
    split
    · rename_i meaning
      exact meaning.choose_spec.1.not_union
    · rfl
  bare_not_syntactic decl := by
    split
    · rename_i meaning
      exact meaning.choose_spec.1.not_syntactic
    · rfl
  bare_noVariable decl := by
    split
    · rename_i meaning
      exact meaning.choose_spec.2
    · exact Ty.everywhere_of_leaf rfl trivial
  bare_repaired {decl i} made := by
    split at made
    · rename_i meaning
      exact (made ▸ meaning.choose_spec.1 : (r.withTable after).Means decl (.inst i)).repaired
    · cases made

/-- A type that is read as a literal in the same way when the classes have come: no scalar, and no reference but to a type
variable. -/
def LiteralNode : Ty → Prop
  | .named ref => r.SameString after ref ∧ (∀ t ∈ ref.args, arrives.new.due t = false) ∧
      ∃ symbol decl, r.table.lookup ref.name = some symbol ∧ SpecialForm.ofName? symbol.fullname = none ∧
        symbol.definition = some (.typeVarDef decl)
  | .scalar .. => False
  | _ => True

/-- The types that are come to when a type is read as a literal are read in the same way when the classes have come. -/
inductive LiteralParts : Ty → Prop
  | of {t : Ty} : arrives.LiteralNode t → (t.isUnion || t.isInstance → ∀ c ∈ t.children, LiteralParts c) → LiteralParts t

/-- A use of an alias comes to the same when the classes have come: the target is resolved, with no references but the formals
and no scalars, no class that has come is due in it, and what the use comes to is not a union of which, when the classes have
come, a single instance is left that would be opened or repaired. -/
structure UseStays (s : Scope) (ref : Reference) (decl : AliasDecl) : Prop where
  notDue : arrives.new.due decl.target = false
  resolved : decl.TargetAllows (·.isSyntactic = false)
  result {fullname : String} {n : Nat} {level : Nesting} {a : Ty} :
    Yields Problem.Never (r.aliasType (r.recursion n) decl fullname ref level) s a → arrives.new.Stays a

/-- What is asked of an expression where it is read. In what is kept of it as it is written no class may come, a reference to a
class that has come must be readable, and the class of a literal must not be one that has come. -/
inductive Legible (s : Scope) : Ty → Prop
  | inst {i : Instance} : arrives.new.due (.inst i) = false → (Ty.inst i).Everywhere (·.isSyntactic = false) →
      Legible s (.inst i)
  | named {ref : Reference} : r.SameString after ref →
      (r.IsFreeVariable ref s → ∀ t ∈ ref.args, arrives.new.due t = false) →
      (∀ decl, r.UsesAlias ref decl → arrives.UseStays s ref decl) → Legible s (.named ref)
  | come {fullname : String} {args : List Ty} {pos : Position} : r.table.StillToCome (some fullname) →
      (r.table.arrived? after fullname).isSome → (∀ t ∈ args, arrives.new.Readable s t) →
      Legible s (.forward (some fullname) args pos)
  | pending {fullname : Option String} {args : List Ty} {pos : Position} : r.table.StillToCome fullname →
      arrives.new.due (.forward fullname args pos) = false → Legible s (.forward fullname args pos)
  | known {fullname : String} {decl : ClassDecl} {args : List Ty} {pos : Position} :
      r.table.findClass? fullname = some decl → Legible s (.forward (some fullname) args pos)
  | scalar {value : Option LiteralValue} {className : String} {note : Option String} {pos : Position} :
      r.table.arrived? after (r.stringClass className) = none → Legible s (.scalar value className note pos)
  | byParts {t : Ty} : t.isByParts → Legible s t

/-- What is asked of an expression and of what is read of the tables when it is resolved: all of it is legible, and where
instances are repaired, all those of one name have the same number of type variables, before and after. -/
structure Ready (arity : String → Nat) (s₀ : Scope) (t₀ : Ty) : Prop where
  legible {s : Scope} {t : Ty} : r.ComesToRead s₀ t₀ s t → arrives.Legible s t
  ofArity : r.flags.definingAlias = false → r.OfArity arity s₀ t₀
  ofArityLater : r.flags.definingAlias = false → (r.withTable after).OfArity arity s₀ t₀
  come : arrives.new.OfArity arity

variable {arrives}

theorem Legible.use {s : Scope} {ref : Reference} {decl : AliasDecl} (legible : arrives.Legible s (.named ref))
    (uses : r.UsesAlias ref decl) : arrives.UseStays s ref decl := by
  cases legible with
  | named _ _ stays => exact stays decl uses
  | byParts byParts => cases byParts

variable {arity : String → Nat} {s₀ : Scope} {t₀ : Ty}

/-- What is made is in the form in which types are made. -/
theorem rule_kempt (ready : arrives.Ready arity s₀ t₀) :
    r.Rule (r.ComesToRead s₀ t₀) fun _ _ t => t.Everywhere arrives.new.Kempt := by
  have nodes := arrives.new.kempt_ofNodes
  have kempt {t : Ty} (none : arrives.new.due t = false) : t.Everywhere arrives.new.Kempt :=
    arrives.new.everywhere_kempt_of_not_due none
  refine .ofNodes nodes (reads_comesToRead r s₀ t₀) ?_ ?_ ?_ ?_ ?_ ?_
  · intro s t settled comes
    cases ready.legible comes with
    | inst none => exact kempt none
    | byParts byParts => cases t <;> first | exact Ty.everywhere_of_leaf rfl trivial | contradiction
    | _ => cases settled
  · intro s fullname args pos comes notClass t member
    cases ready.legible comes with
    | come _ _ readable => exact (readable t member).kempt
    | pending _ none => exact kempt (arrives.new.due_child none member)
    | known found => cases (notClass _ rfl).symm.trans found
    | byParts byParts => cases byParts
  · intro s ref symbol decl comes found defined free t member
    cases ready.legible comes with
    | named _ kept => exact kempt (kept ⟨symbol, decl, found, defined, free⟩ t member)
    | byParts byParts => cases byParts
  · intro s ref decl item _ found made
    exact Ty.everywhere_iff.2 ⟨trivial, fun t member => List.mem_singleton.1 member ▸ made⟩
  · intro s decl written args pos holds reads _ made
    exact Ty.everywhere_iff.2 ⟨trivial, Resolver.repaired_args_everywhere nodes made⟩
  · intro s decl ref args t uses comes _ made expanded
    have stays := (ready.legible comes).use uses
    have all := expanded.everywhere nodes (fun _ _ _ _ => trivial) (kempt stays.notDue) made
    cases t with
    | inst i => exact Ty.everywhere_iff.2 ⟨trivial, Resolver.repaired_args_everywhere nodes fun c member => all.child member⟩
    | _ => exact all

theorem literalNode_of_not_syntactic {t : Ty} (resolved : t.isSyntactic = false) : arrives.LiteralNode t := by
  cases t <;> trivial

theorem literalParts_inherited (arrives : r.Arrives after) (reported : Prop) :
    Ty.Inherited (·.isSyntactic = false) fun t => reported ∨ arrives.LiteralParts t where
  composed {t} composed := by cases t <;> first | rfl | cases composed
  rebuilt {t} cs _ resolved := by cases t <;> exact resolved
  node {t} resolved parts := by
    by_cases excused : reported
    · exact .inl excused
    · exact .inr (.of (literalNode_of_not_syntactic resolved) fun _ c member => (parts c member).resolve_left excused)
  part opens holds member := by
    refine holds.imp_right fun parts => ?_
    cases parts with
    | of _ parts => exact parts opens _ member
  move {t} pos holds := by
    refine holds.imp_right fun parts => ?_
    cases parts with
    | of atRoot parts =>
      refine .of ?_ fun opens c member => ?_
      · cases t <;> exact atRoot
      · rw [Ty.children_withPos] at member
        refine parts ?_ c member
        cases t <;> exact opens

/-- What is made without a report is read as a literal in the same way when the classes have come. -/
theorem rule_literalParts (ready : arrives.Ready arity s₀ t₀) :
    r.Rule (r.ComesToRead s₀ t₀) fun _ q t => q.reports ≠ [] ∨ arrives.LiteralParts t := by
  have closed {t : Ty} (node : arrives.LiteralNode t) (single : (t.isUnion || t.isInstance) = false) :
      arrives.LiteralParts t := by
    refine .of node fun opens => ?_
    rw [single] at opens
    cases opens
  refine .ofInherited (fun _ q => literalParts_inherited arrives (q.reports ≠ [])) (reads_comesToRead r s₀ t₀)
    (fun comes uses => ((ready.legible comes).use uses).resolved) ?_ ?_ ?_ ?_ ?_ ?_ ?_ ?_
  · intro p p' q q' t _ _ later made
    refine made.imp_left fun reported none => reported ?_
    exact List.prefix_nil.1 (none ▸ later.reports)
  · intro p q t settled comes
    right
    cases ready.legible comes with
    | inst _ resolved => exact ((literalParts_inherited arrives False).whole resolved).resolve_left id
    | byParts byParts => cases t <;> first | exact closed trivial rfl | contradiction
    | _ => cases settled
  · intro p q fullname args pos _ _ _ _
    exact .inr (closed trivial rfl)
  · intro p q ref symbol decl comes found plain defined free _
    cases ready.legible comes with
    | named same kept =>
      exact .inr (closed ⟨same, kept ⟨symbol, decl, found, defined, free⟩, symbol, decl, found, plain, defined⟩ rfl)
    | byParts byParts => cases byParts
  · intro p q fullname binding pos _
    exact .inr (closed trivial rfl)
  · intro p q signature args ret bindings fallback _ _ _
    exact .inr (closed trivial rfl)
  · intro p q args fullname pos _ _ _
    exact .inr (closed trivial rfl)
  · intro p q ref symbol d args _ _ _ _ _ ⟨problem, _, reported⟩ _
    refine .inl fun none => ?_
    rw [Progress.newReports, none, List.drop_nil] at reported
    cases reported

end Arrives

end Resolver

end TypeResolution
