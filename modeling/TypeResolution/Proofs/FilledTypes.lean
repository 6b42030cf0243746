import TypeResolution.Proofs.CanonicalUnions
import TypeResolution.Proofs.ExactSubstitution
import TypeResolution.Proofs.FulfilledAlias
import TypeResolution.Proofs.OmittedArguments
import TypeResolution.Proofs.OptionalSpellings

namespace TypeResolution

variable {formals vars : List String} {values : List Ty} {pos : Position}

namespace Ty

/-- The type is no type variable, and if it is a reference, it is one by such a name. -/
def OpenIn (names : List String) : Ty → Prop
  | .named ref => ref.name ∈ names
  | .typeVar .. => False
  | _ => True

theorem openIn_of_nameless {t : Ty} {names : List String} (nameless : t.formalName? = none) : t.OpenIn names := by
  cases t <;> trivial

theorem nameless_of_openIn {t : Ty} (opens : t.OpenIn []) : t.formalName? = none := by
  cases t with
  | named => cases opens
  | typeVar => exact opens.elim
  | _ => rfl

theorem openIn_inherited (names : List String) : Inherited (OpenIn names) (Everywhere (OpenIn names)) := by
  refine .everywhere id (fun {t} composed => ?_) (fun {t} cs opens => ?_) fun {t} pos opens => ?_
  · cases t <;> trivial
  · cases t <;> exact opens
  · cases t <;> exact opens

/-- The type is as resolution makes types: nothing in it has a name but these, which stand by name only, its unions are as
unions are made, and its instances have as many arguments as their classes have parameters. -/
structure WellMade (names : List String) (t : Ty) : Prop where
  flat : t.Everywhere FlatUnion
  opens : t.Everywhere (OpenIn names)
  right : t.Everywhere RightCount

namespace WellMade

variable {names : List String} {t : Ty}

theorem ofMembers (names : List String) : OfMembers (WellMade names) where
  never pos := ⟨flatUnion_ofNodes.ofMembers.never pos, (openIn_inherited names).ofMembers.never pos,
    rightCount_ofNodes.ofMembers.never pos⟩
  noneType pos := ⟨flatUnion_ofNodes.ofMembers.noneType pos, (openIn_inherited names).ofMembers.noneType pos,
    rightCount_ofNodes.ofMembers.noneType pos⟩
  union pos form all := ⟨flatUnion_ofNodes.ofMembers.union pos form fun m member => (all m member).flat,
    (openIn_inherited names).ofMembers.union pos form fun m member => (all m member).opens,
    rightCount_ofNodes.ofMembers.union pos form fun m member => (all m member).right⟩
  member whole m member := ⟨flatUnion_ofNodes.ofMembers.member whole.flat m member,
    (openIn_inherited names).ofMembers.member whole.opens m member,
    rightCount_ofNodes.ofMembers.member whole.right m member⟩
  classObject pos single item := ⟨flatUnion_ofNodes.ofMembers.classObject pos single item.flat,
    (openIn_inherited names).ofMembers.classObject pos single item.opens,
    rightCount_ofNodes.ofMembers.classObject pos single item.right⟩

/-- A form that is no union and has no name is well made if its parts are. -/
theorem of (single : t.isUnion = false) (unnamed : t.formalName? = none) (counted : t.RightCount)
    (parts : ∀ c ∈ t.children, c.WellMade names) : t.WellMade names where
  flat := everywhere_iff.2 ⟨flatUnion_of_not_union single, fun c member => (parts c member).flat⟩
  opens := everywhere_iff.2 ⟨openIn_of_nameless unnamed, fun c member => (parts c member).opens⟩
  right := everywhere_iff.2 ⟨counted, fun c member => (parts c member).right⟩

theorem of_none (closed : t.WellMade []) : t.WellMade names :=
  ⟨closed.flat, closed.opens.imp fun _ opens => openIn_of_nameless (nameless_of_openIn opens), closed.right⟩

end WellMade

end Ty

/-- A substitution leaves a type in which nothing is called like a formal as it is. -/
theorem replaced_of_formalFree {t : Ty} (flat : t.Everywhere Ty.FlatUnion)
    (free : t.Everywhere (·.isFormal formals = false)) : replaceFormals formals values pos t ≈ t := by
  induction t using Ty.inductionOn with
  | step t ih =>
    have notFormal : substitute? formals values t = none :=
      substitute?_of_not_named (Ty.isFormal_eq_false_iff.1 free.root)
    have children : List.Forall₂ (· ≈ ·) (t.children.map (replaceFormals formals values pos)) t.children :=
      List.forall₂_map_left_iff.2 (List.forall₂_same.2 fun c member => ih c member (flat.child member) (free.child member))
    refine Setoid.trans (flat.root.replaced_equal notFormal) (Setoid.trans (t.rebuild_congr children (by simp)) ?_)
    cases t using Ty.unionCases with
    | union ms at_ => exact Setoid.symm (Ty.FlatUnion.union_equal flat.root)
    | other t notUnion => rw [Ty.rebuild_of_not_union notUnion, t.withChildren_children]

namespace Resolver

variable {r : Resolver}

/-- A type that an alias for it stands for without more ado: it is no instance that stands for its last argument, and it needs
no repair. -/
structure Firm (r : Resolver) (t : Ty) : Prop where
  notFlexible : t.NotFlexible
  right : r.flags.definingAlias = false → t.RightCount

theorem firm_of_not_instance {t : Ty} (other : t.isInstance = false) : r.Firm t := by
  cases t with
  | inst => cases other
  | _ => exact ⟨trivial, fun _ => trivial⟩

theorem Firm.withPos {t : Ty} (firm : r.Firm t) (pos : Position) : r.Firm (t.withPos pos) := by
  cases t with
  | inst => exact ⟨firm.notFlexible, firm.right⟩
  | _ => exact firm_of_not_instance rfl

/-- Neither the head of an instance nor the number of its arguments changes with the arguments. -/
theorem Firm.withChildren {t : Ty} (firm : r.Firm t) {cs : List Ty} (sameLength : cs.length = t.children.length) :
    r.Firm (t.withChildren cs) := by
  cases t with
  | inst i =>
    refine ⟨firm.notFlexible, fun using_ => ?_⟩
    have counted := firm.right using_
    simp only [Ty.withChildren, Ty.RightCount, Instance.hasExpectedArity, beq_iff_eq] at counted ⊢
    exact sameLength.trans counted
  | _ => exact firm_of_not_instance rfl

theorem Firm.openFlexible {t : Ty} (firm : r.Firm t) : AliasDecl.openFlexible t = t :=
  AliasDecl.openFlexible_of_notFlexible firm.notFlexible

/-- A union of flat types is an instance only if it is one of them. -/
theorem makeUnion_firm {ts : List Ty} (flat : ∀ t ∈ ts, t.FlatUnion) (firm : ∀ t ∈ ts, r.Firm t) (pos : Position) :
    r.Firm (.makeUnion ts pos) := by
  unfold Ty.makeUnion
  split
  · exact firm_of_not_instance rfl
  · rename_i m alone
    obtain ⟨t, atItem, inside⟩ := List.mem_flatMap.1 (mem_of_mem_firstOccurrences (alone ▸ List.mem_singleton_self m))
    cases t using Ty.unionCases with
    | union ms at_ =>
      have form : UnionForm ms := flat _ atItem
      have opens : (Ty.union ms at_).members = ms := Ty.FlatUnion.members_union (flat _ atItem)
      -- two members of it would be left
      obtain _ | ⟨x, _ | ⟨y, rest⟩⟩ := ms
      · exact absurd form.several (by decide)
      · exact absurd form.several (by simp)
      · have unequal : (x == y) = false := List.rel_of_pairwise_cons form.distinct List.mem_cons_self
        have first : x ∈ ts.flatMap Ty.members := List.mem_flatMap.2 ⟨_, atItem, by rw [opens]; simp⟩
        have second : y ∈ ts.flatMap Ty.members := List.mem_flatMap.2 ⟨_, atItem, by rw [opens]; simp⟩
        have several := firstOccurrences_several first second unequal
        rw [alone] at several
        exact absurd several (by simp)
    | other t notUnion =>
      rw [Ty.members_of_not_union notUnion, List.mem_singleton] at inside
      exact inside ▸ firm _ atItem
  · exact firm_of_not_instance rfl

/-- An optional type is no instance, since `None` is one of its members. -/
theorem makeOptional_firm (t : Ty) : r.Firm t.makeOptional := by
  refine firm_of_not_instance (Bool.eq_false_iff.2 fun isInstance => ?_)
  have hasNone := (Ty.members_makeOptional t).right (.noneType .unknown)
    (List.mem_append_right _ (List.mem_singleton_self _))
  generalize t.makeOptional = made at isInstance hasNone
  cases made with
  | inst i =>
    obtain ⟨m, member, equal⟩ := hasNone
    rw [List.mem_singleton.1 member] at equal
    cases equal
  | _ => cases isInstance

theorem firm_of_plain {t : Ty} (plain : AliasDecl.NoneFlexible t) (right : t.Everywhere Ty.RightCount) : r.Firm t :=
  ⟨plain.root, fun _ => right.root⟩

section Substitution

theorem replaced_of_single {P : Ty → Prop} (given : ∀ v ∈ values, P v) {t : Ty} (single : t.isUnion = false) (kept : P t)
    (made : ∀ cs, cs.length = t.children.length → P ((t.withChildren cs).withPos pos)) :
    P (replaceFormals formals values pos t) := by
  cases found : substitute? formals values t with
  | some value =>
    rw [replaced_of_formal found]
    exact given value (mem_of_substitute? found)
  | none =>
    by_cases leaf : t.children = []
    · rwa [replaced_of_leaf found leaf]
    · rw [replaced_of_node found leaf, Ty.rebuild_of_not_union single]
      exact made _ (by simp)

theorem replaced_of_union {ms : List Ty} {at_ : Position} (flat : (Ty.union ms at_).FlatUnion) :
    replaceFormals formals values pos (.union ms at_) =
      (Ty.makeUnion (ms.map (replaceFormals formals values pos)) at_).withPos pos := by
  have parts : (Ty.union ms at_).children ≠ [] := by
    intro none
    have several := flat.several
    rw [show ms = [] from none] at several
    exact absurd several (by decide)
  exact replaced_of_node rfl parts

/-- With firm values a firm type is made of a type that is firm, or of a union of firm types. -/
theorem replaced_firm (flatValues : ∀ v ∈ values, v.FlatUnion) (firmValues : ∀ v ∈ values, r.Firm v) {t : Ty}
    (flat : t.FlatUnion) (plain : AliasDecl.NoneFlexible t) (right : t.Everywhere Ty.RightCount) :
    r.Firm (replaceFormals formals values pos t) := by
  have single {m : Ty} (single : m.isUnion = false) (firm : r.Firm m) : r.Firm (replaceFormals formals values pos m) :=
    replaced_of_single firmValues single firm fun cs sameLength => (firm.withChildren sameLength).withPos pos
  cases t using Ty.unionCases with
  | union ms at_ =>
    rw [replaced_of_union flat]
    refine (makeUnion_firm (fun c member => ?_) (fun c member => ?_) at_).withPos pos
    · obtain ⟨m, atMember, rfl⟩ := List.mem_map.1 member
      exact replaced_flatUnion flatValues (Ty.flatUnion_of_not_union (flat.flat m atMember))
    · obtain ⟨m, atMember, rfl⟩ := List.mem_map.1 member
      refine single (flat.flat m atMember) (firm_of_plain ?_ (right.child atMember))
      exact AliasDecl.noneFlexible_ofMembers.member plain m atMember
  | other t notUnion => exact single notUnion (firm_of_plain plain right)

theorem replaced_noneFlexible (plainValues : ∀ v ∈ values, AliasDecl.NoneFlexible v) {t : Ty} (flat : t.FlatUnion)
    (plain : AliasDecl.NoneFlexible t) : AliasDecl.NoneFlexible (replaceFormals formals values pos t) := by
  have single {m : Ty} (single : m.isUnion = false) (plain : AliasDecl.NoneFlexible m) :
      AliasDecl.NoneFlexible (replaceFormals formals values pos m) :=
    replaced_of_single plainValues single plain fun cs _ => (plain.withChildren single cs).withPos pos
  cases t using Ty.unionCases with
  | union ms at_ =>
    rw [replaced_of_union flat]
    refine AliasDecl.NoneFlexible.withPos (AliasDecl.noneFlexible_ofMembers.makeUnion (fun c member => ?_) at_) pos
    obtain ⟨m, atMember, rfl⟩ := List.mem_map.1 member
    exact single (flat.flat m atMember) (AliasDecl.noneFlexible_ofMembers.member plain m atMember)
  | other t notUnion => exact single notUnion plain

end Substitution

/-- With the values for the variables, `a`, which is as resolution makes types, comes to `c`. An alias may stand for either of
them without more ado. -/
structure Becomes (r : Resolver) (vars : List String) (values : List Ty) (a c : Ty) : Prop where
  equal : c ≈ replaceFormals vars values .unknown a
  same : vars = [] → c = a
  made : a.WellMade vars
  plain : AliasDecl.NoneFlexible a
  flat' : c.FlatUnion
  firm : r.Firm c

namespace Becomes

variable {a c : Ty} {as cs : List Ty}

theorem noVariableOf (becomes : r.Becomes vars values a c) : a.Everywhere (Ty.NoVariableOf vars) :=
  becomes.made.opens.imp fun x opens => by
    cases x with
    | typeVar => exact opens.elim
    | _ => trivial

theorem map_equal (related : List.Forall₂ (r.Becomes vars values) as cs) :
    List.Forall₂ (· ≈ ·) cs (as.map (replaceFormals vars values .unknown)) :=
  List.forall₂_map_right_iff.2 (related.flip.imp fun _ _ becomes => becomes.equal)

theorem map_same (related : List.Forall₂ (r.Becomes vars values) as cs) (none : vars = []) : cs = as :=
  List.forall₂_eq_eq_eq ▸ related.flip.imp fun _ _ becomes => becomes.same none

theorem forall_left {P : Ty → Prop} (holds : ∀ {a c}, r.Becomes vars values a c → P a)
    (related : List.Forall₂ (r.Becomes vars values) as cs) : ∀ a ∈ as, P a := by
  intro a member
  obtain ⟨_, _, becomes⟩ := forall₂_source related.flip member
  exact holds becomes

theorem forall_right {P : Ty → Prop} (holds : ∀ {a c}, r.Becomes vars values a c → P c)
    (related : List.Forall₂ (r.Becomes vars values) as cs) : ∀ c ∈ cs, P c := by
  intro c member
  obtain ⟨_, _, becomes⟩ := forall₂_source related member
  exact holds becomes

/-- A type in which nothing has a name comes to itself. -/
theorem closed {t : Ty} (made : t.WellMade []) (plain : AliasDecl.NoneFlexible t) : r.Becomes vars values t t where
  equal := by
    refine Setoid.symm (replaced_of_formalFree made.flat (made.opens.imp fun x opens => ?_))
    rw [Ty.isFormal, Ty.nameless_of_openIn opens]
    rfl
  same _ := rfl
  made := made.of_none
  plain := plain
  flat' := made.flat.root
  firm := firm_of_plain plain made.right

/-- A form that is no union, no instance and no name comes to itself if nothing in it has a name. -/
theorem closedForm {t : Ty} (single : t.isUnion = false) (unnamed : t.formalName? = none) (other : t.isInstance = false)
    (parts : ∀ c ∈ t.children, c.WellMade []) : r.Becomes vars values t t := by
  have counted : t.RightCount := by
    cases t with
    | inst => cases other
    | _ => trivial
  have firm : r.Firm t := firm_of_not_instance other
  exact closed (.of single unnamed counted parts) ((AliasDecl.noneFlexible_iff single).2 firm.notFlexible)

theorem leaf {t : Ty} (single : t.isUnion = false) (unnamed : t.formalName? = none) (noParts : t.children = [])
    (other : t.isInstance = false) : r.Becomes vars values t t :=
  closedForm single unnamed other (by simp [noParts])

theorem any {t : Ty} (isAny : t.isAny) : r.Becomes vars values t t := by
  cases t with
  | any => exact .leaf rfl rfl rfl rfl
  | _ => cases isAny

/-- The form around the parts, which is no union and has no name, comes to the same form around what the parts come to. -/
theorem ofForm {t : Ty} (single : t.isUnion = false) (unnamed : t.formalName? = none) (plain : t.NotFlexible)
    (counted : t.RightCount) (related : List.Forall₂ (r.Becomes vars values) t.children cs) :
    r.Becomes vars values t (t.withChildren cs) where
  equal := by
    have notFormal : substitute? vars values t = none :=
      substitute?_of_not_named fun name named => by rw [unnamed] at named; cases named
    refine Setoid.trans (t.withChildren_congr (map_equal related) related.length_eq.symm) (Setoid.symm ?_)
    rw [← Ty.rebuild_of_not_union single]
    exact (Ty.flatUnion_of_not_union single).replaced_equal notFormal
  same none := by rw [map_same related none, t.withChildren_children]
  made := .of single unnamed counted (forall_left (·.made) related)
  plain := (AliasDecl.noneFlexible_iff single).2 plain
  flat' := Ty.flatUnion_of_not_union ((t.isUnion_withChildren cs).trans single)
  firm := Firm.withChildren ⟨plain, fun _ => counted⟩ related.length_eq.symm

theorem tuple (related : List.Forall₂ (r.Becomes vars values) as cs) (fallback : Instance) (implicit : Bool) (pos : Position) :
    r.Becomes vars values (.tuple ⟨as, fallback, implicit, pos⟩) (.tuple ⟨cs, fallback, implicit, pos⟩) :=
  ofForm (t := .tuple ⟨as, fallback, implicit, pos⟩) rfl rfl trivial trivial related

theorem inst {head : ClassHead} (related : List.Forall₂ (r.Becomes vars values) as cs) (plain : head.fullname ≠ flexibleAlias)
    (counted : head.arity = as.length) (pos : Position) :
    r.Becomes vars values (.inst (.of head as pos)) (.inst (.of head cs pos)) := by
  refine ofForm (t := .inst (.of head as pos)) rfl rfl plain ?_ related
  simp [Ty.RightCount, Instance.hasExpectedArity, Instance.of, counted]

theorem callable (signature : Signature) {ret ret' : Ty} (related : List.Forall₂ (r.Becomes vars values) as cs)
    (atRet : r.Becomes vars values ret ret') :
    r.Becomes vars values (.callable { signature with args := as, ret := ret })
      (.callable { signature with args := cs, ret := ret' }) := by
  have made := ofForm (r := r) (t := .callable { signature with args := as, ret := ret }) rfl rfl trivial trivial
    (List.rel_append related (.cons atRet .nil))
  simpa [Ty.withChildren] using made

section Unions

variable (flatValues : ∀ v ∈ values, v.FlatUnion)

include flatValues

theorem union (related : List.Forall₂ (r.Becomes vars values) as cs) (pos : Position) :
    r.Becomes vars values (.makeUnion as pos) (.makeUnion cs pos) := by
  have flat := forall_left (·.made.flat.root) related
  have replaced : replaceFormals vars values .unknown (.makeUnion as pos) ≈ _ :=
    replaced_makeUnion flatValues flat (forall_left (·.noVariableOf) related) pos
  exact {
    equal := Setoid.trans (Ty.makeUnion_congr (map_equal related) pos pos) (Setoid.symm replaced)
    same none := by rw [map_same related none]
    made := (Ty.WellMade.ofMembers vars).makeUnion (forall_left (·.made) related) pos
    plain := AliasDecl.noneFlexible_ofMembers.makeUnion (forall_left (·.plain) related) pos
    flat' := Ty.makeUnion_flatUnion cs pos
    firm := makeUnion_firm (forall_right (·.flat') related) (forall_right (·.firm) related) pos }

theorem optional (becomes : r.Becomes vars values a c) : r.Becomes vars values a.makeOptional c.makeOptional where
  equal := by
    have both : List.Forall₂ (r.Becomes vars values) [a, .noneType .unknown] [c, .noneType .unknown] :=
      .cons becomes (.cons (.leaf rfl rfl rfl rfl) .nil)
    have asUnion := a.makeOptional_equal_makeUnion .unknown .unknown
    have none := (Ty.noVariableOf_inherited vars).ofMembers.makeOptional becomes.noVariableOf
    have made := union flatValues both .unknown
    exact Setoid.trans (c.makeOptional_equal_makeUnion .unknown .unknown)
      (Setoid.trans made.equal (replaced_congr (Setoid.symm asUnion) made.noVariableOf none))
  same none := by rw [becomes.same none]
  made := (Ty.WellMade.ofMembers vars).makeOptional becomes.made
  plain := AliasDecl.noneFlexible_ofMembers.makeOptional becomes.plain
  flat' := Ty.makeOptional_flatUnion c
  firm := makeOptional_firm c

end Unions

end Becomes

/-! The use of an alias -/

/-- Where nothing is cut off and nothing is reported, a substitution is one without a limit. -/
theorem substitute_of_silent {t : Ty} (silent : (substitute t formals values pos).2 = []) :
    (substituteAt formals values pos t 0).2 = false ∧
      (substitute t formals values pos).1 = replaceFormals formals values pos t := by
  cases cut : (substituteAt formals values pos t 0).2 with
  | true => simp [substitute, cut] at silent
  | false => exact ⟨rfl, substituteAt_uncut cut⟩

/-- With `Any` for the formals it is the same. -/
theorem substituteAny_of_silent {t : Ty} {fromError disallowAny : Bool} {written : Option String}
    (silent : (substituteAny t formals pos fromError disallowAny written).2 = []) :
    ∃ fillers : List Ty, fillers.length = formals.length ∧ (∀ v ∈ fillers, v.isAny) ∧
      (substituteAt formals fillers pos t 0).2 = false ∧
      (substituteAny t formals pos fromError disallowAny written).1 = replaceFormals formals fillers pos t := by
  have filled {filler : Ty} (isAny : filler.isAny)
      (silent : (substitute t formals (List.replicate formals.length filler) pos).2 = []) :
      ∃ fillers : List Ty, fillers.length = formals.length ∧ (∀ v ∈ fillers, v.isAny) ∧
        (substituteAt formals fillers pos t 0).2 = false ∧
        (substitute t formals (List.replicate formals.length filler) pos).1 = replaceFormals formals fillers pos t := by
    obtain ⟨uncut, whole⟩ := substitute_of_silent silent
    refine ⟨_, List.length_replicate, fun v member => ?_, uncut, whole⟩
    rwa [(List.mem_replicate.1 member).2]
  unfold substituteAny at silent ⊢
  cases disallowAny with
  | true =>
    simp only [if_true] at silent ⊢
    exact filled (omittedAny_isAny _ _ _ _) (List.append_eq_nil_iff.1 silent).2
  | false =>
    have isAny : (Ty.anyAt (if fromError then .error else .omittedArguments) pos).isAny := rfl
    exact filled isAny silent

/-- Whether something is cut off does not depend on the values. -/
theorem substitute_silent_of_silent {t : Ty} {values' : List Ty} (sameNumber : values.length = formals.length)
    (sameNumber' : values'.length = formals.length) (silent : (substitute t formals values pos).2 = []) :
    (substitute t formals values' pos).2 = [] := by
  let a : AliasDecl := ⟨"", t, formals, false, []⟩
  have cut_iff {given : List Ty} (sameNumber : given.length = formals.length) :
      (substituteAt formals given pos t 0).2 = true ↔ a.Buries t 0 := AliasDecl.substituteAt_cut_iff (a := a) sameNumber t 0
  have uncut : (substituteAt formals values' pos t 0).2 = false := by
    refine Bool.eq_false_iff.2 fun cut => ?_
    have cut' := (cut_iff sameNumber).2 ((cut_iff sameNumber').1 cut)
    rw [(substitute_of_silent silent).1] at cut'
    cases cut'
  simp [substitute, uncut]

/-- What is asked of an alias that is applied to so many arguments: its target is as resolution makes types, with the formals
in it by name, and stands for what is made of it without more ado. -/
structure Applicable (a : AliasDecl) (number : Nat) : Prop where
  flat : a.target.Everywhere Ty.FlatUnion
  names : a.target.Everywhere fun x => ∀ name, x.formalName? = some name → name ∈ a.formals
  plain : AliasDecl.NoneFlexible a.target
  bare {head : ClassHead} : a.IsBareClass → a.targetClass? = some head → head.arity = number
  right : ¬ a.IsBareClass → a.target.Everywhere Ty.RightCount

namespace Applicable

variable {a : AliasDecl} {number : Nat}

theorem head_notFlexible (applicable : Applicable a number) {head : ClassHead} (isClass : a.targetClass? = some head) :
    head.fullname ≠ flexibleAlias := by
  have plain := applicable.plain.root
  unfold AliasDecl.targetClass? at isClass
  split at isClass
  · rename_i i atTarget
    rw [atTarget] at plain
    cases isClass
    exact plain
  · cases isClass

/-- With well made values for the formals something well made is made of the target. -/
theorem wellMade (applicable : Applicable a number) (notBare : ¬ a.IsBareClass) {names : List String} {given : List Ty}
    (sameNumber : given.length = a.formals.length) (made : ∀ v ∈ given, v.WellMade names)
    (uncut : (substituteAt a.formals given pos a.target 0).2 = false) :
    (replaceFormals a.formals given pos a.target).WellMade names where
  flat := by
    rw [← substituteAt_uncut uncut]
    exact substituteAt_everywhere Ty.flatUnion_ofNodes (fun v member => (made v member).flat) applicable.flat 0
  opens := by
    refine (Ty.openIn_inherited names).replaced (fun v member => (made v member).opens) (applicable.names.imp fun x named => ?_)
    cases atName : x.formalName? with
    | none => exact .inl (Ty.openIn_of_nameless atName)
    | some name => exact .inr (substitute?_isSome sameNumber atName (named name atName))
  right := by
    rw [← substituteAt_uncut uncut]
    exact substituteAt_everywhere Ty.rightCount_ofNodes (fun v member => (made v member).right) (applicable.right notBare) 0

/-- Without arguments nothing of what an alias stands for has a name. -/
theorem omitted (applicable : Applicable a 0) {written : Option String} {disallowAny : Bool}
    (silent : (a.expand [] pos written disallowAny).2 = []) :
    r.Becomes vars values (a.expand [] pos written disallowAny).1 (a.expand [] pos written disallowAny).1 := by
  by_cases bare : a.IsBareClass
  · obtain ⟨noFormals, isBare, isClass⟩ := bare
    obtain ⟨head, atClass⟩ := Option.isSome_iff_exists.1 isClass
    rw [AliasDecl.expand_bare noFormals isBare atClass]
    exact .inst .nil (applicable.head_notFlexible atClass) (applicable.bare ⟨noFormals, isBare, isClass⟩ atClass) pos
  · by_cases generic : a.formals = []
    · have kept : (a.expand [] pos written disallowAny).1 = a.target := by
        unfold AliasDecl.expand
        rw [generic]
        dsimp only
        split
        · rename_i head isBare isClass
          exact absurd ⟨generic, isBare, by simp [isClass]⟩ bare
        · rfl
      rw [kept]
      refine .closed ⟨applicable.flat, applicable.names.imp fun x named => Ty.openIn_of_nameless ?_, applicable.right bare⟩
        applicable.plain
      cases atName : x.formalName? with
      | none => rfl
      | some name => simpa [generic] using named name atName
    · rw [AliasDecl.expand_omitted generic] at silent ⊢
      obtain ⟨fillers, sameNumber, areAny, uncut, whole⟩ := substituteAny_of_silent silent
      rw [whole]
      have filler (v : Ty) (member : v ∈ fillers) : r.Becomes [] [] v v := .any (areAny v member)
      exact .closed (applicable.wellMade bare sameNumber (fun v member => (filler v member).made) uncut)
        (replaced_noneFlexible (fun v member => (filler v member).plain) applicable.flat.root applicable.plain)

variable {as cs : List Ty} (flatValues : ∀ v ∈ values, v.FlatUnion)

include flatValues

/-- The target with arguments for the formals comes to the target with what they come to. -/
theorem substituted (applicable : Applicable a number) (notBare : ¬ a.IsBareClass) (sameNumber : as.length = a.formals.length)
    (related : List.Forall₂ (r.Becomes vars values) as cs) (uncut : (substituteAt a.formals as pos a.target 0).2 = false)
    (uncut' : (substituteAt a.formals cs pos a.target 0).2 = false) :
    r.Becomes vars values (replaceFormals a.formals as pos a.target) (replaceFormals a.formals cs pos a.target) := by
  have flat := Becomes.forall_left (·.made.flat.root) related
  have flat' := Becomes.forall_right (·.flat') related
  have first : a.target.Everywhere (Ty.ReplacedFirst a.formals vars) :=
    applicable.names.imp fun x named name atName _ => named name atName
  exact {
    equal := by
      obtain ⟨congruent, sameCut⟩ := substituteAt_congr a.formals (Becomes.map_equal related) pos a.target 0
      rw [substituteAt_uncut uncut', substituteAt_uncut (sameCut.symm.trans uncut')] at congruent
      exact Setoid.trans congruent (Setoid.symm (replaced_replaced sameNumber flat flatValues
        (Becomes.forall_left (·.noVariableOf) related) applicable.flat first _ _ _ _))
    same none := by rw [Becomes.map_same related none]
    made := applicable.wellMade notBare sameNumber (Becomes.forall_left (·.made) related) uncut
    plain := replaced_noneFlexible (Becomes.forall_left (·.plain) related) applicable.flat.root applicable.plain
    flat' := replaced_flatUnion flat' applicable.flat.root
    firm := replaced_firm flat' (Becomes.forall_right (·.firm) related) applicable.flat.root applicable.plain
      (applicable.right notBare) }

/-- What an alias stands for with some arguments comes to what it stands for with what these come to. -/
theorem expansion (applicable : Applicable a as.length) (related : List.Forall₂ (r.Becomes vars values) as cs)
    {written : Option String} {disallowAny : Bool} (silent : (a.expand as pos written disallowAny).2 = []) :
    (a.expand cs pos written disallowAny).2 = [] ∧
      r.Becomes vars values (a.expand as pos written disallowAny).1 (a.expand cs pos written disallowAny).1 := by
  have sameLength := related.length_eq
  match as, cs, related with
  | [], [], _ => exact ⟨silent, applicable.omitted silent⟩
  | x :: xs, y :: ys, related =>
    by_cases bare : a.IsBareClass
    · obtain ⟨noFormals, isBare, isClass⟩ := bare
      obtain ⟨head, atClass⟩ := Option.isSome_iff_exists.1 isClass
      rw [AliasDecl.expand_bare noFormals isBare atClass, AliasDecl.expand_bare noFormals isBare atClass]
      have counted := applicable.bare ⟨noFormals, isBare, isClass⟩ atClass
      exact ⟨rfl, .inst related (applicable.head_notFlexible atClass) counted pos⟩
    · rw [AliasDecl.expand_cons_of_not_bare bare] at silent ⊢
      rw [AliasDecl.expand_cons_of_not_bare bare]
      by_cases count : (x :: xs).length = a.formals.length
      · have count' : (y :: ys).length = a.formals.length := sameLength.symm.trans count
        rw [if_pos count] at silent ⊢
        rw [if_pos count']
        have silent' := substitute_silent_of_silent count count' silent
        obtain ⟨uncut, whole⟩ := substitute_of_silent silent
        obtain ⟨uncut', whole'⟩ := substitute_of_silent silent'
        have made := applicable.substituted flatValues bare count related uncut uncut'
        dsimp only
        rw [whole, whole', AliasDecl.openFlexible_of_notFlexible made.plain.root, made.firm.openFlexible]
        exact ⟨silent', made⟩
      · rw [if_neg count] at silent
        cases silent

end Applicable

end Resolver

end TypeResolution
