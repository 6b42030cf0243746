import TypeResolution.Proofs.AliasUse
import TypeResolution.Proofs.EqualForms
import TypeResolution.Proofs.Inherited
import TypeResolution.Proofs.Steady

namespace TypeResolution

namespace Ty

/-- A type is no type variable that is bound. -/
def NotVariable : Ty → Prop
  | .typeVar .. => False
  | _ => True

theorem notVariable_of_equal {a b : Ty} (equal : a ≈ b) (here : a.NotVariable) : b.NotVariable := by
  cases matches_of_beq equal <;> exact here

theorem notVariable_inherited : Inherited NotVariable (Everywhere NotVariable) := by
  refine .everywhere id (fun {t} composed => ?_) (fun {t} cs atRoot => ?_) fun {t} pos atRoot => ?_
  · cases t <;> trivial
  · cases t <;> trivial
  · cases t <;> trivial

theorem typeVars_eq_nil_iff {t : Ty} : t.typeVars = [] ↔ t.Everywhere NotVariable := by
  have noFirst {ts : List Ty} : firstOccurrences ts = [] ↔ ts = [] := by
    constructor
    · intro none
      have kept := SameTypes.firstOccurrences ts
      rw [none] at kept
      exact kept.eq_nil
    · rintro rfl
      rfl
  induction t using inductionOn with
  | step t ih =>
    have below : (t.children.map typeVars).flatten = [] ↔ ∀ c ∈ t.children, c.Everywhere NotVariable := by
      simp only [List.flatten_eq_nil_iff, List.mem_map]
      constructor
      · intro none c member
        exact (ih c member).1 (none _ ⟨c, member, rfl⟩)
      · rintro none _ ⟨c, member, rfl⟩
        exact (ih c member).2 (none c member)
    have folded := fold_eq (fun t parts => match t with
      | .typeVar .. => [t]
      | _ => firstOccurrences parts.flatten) t
    rw [everywhere_iff, ← below]
    cases t with
    | typeVar => simp [typeVars, fold_eq, NotVariable]
    | _ => exact (Eq.congr_left folded).trans (noFirst.trans (by simp only [NotVariable, true_and]; rfl))

end Ty

/-- A report that nothing was nested too deep would not be. -/
def Problem.IsShallow (problem : Problem) : Prop := problem ≠ .nestedTooDeep

/-- Classes that have come, by full name. What each of them means without arguments does not depend on the place where it
is written. -/
structure Arrivals (r : Resolver) where
  class? : String → Option ClassDecl
  /-- What the class means without arguments. -/
  bare : ClassDecl → Ty
  found {fullname : String} {decl : ClassDecl} : class? fullname = some decl → r.table.findClass? fullname = some decl
  notTuple {fullname : String} {decl : ClassDecl} : class? fullname = some decl → decl.fullname ≠ "builtins.tuple"
  notFlexible {fullname : String} {decl : ClassDecl} : class? fullname = some decl → decl.fullname ≠ flexibleAlias
  means {fullname : String} {decl : ClassDecl} {bound : Nat} {pos : Position} {level : Nesting} {s : Scope} {t : Ty} :
    class? fullname = some decl → Resolve.Yields Problem.IsShallow (r.classType (r.recursion bound) decl [] pos level) s t →
    t ≈ bare decl
  bare_not_union (decl : ClassDecl) : (bare decl).isUnion = false
  bare_not_syntactic (decl : ClassDecl) : (bare decl).isSyntactic = false
  bare_noVariable (decl : ClassDecl) : (bare decl).Everywhere Ty.NotVariable
  bare_repaired {decl : ClassDecl} {i : Instance} : bare decl = .inst i →
    i.head = decl.head ∧ (r.flags.definingAlias = false → i.hasExpectedArity)

namespace Arrivals

variable {r : Resolver} (new : Arrivals r)

/-- The type is a reference to a class to come that has come. -/
def awaits : Ty → Bool
  | .forward (some fullname) _ _ => (new.class? fullname).isSome
  | _ => false

/-- A reference to a class that has come stands somewhere in the type. -/
def due : Ty → Bool := Ty.fold fun t parts => new.awaits t || parts.any id

/-- What a class that has come means with arguments. -/
def applied (decl : ClassDecl) (args : List Ty) (pos : Position) : Ty :=
  if args.isEmpty then new.bare decl
  else if decl.tupleBase.isSome || decl.recordBase.isSome then .anyAt .error pos
  else .inst (r.repaired (.of decl.head args pos) false none)

/-- The type with the classes that have come in their places. A type in which none is due stays as it is. -/
def fulfil : Ty → Ty := Ty.fold fun t parts =>
  if new.due t then
    match t with
    | .forward (some fullname) _ pos =>
      match new.class? fullname with
      | some decl => new.applied decl parts pos
      | none => t.withChildren parts
    | _ => t.rebuild parts
  else t

/-- A union is in the form in which unions are made, or no class is due in it. -/
def Kempt : Ty → Prop
  | .union ms _ => UnionForm ms ∨ ∀ m ∈ ms, new.due m = false
  | _ => True

theorem due_eq (t : Ty) : new.due t = (new.awaits t || t.children.any new.due) := by
  rw [due, Ty.fold_eq]
  simp [List.any_map]

theorem due_eq_false_iff {t : Ty} : new.due t = false ↔ t.Everywhere fun x => new.awaits x = false := by
  induction t using Ty.inductionOn with
  | step t ih =>
    rw [due_eq, Ty.everywhere_iff, Bool.or_eq_false_iff, List.any_eq_false]
    refine and_congr_right fun _ => forall₂_congr fun c member => ?_
    rw [← ih c member, Bool.not_eq_true]

theorem awaits_of_equal {a b : Ty} (equal : a ≈ b) : new.awaits a = new.awaits b := by
  cases Ty.matches_of_beq equal with
  | @forward fullname => cases fullname <;> rfl
  | _ => rfl

theorem due_of_equal {a b : Ty} (equal : a ≈ b) : new.due a = new.due b := by
  have passes {a b : Ty} (equal : a ≈ b) (none : new.due a = false) : new.due b = false := by
    rw [due_eq_false_iff] at none ⊢
    exact none.of_equal (fun a b equal root => (new.awaits_of_equal equal).symm.trans root) equal
  cases atA : new.due a with
  | false => exact (passes equal atA).symm
  | true =>
    cases atB : new.due b with
    | false => rw [passes (Setoid.symm equal) atB] at atA; cases atA
    | true => rfl

theorem due_child {t c : Ty} (none : new.due t = false) (member : c ∈ t.children) : new.due c = false := by
  rw [due_eq_false_iff] at none ⊢
  exact none.child member

theorem fulfil_eq (t : Ty) : new.fulfil t =
    if new.due t then
      match t with
      | .forward (some fullname) _ pos =>
        match new.class? fullname with
        | some decl => new.applied decl (t.children.map new.fulfil) pos
        | none => t.withChildren (t.children.map new.fulfil)
      | _ => t.rebuild (t.children.map new.fulfil)
    else t := Ty.fold_eq _ t

theorem fulfil_of_not_due {t : Ty} (none : new.due t = false) : new.fulfil t = t := by
  rw [fulfil_eq, none]
  rfl

theorem map_fulfil_of_not_due {ts : List Ty} (none : ∀ t ∈ ts, new.due t = false) : ts.map new.fulfil = ts := by
  conv_rhs => rw [← List.map_id ts]
  exact List.map_congr_left fun t member => new.fulfil_of_not_due (none t member)

theorem fulfil_of_due {t : Ty} (dueness : new.due t = true) (here : new.awaits t = false) :
    new.fulfil t = t.rebuild (t.children.map new.fulfil) := by
  rw [fulfil_eq, dueness, if_pos rfl]
  cases t with
  | forward fullname args pos =>
    cases fullname with
    | none => rfl
    | some fullname =>
      have absent : new.class? fullname = none := by simpa [awaits] using here
      simp only [absent]
      rfl
  | _ => rfl

/-- In most types it is the children that change. -/
theorem fulfil_of_form {t : Ty} (notUnion : t.isUnion = false) (here : new.awaits t = false) :
    new.fulfil t = t.withChildren (t.children.map new.fulfil) := by
  cases dueness : new.due t with
  | false =>
    rw [fulfil_of_not_due new dueness, map_fulfil_of_not_due new fun c member => new.due_child dueness member,
      Ty.withChildren_children]
  | true => rw [new.fulfil_of_due dueness here, Ty.rebuild_of_not_union notUnion]

theorem fulfil_forward {fullname : String} {decl : ClassDecl} (come : new.class? fullname = some decl) (args : List Ty)
    (pos : Position) : new.fulfil (.forward (some fullname) args pos) = new.applied decl (args.map new.fulfil) pos := by
  have dueness : new.due (.forward (some fullname) args pos) = true := by
    rw [due_eq, awaits, come]
    rfl
  rw [fulfil_eq, dueness]
  simp only [if_true, come, Ty.children]

theorem fulfil_union {ms : List Ty} {pos : Position} (dueness : new.due (.union ms pos) = true) :
    new.fulfil (.union ms pos) = .makeUnion (ms.map new.fulfil) pos := by
  rw [fulfil_eq, dueness]
  rfl

theorem fulfil_withChildren {t : Ty} (notUnion : t.isUnion = false) (here : new.awaits t = false) {cs : List Ty}
    (sameLength : cs.length = t.children.length) :
    new.fulfil (t.withChildren cs) = t.withChildren (cs.map new.fulfil) := by
  have stays : new.awaits (t.withChildren cs) = false := by
    cases t with
    | forward fullname => cases fullname <;> exact here
    | _ => exact here
  rw [new.fulfil_of_form ((t.isUnion_withChildren cs).trans notUnion) stays, Ty.children_withChildren t cs sameLength,
    Ty.withChildren_withChildren _ _ _ (by simp)]

theorem fulfil_record (shape : RecordShape) : new.fulfil (.record shape) =
    .record { shape with fields := shape.fields.map fun field => (field.1, new.fulfil field.2) } := by
  have zipped (fields : List (String × Ty)) :
      fields.zipWith (fun field c => (field.1, c)) ((fields.map Prod.snd).map new.fulfil) =
        fields.map fun field => (field.1, new.fulfil field.2) := by
    induction fields with
    | nil => rfl
    | cons field fields ih => simpa using ih
  rw [new.fulfil_of_form rfl rfl]
  simp only [Ty.withChildren, Ty.children, zipped]

theorem fulfil_callable (s : Signature) : new.fulfil (.callable s) =
    .callable { s with args := s.args.map new.fulfil, ret := new.fulfil s.ret } := by
  rw [new.fulfil_of_form rfl rfl]
  simp [Ty.withChildren, Ty.children]

theorem applied_not_union (decl : ClassDecl) (args : List Ty) (pos : Position) :
    (new.applied decl args pos).isUnion = false := by
  unfold applied
  split
  · exact new.bare_not_union decl
  · split <;> rfl

theorem fulfil_not_union {t : Ty} (notUnion : t.isUnion = false) : (new.fulfil t).isUnion = false := by
  cases here : new.awaits t with
  | false =>
    rw [new.fulfil_of_form notUnion here, Ty.isUnion_withChildren]
    exact notUnion
  | true =>
    cases t with
    | forward fullname args pos =>
      cases fullname with
      | none => cases here
      | some fullname =>
        obtain ⟨decl, come⟩ := Option.isSome_iff_exists.1 (show (new.class? fullname).isSome = true from here)
        rw [new.fulfil_forward come]
        exact new.applied_not_union _ _ _
    | _ => cases here

theorem fulfil_flatUnion {t : Ty} (flat : t.FlatUnion) : (new.fulfil t).FlatUnion := by
  cases t using Ty.unionCases with
  | union ms pos =>
    cases dueness : new.due (.union ms pos) with
    | false => rwa [new.fulfil_of_not_due dueness]
    | true =>
      rw [new.fulfil_union dueness]
      exact Ty.makeUnion_flatUnion _ _
  | other t notUnion =>
    exact Ty.flatUnion_of_not_union (new.fulfil_not_union notUnion)

end Arrivals

theorem Ty.isAny_equal {a b : Ty} (anyA : a.isAny) (anyB : b.isAny) : a ≈ b := by
  cases a <;> cases anyA
  cases b <;> cases anyB
  exact Matches.any.beq

theorem forall₂_replicate {R : Ty → Ty → Prop} {x y : Ty} (related : R x y) (n : Nat) :
    List.Forall₂ R (List.replicate n x) (List.replicate n y) := by
  induction n with
  | zero => exact .nil
  | succ n ih => exact .cons related ih

theorem forall₂_map_of_mem {α β γ : Type} {R : α → β → Prop} {S : β → γ → Prop} {f : α → γ} {xs : List α} {ys : List β}
    (related : List.Forall₂ R xs ys) (each : ∀ x ∈ xs, ∀ y, R x y → S y (f x)) : List.Forall₂ S ys (xs.map f) := by
  induction related with
  | nil => exact .nil
  | cons here _ ih => exact .cons (each _ List.mem_cons_self _ here) (ih fun x member => each x (List.mem_cons_of_mem _ member))

/-- Equal instances, for which the same number of arguments is right, are repaired alike. -/
theorem Resolver.repaired_congr {r : Resolver} {i j : Instance}
    (sameArity : r.flags.definingAlias = false → i.head.arity = j.head.arity) (equal : i.beq j = true) (fromAlias : Bool)
    (written written' : Option String) :
    Ty.inst (r.repaired i fromAlias written) ≈ .inst (r.repaired j fromAlias written') := by
  obtain ⟨head, xs, invalid, known, p⟩ := i
  obtain ⟨head', ys, invalid', known', q⟩ := j
  obtain ⟨sameClass, args, sameKnown⟩ := Instance.beq_iff.1 equal
  dsimp only at sameArity sameClass args sameKnown
  have given (us vs : List Ty) (related : List.Forall₂ (· ≈ ·) us vs) (invalid invalid' : Bool) :
      Ty.inst ⟨head, us, invalid, known, p⟩ ≈ .inst ⟨head', vs, invalid', known', q⟩ :=
    Ty.Matches.beq (.inst (Instance.beq_iff.2 ⟨sameClass, related, sameKnown⟩))
  have sameLength := args.length_eq
  unfold repaired
  split
  · exact given xs ys args _ _
  · rename_i using_
    have sameArity := sameArity (Bool.eq_false_iff.2 using_)
    simp only [fixInstance, Instance.hasExpectedArity, sameLength, sameArity, List.isEmpty_iff_length_eq_zero]
    split
    · exact given xs ys args _ _
    · split
      · exact given _ _ (forall₂_replicate (Ty.isAny_equal (omittedAny_isAny _ _ _ _) (omittedAny_isAny _ _ _ _)) _) _ _
      · exact given _ _ (forall₂_replicate (Setoid.refl Ty.error) _) true true

theorem Instance.of_congr (head : ClassHead) {xs ys : List Ty} (related : List.Forall₂ (· ≈ ·) xs ys) (p q : Position) :
    (Instance.of head xs p).beq (.of head ys q) = true :=
  Instance.beq_iff.2 ⟨rfl, related, .none⟩

namespace Arrivals

variable {r : Resolver} (new : Arrivals r)

theorem applied_congr (decl : ClassDecl) {xs ys : List Ty} (related : List.Forall₂ (· ≈ ·) xs ys) (p q : Position) :
    new.applied decl xs p ≈ new.applied decl ys q := by
  have sameLength := related.length_eq
  simp only [applied, List.isEmpty_iff_length_eq_zero, sameLength]
  split
  · exact Setoid.refl _
  · split
    · exact Ty.Matches.any.beq
    · have equal := Instance.of_congr decl.head related p q
      exact Resolver.repaired_congr (i := .of decl.head xs p) (j := .of decl.head ys q) (fun _ => rfl) equal false none none

/-- Equal types come to equal types. -/
theorem fulfil_congr {a b : Ty} (equal : a ≈ b) : new.fulfil a ≈ new.fulfil b := by
  induction a using Ty.inductionOn generalizing b with
  | step a ih =>
    cases dueness : new.due a with
    | false =>
      rw [new.fulfil_of_not_due dueness, new.fulfil_of_not_due ((new.due_of_equal equal).symm.trans dueness)]
      exact equal
    | true =>
      have dueB : new.due b = true := (new.due_of_equal equal).symm.trans dueness
      have turned : ∀ c ∈ a.children, ∀ d ∈ b.children, c ≈ d → new.fulfil c ≈ new.fulfil d :=
        fun c member d _ equal => ih c member equal
      cases here : new.awaits a with
      | false =>
        rw [new.fulfil_of_due dueness here, new.fulfil_of_due dueB ((new.awaits_of_equal equal).symm.trans here)]
        exact Ty.rebuild_map_congr equal turned
      | true =>
        cases Ty.matches_of_beq equal with
        | @forward fullname xs ys pos pos' related =>
          cases fullname with
          | none => cases here
          | some fullname =>
            obtain ⟨decl, come⟩ := Option.isSome_iff_exists.1 (show (new.class? fullname).isSome = true from here)
            rw [new.fulfil_forward come, new.fulfil_forward come]
            exact new.applied_congr decl (Ty.map_congr related turned) _ _
        | _ => cases here

theorem flatUnion_of_due {t : Ty} (kempt : new.Kempt t) (dueness : new.due t = true) : t.FlatUnion := by
  cases t with
  | union ms pos =>
    refine kempt.resolve_right fun none => ?_
    rw [due_eq, show new.awaits (.union ms pos) = false from rfl, Bool.false_or, List.any_eq_true] at dueness
    obtain ⟨m, member, due⟩ := dueness
    rw [none m member] at due
    cases due
  | _ => trivial

theorem map_members_fulfil (t : Ty) : t.members.map new.fulfil = t.members.flatMap fun m => (new.fulfil m).members := by
  rw [List.map_eq_flatMap]
  refine List.flatMap_congr fun m member => ?_
  rw [Ty.members_of_not_union (new.fulfil_not_union (Ty.not_union_of_mem_members t m member))]

/-- The members of what a type comes to are what its members come to. -/
theorem members_fulfil {t : Ty} (kempt : new.Kempt t) : SameTypes (new.fulfil t).members (t.members.map new.fulfil) := by
  cases t using Ty.unionCases with
  | union ms pos =>
    cases dueness : new.due (.union ms pos) with
    | false =>
      have none : ∀ m ∈ (Ty.union ms pos).members, new.due m = false := by
        intro m member
        rw [due_eq_false_iff] at dueness ⊢
        exact dueness.of_inside (Ty.inside_of_mem_members _ m member)
      rw [new.fulfil_of_not_due dueness, new.map_fulfil_of_not_due none]
      exact .refl _
    | true =>
      have flat : UnionForm ms := new.flatUnion_of_due kempt dueness
      have opens : (Ty.union ms pos).members = ms := Ty.FlatUnion.members_union flat
      rw [new.fulfil_union dueness, new.map_members_fulfil, opens]
      refine Ty.members_makeUnion_map flat (fun m member => ?_) pos
      exact new.fulfil_flatUnion (Ty.flatUnion_of_not_union (flat.flat m member))
  | other t notUnion =>
    rw [Ty.members_of_not_union notUnion, Ty.members_of_not_union (new.fulfil_not_union notUnion)]
    exact .refl _

theorem kempt_ofNodes : Ty.OfNodes new.Kempt where
  inst _ _ _ := trivial
  union _ form := .inl form
  move _ kempt := kempt
  other {t} _ _ := by cases t <;> trivial

theorem kempt_of_flatUnion {t : Ty} (flat : t.FlatUnion) : new.Kempt t := by
  cases t <;> first | trivial | exact .inl flat

/-- What a union comes to is the union of what the items come to. -/
theorem fulfil_makeUnion {ts : List Ty} (kempt : ∀ t ∈ ts, new.Kempt t) (pos : Position) :
    new.fulfil (.makeUnion ts pos) ≈ .makeUnion (ts.map new.fulfil) pos := by
  have opens {t : Ty} (kempt : new.Kempt t) :
      SameTypes (new.fulfil t).members (t.members.flatMap fun m => (new.fulfil m).members) := by
    rw [← new.map_members_fulfil]
    exact new.members_fulfil kempt
  refine Ty.map_makeUnion ?_ (fun _ flat => new.fulfil_flatUnion flat) ?_ fun _ _ _ _ equal => new.fulfil_congr equal
  · rw [new.fulfil_of_form rfl rfl]
    exact Setoid.refl _
  · intro t member
    rcases List.mem_cons.1 member with rfl | member
    · exact opens (new.kempt_of_flatUnion (Ty.makeUnion_flatUnion ts pos))
    · exact opens (kempt t member)

/-- What a form made anew comes to is the form made anew around what the parts come to. -/
theorem fulfil_rebuild {t : Ty} (here : new.awaits t = false) {cs : List Ty} (sameLength : cs.length = t.children.length)
    (kempt : ∀ c ∈ cs, new.Kempt c) : new.fulfil (t.rebuild cs) ≈ t.rebuild (cs.map new.fulfil) := by
  cases t using Ty.unionCases with
  | union ms pos => exact new.fulfil_makeUnion kempt pos
  | other t notUnion =>
    rw [Ty.rebuild_of_not_union notUnion, Ty.rebuild_of_not_union notUnion, new.fulfil_withChildren notUnion here sameLength]

theorem fulfil_makeOptional {t : Ty} (kempt : new.Kempt t) :
    new.fulfil t.makeOptional ≈ (new.fulfil t).makeOptional := by
  have flat := Ty.makeOptional_flatUnion t
  refine (new.fulfil_flatUnion flat).equal_of_members (Ty.makeOptional_flatUnion _) ?_
  have atNone : new.fulfil (.noneType .unknown) = .noneType .unknown := new.fulfil_of_form rfl rfl
  have members := (Ty.members_makeOptional t).map fun _ _ _ _ equal => new.fulfil_congr equal
  rw [List.map_append, List.map_singleton, atNone] at members
  exact (new.members_fulfil (new.kempt_of_flatUnion flat)).trans
    (members.trans (((new.members_fulfil kempt).symm.append (.refl _)).trans (Ty.members_makeOptional _).symm))

/-- In a type that is made of parts in which nothing is due, nothing is due. -/
theorem notDue_inherited : Ty.Inherited (fun t => new.awaits t = false) fun t => new.due t = false where
  composed {t} composed := by cases t <;> first | rfl | cases composed
  rebuilt {t} cs _ here := by
    cases t with
    | forward fullname => cases fullname <;> exact here
    | _ => exact here
  node {t} here parts := by
    rw [due_eq, here, Bool.false_or, List.any_eq_false]
    exact fun c member => Bool.not_eq_true _ ▸ parts c member
  part _ none member := new.due_child none member
  move {t} pos none := by rwa [new.due_of_equal (t.withPos_equal pos)]

theorem fulfil_makeClassObject {t : Ty} (kempt : new.Kempt t) (pos : Position) :
    new.fulfil (t.makeClassObject pos) ≈ (new.fulfil t).makeClassObject pos := by
  cases dueness : new.due t with
  | false =>
    have none := new.notDue_inherited.ofMembers.makeClassObject dueness pos
    rw [new.fulfil_of_not_due dueness, new.fulfil_of_not_due none]
  | true =>
    have flat := new.flatUnion_of_due kempt dueness
    have made := Ty.makeClassObject_flatUnion t pos
    refine (new.fulfil_flatUnion made).equal_of_members (Ty.makeClassObject_flatUnion _ _) ?_
    have outside := (flat.members_makeClassObject pos).map fun _ _ _ _ equal => new.fulfil_congr equal
    have inside := (new.members_fulfil kempt).map fun _ _ _ _ equal => Ty.classObject_congr equal .unknown .unknown
    have swapped : (t.members.map (Ty.classObject · .unknown)).map new.fulfil =
        (t.members.map new.fulfil).map (Ty.classObject · .unknown) := by
      rw [List.map_map, List.map_map]
      exact List.map_congr_left fun m _ => new.fulfil_of_form rfl rfl
    rw [swapped] at outside
    exact (new.members_fulfil (new.kempt_of_flatUnion made)).trans
      (outside.trans (inside.symm.trans ((new.fulfil_flatUnion flat).members_makeClassObject pos).symm))

/-- No type variables come in with the classes. -/
theorem fulfil_noVariable {t : Ty} (none : t.Everywhere Ty.NotVariable) : (new.fulfil t).Everywhere Ty.NotVariable := by
  induction t using Ty.inductionOn with
  | step t ih =>
    have parts : ∀ c ∈ t.children.map new.fulfil, c.Everywhere Ty.NotVariable := by
      intro c member
      obtain ⟨source, atChild, rfl⟩ := List.mem_map.1 member
      exact ih source atChild (none.child atChild)
    rw [fulfil_eq]
    split
    · split
      · split
        · rename_i args pos _ decl come
          unfold applied
          split
          · exact new.bare_noVariable decl
          · split
            · exact Ty.notVariable_inherited.any rfl
            · exact Ty.notVariable_inherited.repaired parts
        · exact Ty.notVariable_inherited.node trivial parts
      · exact Ty.notVariable_inherited.rebuild none.root (by simp) parts
    · exact none

end Arrivals

end TypeResolution
