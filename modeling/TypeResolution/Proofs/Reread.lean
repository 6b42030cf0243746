import TypeResolution.Proofs.FulfilledAlias
import TypeResolution.Proofs.PassSignal
import TypeResolution.Proofs.YieldedForms

namespace TypeResolution

open Resolve

namespace Arrivals

variable {r : Resolver} (new : Arrivals r) {s : Scope}

/-- A type variable that resolution leaves free, with arguments in which nothing is due. -/
structure StaysFree (s : Scope) (ref : Reference) : Prop where
  isFree : ∃ symbol decl, r.table.lookup ref.name = some symbol ∧ SpecialForm.ofName? symbol.fullname = none ∧
    symbol.definition = some (.typeVarDef decl) ∧ s.find? symbol.fullname = none
  allowed : r.flags.allowUnboundVariables || r.flags.definingAlias
  args : ∀ t ∈ ref.args, new.due t = false

/-- A free type variable that keeps its suffix `?` stands beside the `None` that comes of it, or the class objects of two such
types beside one another. -/
inductive SuffixBeside (s : Scope) : Ty → Ty → Prop
  | free {ref : Reference} {pos : Position} : new.StaysFree s ref → ref.optional = true →
      SuffixBeside s (.named ref) (.noneType pos)
  | classObject {t n : Ty} {pos pos' : Position} : SuffixBeside s t n →
      SuffixBeside s (.classObject t pos) (.classObject n pos')

variable {new}

/-- A free type variable is resolved to itself, and with the suffix to a union. -/
theorem StaysFree.yields {ref : Reference} (stays : new.StaysFree s ref) (noHooks : r.hooks = .empty) {bound : Nat}
    {level : Nesting} {b : Ty} (yields : Yields Problem.IsShallow ((r.recursion bound).expr (.named ref) level) s b) :
    b = if ref.optional then (Ty.named ref).makeOptional else .named ref := by
  obtain ⟨n, _, made⟩ := Resolver.yields_form (fun other => other rfl) yields
  have made : Yields Problem.IsShallow (r.reference (r.recursion n) ref level false) s b := made
  obtain ⟨symbol, decl, found, plain, defined, free⟩ := stays.isFree
  obtain ⟨a, looked, kept⟩ := made.map
  rw [kept, Resolver.yields_freeVariable noHooks found plain defined free stays.allowed looked]

theorem SuffixBeside.yields {t n : Ty} (beside : new.SuffixBeside s t n) (noHooks : r.hooks = .empty) {bound : Nat}
    {level : Nesting} {b : Ty} (yields : Yields Problem.IsShallow ((r.recursion bound).expr t level) s b) :
    b.FlatUnion ∧ SameTypes b.members [t, n] := by
  induction beside generalizing bound level b with
  | @free ref pos stays optional =>
    rw [stays.yields noHooks yields, optional, if_pos rfl]
    refine ⟨Ty.makeOptional_flatUnion _, (Ty.members_makeOptional _).trans ?_⟩
    exact .of_forall₂ (.cons (Setoid.refl _) (.cons Ty.Matches.noneType.beq .nil))
  | @classObject t n pos pos' _ ih =>
    obtain ⟨k, _, made⟩ := Resolver.yields_form (fun other => other rfl) yields
    obtain ⟨a, atItem, rfl⟩ := made.map
    obtain ⟨flat, members⟩ := ih atItem
    refine ⟨Ty.makeClassObject_flatUnion a pos, (flat.members_makeClassObject pos).trans ?_⟩
    refine (members.map fun _ _ _ _ equal => Ty.classObject_congr equal .unknown .unknown).trans ?_
    exact .of_forall₂ (.cons (Ty.classObject_congr (Setoid.refl t) _ _)
      (.cons (Ty.classObject_congr (Setoid.refl n) _ _) .nil))

variable (new)

/-- What came out of an earlier pass and comes to what it should when it is resolved again: a reference to a class that
has come stands only where it is looked up, and what is checked when it is resolved again passes. -/
inductive Readable : Scope → Ty → Prop
  | settled {s : Scope} {t : Ty} : t.isSettled → (∀ c ∈ t.children, new.due c = false) → Readable s t
  | freeVariable {s : Scope} {ref : Reference} : new.StaysFree s ref → ref.optional = false → Readable s (.named ref)
  | pending {s : Scope} {fullname : Option String} {args : List Ty} {pos : Position} : r.table.StillToCome fullname →
      (∀ t ∈ args, new.due t = false) → Readable s (.forward fullname args pos)
  | come {s : Scope} {fullname : String} {decl : ClassDecl} {args : List Ty} {pos : Position} :
      new.class? fullname = some decl → (∀ t ∈ args, Readable s t) → Readable s (.forward (some fullname) args pos)
  | tuple {s : Scope} {shape : TupleShape} : (shape.implicit → r.flags.allowTupleLiteral) →
      shape.items.countP Ty.isStar ≤ 1 → (∀ t ∈ shape.items, Readable s t) → Readable s (.tuple shape)
  | record {s : Scope} {shape : RecordShape} : (∀ field ∈ shape.fields, Readable s field.2) →
      Readable s (.record shape)
  | star {s : Scope} {item : Ty} {pos : Position} : Readable s item → Readable s (.star item pos)
  | union {s : Scope} {members : List Ty} {pos : Position} : UnionForm members →
      (∀ t ∈ members, (¬ ∃ n ∈ members, new.SuffixBeside s t n) → Readable s t) → Readable s (.union members pos)
  | classObject {s : Scope} {item : Ty} {pos : Position} : item.isUnion = false → Readable s item →
      Readable s (.classObject item pos)
  | callable {s : Scope} {signature : Signature} : (∀ t ∈ signature.args, Readable (r.innerScope s signature) t) →
      Readable (r.innerScope s signature) signature.ret → Readable s (.callable signature)

variable {new}

theorem not_due_of_staysFree {s : Scope} {ref : Reference} (stays : new.StaysFree s ref) :
    new.due (.named ref) = false := by
  rw [new.due_eq, show new.awaits (.named ref) = false from rfl, Bool.false_or, List.any_eq_false]
  exact fun t member => Bool.not_eq_true _ ▸ stays.args t member

theorem not_due_of_suffixBeside {s : Scope} {t n : Ty} (beside : new.SuffixBeside s t n) :
    new.due t = false ∧ new.due n = false := by
  have classObject {t : Ty} (none : new.due t = false) (pos : Position) : new.due (.classObject t pos) = false := by
    rw [new.due_eq, show new.awaits (.classObject t pos) = false from rfl]
    simp [Ty.children, none]
  induction beside with
  | free stays => exact ⟨not_due_of_staysFree stays, by rw [new.due_eq]; rfl⟩
  | classObject _ ih => exact ⟨classObject ih.1 _, classObject ih.2 _⟩

theorem not_due_of_settled {t : Ty} (settled : t.isSettled) (none : ∀ c ∈ t.children, new.due c = false) :
    new.due t = false := by
  have root : new.awaits t = false := by
    cases t <;> first | rfl | cases settled
  rw [new.due_eq, root, Bool.false_or, List.any_eq_false]
  exact fun c member => Bool.not_eq_true _ ▸ none c member

theorem not_due_of_pending {fullname : Option String} {args : List Ty} {pos : Position}
    (toCome : r.table.StillToCome fullname) (none : ∀ t ∈ args, new.due t = false) :
    new.due (.forward fullname args pos) = false := by
  have here : new.awaits (.forward fullname args pos) = false := by
    cases fullname with
    | none => rfl
    | some fullname =>
      by_contra awaits
      obtain ⟨decl, come⟩ := Option.isSome_iff_exists.1 ((Bool.not_eq_false _).mp awaits)
      exact toCome.not_class (new.found come)
  rw [new.due_eq, here, Bool.false_or, List.any_eq_false]
  exact fun t member => Bool.not_eq_true _ ▸ none t member

theorem Readable.kempt {s : Scope} {t : Ty} (readable : new.Readable s t) :
    t.Everywhere new.Kempt := by
  induction readable with
  | settled settled none => exact new.everywhere_kempt_of_not_due (not_due_of_settled settled none)
  | freeVariable stays => exact new.everywhere_kempt_of_not_due (not_due_of_staysFree stays)
  | pending toCome none => exact new.everywhere_kempt_of_not_due (not_due_of_pending toCome none)
  | come _ _ ih | tuple _ _ _ ih => exact Ty.everywhere_iff.2 ⟨trivial, ih⟩
  | record _ ih =>
    refine Ty.everywhere_iff.2 ⟨trivial, fun c member => ?_⟩
    obtain ⟨field, atField, rfl⟩ := List.mem_map.1 member
    exact ih field atField
  | star _ ih | classObject _ _ ih =>
    exact Ty.everywhere_iff.2 ⟨trivial, fun c member => List.mem_singleton.1 member ▸ ih⟩
  | @union s members pos form _ ih =>
    refine Ty.everywhere_iff.2 ⟨.inl form, fun c member => ?_⟩
    by_cases beside : ∃ n ∈ members, new.SuffixBeside s c n
    · obtain ⟨n, _, beside⟩ := beside
      exact new.everywhere_kempt_of_not_due (not_due_of_suffixBeside beside).1
    · exact ih c member beside
  | callable _ _ inArgs inRet =>
    refine Ty.everywhere_iff.2 ⟨trivial, fun c member => ?_⟩
    rcases List.mem_append.1 member with atArg | atRet
    · exact inArgs c atArg
    · exact List.mem_singleton.1 atRet ▸ inRet

/-- A class that has come, with arguments that come to what they should. -/
theorem applied_of_yields {fullname : String} {decl : ClassDecl} (come : new.class? fullname = some decl) {bound : Nat}
    {args values : List Ty} {pos : Position} {level : Nesting} {s : Scope} {t : Ty}
    (sameLength : args.length = values.length)
    (each : ∀ as, List.Forall₂ (fun t a => Yields Problem.IsShallow ((r.recursion bound).arg t level) s a) args as →
      List.Forall₂ (· ≈ ·) as values)
    (yields : Yields Problem.IsShallow (r.classType (r.recursion bound) decl args pos level) s t) (at_ : Position) :
    t ≈ new.applied decl values at_ := by
  by_cases bare : args = []
  · subst bare
    rw [List.eq_nil_of_length_eq_zero sameLength.symm]
    exact new.means come yields
  · have given : values.isEmpty = false := by
      cases values with
      | nil => exact absurd (List.eq_nil_of_length_eq_zero sameLength) bare
      | cons => rfl
    unfold applied
    rw [given]
    cases Resolver.yields_classType yields with
    | tuple _ isTuple => exact absurd isTuple (new.notTuple come)
    | plain _ noTuple noRecord inArgs =>
      rw [noTuple, noRecord]
      have equal := Instance.of_congr decl.head (each _ inArgs) pos at_
      exact Resolver.repaired_congr (i := .of decl.head _ pos) (j := .of decl.head values at_) (fun _ => rfl) equal false none none
    | tupleBase noArgs => exact absurd noArgs bare
    | recordBase noArgs => exact absurd noArgs bare
    | genericTuple _ _ isTuple =>
      rw [isTuple]
      exact Ty.isAny_equal rfl rfl
    | genericRecord _ _ _ isRecord =>
      rw [isRecord, Bool.or_true]
      exact Ty.isAny_equal rfl rfl

/-- Resolved again, the type comes to what it should. -/
def ComesTo (new : Arrivals r) (s : Scope) (t : Ty) : Prop :=
  ∀ ⦃bound : Nat⦄ ⦃level : Nesting⦄ ⦃b : Ty⦄, Yields Problem.IsShallow ((r.recursion bound).expr t level) s b → b ≈ new.fulfil t

section Forms

variable {s : Scope}

theorem not_deep : ¬ Problem.IsShallow .nestedTooDeep := fun other => other rfl

theorem comesTo_settled {t : Ty} (settled : t.isSettled) (none : ∀ c ∈ t.children, new.due c = false) :
    new.ComesTo s t := by
  intro bound level b yields
  obtain ⟨n, _, made⟩ := Resolver.yields_form not_deep yields
  rw [Resolver.form_of_settled settled] at made
  rw [← made.pure, new.fulfil_of_not_due (not_due_of_settled settled none)]

theorem comesTo_freeVariable (noHooks : r.hooks = .empty) {ref : Reference}
    (stays : new.StaysFree s ref) (notOptional : ref.optional = false) : new.ComesTo s (.named ref) := by
  intro bound level b yields
  rw [stays.yields noHooks yields, notOptional, new.fulfil_of_not_due (not_due_of_staysFree stays)]
  exact Setoid.refl _

/-- What is still to come stays as it is. -/
theorem comesTo_pending (notFinal : r.table.finalPass = false) {fullname : Option String} {args : List Ty} {pos : Position}
    (toCome : r.table.StillToCome fullname) (none : ∀ t ∈ args, new.due t = false) :
    new.ComesTo s (.forward fullname args pos) := by
  intro bound level b yields
  obtain ⟨n, _, made⟩ := Resolver.yields_form not_deep yields
  rw [new.fulfil_of_not_due (not_due_of_pending toCome none)]
  have made : Yields Problem.IsShallow (r.forwardType (r.recursion n) fullname args pos level) s b := made
  rw [Resolver.forwardType_of_stillToCome toCome notFinal] at made
  rw [← made.andThen.2.pure]

theorem comesTo_come {fullname : String} {decl : ClassDecl}
    (come : new.class? fullname = some decl) {args : List Ty} {pos : Position} (parts : ∀ t ∈ args, new.ComesTo s t) :
    new.ComesTo s (.forward (some fullname) args pos) := by
  intro bound level b yields
  obtain ⟨n, _, made⟩ := Resolver.yields_form not_deep yields
  rw [new.fulfil_forward come]
  have made : Yields Problem.IsShallow (r.forwardType (r.recursion n) (some fullname) args pos level) s b := made
  rw [Resolver.forwardType_of_class (new.found come)] at made
  exact applied_of_yields come (by simp) (fun as inArgs => forall₂_map_of_mem inArgs fun t member _ made => parts t member made)
    made pos

theorem comesTo_tuple {shape : TupleShape} (implicit : shape.implicit → r.flags.allowTupleLiteral)
    (stars : shape.items.countP Ty.isStar ≤ 1) (parts : ∀ t ∈ shape.items, new.ComesTo s t) :
    new.ComesTo s (.tuple shape) := by
  intro bound level b yields
  obtain ⟨n, _, made⟩ := Resolver.yields_form not_deep yields
  have made : Yields Problem.IsShallow (r.tupleType (r.recursion n) shape level) s b := made
  have notBare : (shape.implicit && !r.flags.allowTupleLiteral) = false := by
    cases isImplicit : shape.implicit with
    | false => rfl
    | true => simp [implicit isImplicit]
  unfold Resolver.tupleType at made
  rw [notBare, if_neg Bool.false_ne_true, if_neg (by omega)] at made
  obtain ⟨items, inItems, rfl⟩ := made.map
  have related := forall₂_map_of_mem (Resolver.yields_args inItems) fun t member _ made => parts t member made
  rw [new.fulfil_of_form rfl rfl]
  exact Ty.Matches.beq (.tuple related (Ty.instance_refl shape.fallback))

theorem comesTo_record {shape : RecordShape} (parts : ∀ field ∈ shape.fields, new.ComesTo s field.2) :
    new.ComesTo s (.record shape) := by
  intro bound level b yields
  obtain ⟨n, _, made⟩ := Resolver.yields_form not_deep yields
  obtain ⟨fields, inFields, rfl⟩ := made.map
  have related : List.Forall₂ (fun x y => x.1 = y.1 ∧ x.2 ≈ y.2) fields
      (shape.fields.map fun field => (field.1, new.fulfil field.2)) :=
    forall₂_map_of_mem (Resolver.yields_fields inFields) fun field member made atField =>
      ⟨atField.1, parts field member atField.2⟩
  rw [new.fulfil_record]
  exact Ty.record_congr related shape.required (Ty.instance_refl shape.fallback) shape.pos shape.pos

theorem comesTo_star {item : Ty} {pos : Position} (part : new.ComesTo s item) : new.ComesTo s (.star item pos) := by
  intro bound level b yields
  obtain ⟨n, _, made⟩ := Resolver.yields_form not_deep yields
  obtain ⟨a, atItem, rfl⟩ := made.map
  rw [new.fulfil_of_form rfl rfl]
  exact Ty.Matches.beq (.star (part atItem))

/-- The members of a union come to what they should, and the `None` that comes of a suffix is there already. -/
theorem sameTypes_of_members (noHooks : r.hooks = .empty) {members items : List Ty} {n : Nat} {level : Nesting}
    (single : ∀ t ∈ members, t.isUnion = false)
    (parts : ∀ t ∈ members, (¬ ∃ n ∈ members, new.SuffixBeside s t n) → new.ComesTo s t)
    (made : List.Forall₂ (fun t b => Yields Problem.IsShallow ((r.recursion n).arg t level) s b) members items) :
    SameTypes (items.flatMap Ty.members) ((members.map new.fulfil).flatMap Ty.members) := by
  have each {t b : Ty} (member : t ∈ members) (yields : Yields Problem.IsShallow ((r.recursion n).arg t level) s b) :
      SameTypes b.members (new.fulfil t).members ∨ ∃ n ∈ members, SameTypes b.members [new.fulfil t, new.fulfil n] := by
    by_cases suffix : ∃ n ∈ members, new.SuffixBeside s t n
    · obtain ⟨n, atNone, beside⟩ := suffix
      obtain ⟨_, same⟩ := beside.yields noHooks yields
      obtain ⟨none, none'⟩ := not_due_of_suffixBeside beside
      rw [← new.fulfil_of_not_due none, ← new.fulfil_of_not_due none'] at same
      exact .inr ⟨n, atNone, same⟩
    · exact .inl (Ty.members_of_equal (parts t member suffix yields))
  have opened : (members.map new.fulfil).flatMap Ty.members = members.map new.fulfil := by
    refine Ty.flatMap_members_of_not_union fun t member => ?_
    obtain ⟨m, atSource, rfl⟩ := List.mem_map.1 member
    exact new.fulfil_not_union (single m atSource)
  have alone {t : Ty} (member : t ∈ members) : (new.fulfil t).members = [new.fulfil t] :=
    Ty.members_of_not_union (new.fulfil_not_union (single t member))
  rw [opened]
  constructor
  · intro x member
    obtain ⟨b, atItem, member⟩ := List.mem_flatMap.1 member
    obtain ⟨t, atSource, yields⟩ := forall₂_source made atItem
    rcases each atSource yields with same | ⟨m, atNone, same⟩
    · rw [alone atSource] at same
      obtain ⟨y, atTarget, equal⟩ := same.left x member
      exact ⟨_, List.mem_map_of_mem atSource, List.mem_singleton.1 atTarget ▸ equal⟩
    · obtain ⟨y, atTarget, equal⟩ := same.left x member
      rcases List.mem_cons.1 atTarget with rfl | atTarget
      · exact ⟨_, List.mem_map_of_mem atSource, equal⟩
      · exact ⟨_, List.mem_map_of_mem atNone, List.mem_singleton.1 atTarget ▸ equal⟩
  · intro y member
    obtain ⟨t, atSource, rfl⟩ := List.mem_map.1 member
    obtain ⟨b, atItem, yields⟩ := forall₂_source made.flip atSource
    rcases each atSource yields with same | ⟨m, atNone, same⟩
    · rw [alone atSource] at same
      obtain ⟨x, atTarget, equal⟩ := same.right _ (List.mem_singleton_self _)
      exact ⟨x, List.mem_flatMap.2 ⟨b, atItem, atTarget⟩, equal⟩
    · obtain ⟨x, atTarget, equal⟩ := same.right _ List.mem_cons_self
      exact ⟨x, List.mem_flatMap.2 ⟨b, atItem, atTarget⟩, equal⟩

theorem comesTo_union (noHooks : r.hooks = .empty) {members : List Ty} {pos : Position} (form : UnionForm members)
    (parts : ∀ t ∈ members, (¬ ∃ n ∈ members, new.SuffixBeside s t n) → new.ComesTo s t) :
    new.ComesTo s (.union members pos) := by
  intro bound level b yields
  obtain ⟨n, _, made⟩ := Resolver.yields_form not_deep yields
  obtain ⟨items, inItems, rfl⟩ := made.map
  have same := sameTypes_of_members noHooks form.flat parts (Resolver.yields_args inItems)
  cases dueness : new.due (.union members pos) with
  | true =>
    rw [new.fulfil_union dueness]
    exact Ty.makeUnion_equal same pos pos
  | false =>
    have unchanged : members.map new.fulfil = members :=
      new.map_fulfil_of_not_due fun t member => new.due_child dueness member
    rw [unchanged] at same
    rw [new.fulfil_of_not_due dueness]
    exact Setoid.trans (Ty.makeUnion_equal same pos pos) (Setoid.symm (Ty.FlatUnion.union_equal form))

theorem comesTo_classObject {item : Ty} {pos : Position} (single : item.isUnion = false) (part : new.ComesTo s item) :
    new.ComesTo s (.classObject item pos) := by
  intro bound level b yields
  obtain ⟨n, _, made⟩ := Resolver.yields_form not_deep yields
  obtain ⟨a, atItem, rfl⟩ := made.map
  have equal : a ≈ new.fulfil item := part atItem
  have notUnion : a.isUnion = false := (Ty.isUnion_of_equal equal).trans (new.fulfil_not_union single)
  rw [new.fulfil_of_form rfl rfl, Ty.makeClassObject_of_not_union notUnion]
  exact Ty.classObject_congr equal _ _

theorem comesTo_callable {signature : Signature} (inArgs : ∀ t ∈ signature.args, new.ComesTo (r.innerScope s signature) t)
    (atRet : new.ComesTo (r.innerScope s signature) signature.ret) : new.ComesTo s (.callable signature) := by
  intro bound level b yields
  obtain ⟨n, _, made⟩ := Resolver.yields_form not_deep yields
  obtain ⟨_, args, ret, fallback, bindings, madeArgs, madeRet, rfl⟩ := Resolver.yields_signature made
  rw [new.fulfil_callable]
  have related := forall₂_map_of_mem madeArgs fun t member _ made => inArgs t member made
  exact Ty.Matches.beq (.callable related rfl rfl (atRet madeRet) rfl)

end Forms

/-- What is resolved again comes to what it should. -/
theorem fulfil_of_readable (noHooks : r.hooks = .empty) (notFinal : r.table.finalPass = false) {s : Scope} {t : Ty}
    (readable : new.Readable s t) : new.ComesTo s t := by
  induction readable with
  | settled settled none => exact comesTo_settled settled none
  | freeVariable stays notOptional => exact comesTo_freeVariable noHooks stays notOptional
  | pending toCome none => exact comesTo_pending notFinal toCome none
  | come come _ ih => exact comesTo_come come ih
  | tuple implicit stars _ ih => exact comesTo_tuple implicit stars ih
  | record _ ih => exact comesTo_record ih
  | star _ ih => exact comesTo_star ih
  | union form _ ih => exact comesTo_union noHooks form ih
  | classObject single _ ih => exact comesTo_classObject single ih
  | callable _ _ inArgs atRet => exact comesTo_callable inArgs atRet

end Arrivals

/-- When `t₀` is resolved in the scope `s₀`, references to classes to come are looked up wherever they stand: there is none
inside of what is kept, nor in the target of an alias that is used. -/
structure Resolver.LooksUpForwards (r : Resolver) (s₀ : Scope) (t₀ : Ty) : Prop where
  kept {s : Scope} {t : Ty} : r.ComesToRead s₀ t₀ s t → r.KeepsWhole s t → ∀ c ∈ t.children, c.Everywhere Ty.NotForward
  target {s : Scope} {ref : Reference} {decl : AliasDecl} : r.ComesToRead s₀ t₀ s (.named ref) → r.UsesAlias ref decl →
    decl.target.Everywhere Ty.NotForward

/-- Then one comes out only if more passes are to follow. -/
theorem Resolver.LooksUpForwards.rule {r : Resolver} {s₀ : Scope} {t₀ : Ty} (looksUp : r.LooksUpForwards s₀ t₀) :
    r.Rule (r.ComesToRead s₀ t₀) fun _ q t => q.Unsettled r ∨ t.Everywhere Ty.NotForward :=
  rule_signal_of_kept (reads_comesToRead r s₀ t₀) looksUp.target looksUp.kept

end TypeResolution
