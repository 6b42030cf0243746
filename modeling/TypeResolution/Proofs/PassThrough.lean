import TypeResolution.Proofs.InferredVariables
import TypeResolution.Proofs.SameTypes
import TypeResolution.Proofs.SteadyForms
import TypeResolution.Proofs.WellScoped

namespace TypeResolution

open Resolve

namespace Ty

/-- The children that resolution goes into; it leaves the arguments of an instance alone. -/
def exposed : Ty → List Ty
  | .inst _ => []
  | t => t.children

mutual
/-- The same type, but with `standard` for the fallback of every callable in it that has none. -/
def fillFallbacks (standard : Option Instance) : Ty → Ty
  | .tuple ⟨items, fallback, implicit, pos⟩ => .tuple ⟨fillFallbacksAll standard items, fallback, implicit, pos⟩
  | .record ⟨fields, required, fallback, pos⟩ =>
    .record ⟨fillFallbacksFields standard fields, required, fallback, pos⟩
  | .callable ⟨args, kinds, names, ret, fallback, bindings, anyArgs, pos⟩ =>
    .callable ⟨fillFallbacksAll standard args, kinds, names, fillFallbacks standard ret, fallback <|> standard,
      fillFallbacksBindings standard bindings, anyArgs, pos⟩
  | .union members pos => .union (fillFallbacksAll standard members) pos
  | .classObject item pos => .classObject (fillFallbacks standard item) pos
  | .star item pos => .star (fillFallbacks standard item) pos
  | t => t
termination_by structural t => t

def fillFallbacksAll (standard : Option Instance) : List Ty → List Ty
  | [] => []
  | t :: ts => fillFallbacks standard t :: fillFallbacksAll standard ts
termination_by structural ts => ts

def fillFallbacksFields (standard : Option Instance) : List (String × Ty) → List (String × Ty)
  | [] => []
  | (key, t) :: fields => (key, fillFallbacks standard t) :: fillFallbacksFields standard fields
termination_by structural fields => fields

def fillFallbacksBinding (standard : Option Instance) : TypeVarBinding → TypeVarBinding
  | ⟨name, fullname, id, values, upperBound, variance, pos⟩ =>
    ⟨name, fullname, id, fillFallbacksAll standard values, fillFallbacks standard upperBound, variance, pos⟩
termination_by structural binding => binding

def fillFallbacksBindings (standard : Option Instance) : List TypeVarBinding → List TypeVarBinding
  | [] => []
  | binding :: bindings => fillFallbacksBinding standard binding :: fillFallbacksBindings standard bindings
termination_by structural bindings => bindings
end

section Filling

variable {standard : Option Instance}

theorem fillFallbacksAll_eq (ts : List Ty) : fillFallbacksAll standard ts = ts.map (fillFallbacks standard) := by
  induction ts with
  | nil => rfl
  | cons t ts ih => simp [fillFallbacksAll, ih]

theorem fillFallbacksFields_eq (fields : List (String × Ty)) :
    fillFallbacksFields standard fields = fields.map fun field => (field.1, fillFallbacks standard field.2) := by
  induction fields with
  | nil => rfl
  | cons field fields ih => simp [fillFallbacksFields, ih]

theorem fillFallbacksBindings_eq (bindings : List TypeVarBinding) :
    fillFallbacksBindings standard bindings = bindings.map (fillFallbacksBinding standard) := by
  induction bindings with
  | nil => rfl
  | cons binding bindings ih => simp [fillFallbacksBindings, ih]

theorem fillFallbacks_callable (s : Signature) : fillFallbacks standard (.callable s) = .callable { s with
    args := s.args.map (fillFallbacks standard)
    ret := fillFallbacks standard s.ret
    fallback := s.fallback <|> standard
    bindings := s.bindings.map (fillFallbacksBinding standard) } := by
  cases s
  rw [fillFallbacks, fillFallbacksAll_eq, fillFallbacksBindings_eq]

theorem fillFallbacks_tuple (shape : TupleShape) :
    fillFallbacks standard (.tuple shape) = .tuple { shape with items := shape.items.map (fillFallbacks standard) } := by
  cases shape
  rw [fillFallbacks, fillFallbacksAll_eq]

theorem fillFallbacks_record (shape : RecordShape) : fillFallbacks standard (.record shape) = .record { shape with
    fields := shape.fields.map fun field => (field.1, fillFallbacks standard field.2) } := by
  cases shape
  rw [fillFallbacks, fillFallbacksFields_eq]

theorem fillFallbacks_union (ms : List Ty) (pos : Position) :
    fillFallbacks standard (.union ms pos) = .union (ms.map (fillFallbacks standard)) pos := by
  rw [fillFallbacks, fillFallbacksAll_eq]

theorem isUnion_fillFallbacks (t : Ty) : (fillFallbacks standard t).isUnion = t.isUnion := by
  cases t with
  | callable s => rw [fillFallbacks_callable]; rfl
  | tuple shape => rw [fillFallbacks_tuple]; rfl
  | record shape => rw [fillFallbacks_record]; rfl
  | _ => rfl

/-- The fallback of a callable does not count when types are compared. -/
theorem fillFallbacks_equal (t : Ty) : fillFallbacks standard t ≈ t := by
  induction t using inductionOn with
  | step t ih =>
    have related (ts : List Ty) (inChildren : ∀ c ∈ ts, c ∈ t.children) :
        List.Forall₂ (· ≈ ·) (ts.map (fillFallbacks standard)) ts :=
      List.forall₂_map_left_iff.2 (forall₂_refl_of fun c member => ih c (inChildren c member))
    cases t with
    | tuple shape =>
      rw [fillFallbacks_tuple]
      exact Matches.beq (.tuple (related shape.items fun _ => id) (instance_refl _))
    | record shape =>
      obtain ⟨fields, required, fallback, pos⟩ := shape
      rw [fillFallbacks_record]
      have related : List.Forall₂ (fun x y : String × Ty => x.1 = y.1 ∧ x.2 ≈ y.2)
          (fields.map fun field => (field.1, fillFallbacks standard field.2)) fields :=
        List.forall₂_map_left_iff.2 (forall₂_refl_of fun field member => ⟨rfl, ih field.2 (List.mem_map_of_mem member)⟩)
      exact record_congr related required (instance_refl fallback) pos pos
    | callable s =>
      rw [fillFallbacks_callable]
      refine Matches.beq (.callable (related s.args fun c member => ?_) rfl rfl (ih s.ret ?_) rfl)
      · exact List.mem_append_left _ member
      · exact List.mem_append_right _ (List.mem_singleton_self _)
    | union ms pos =>
      rw [fillFallbacks_union]
      have same := SameTypes.of_forall₂ (related ms fun _ => id)
      refine Matches.beq (.union (List.length_map _) same.left fun m member => ?_)
      obtain ⟨filled, atFilled, equal⟩ := same.right m member
      exact ⟨filled, atFilled, Setoid.symm equal⟩
    | classObject item pos => exact Matches.beq (.classObject (ih item (List.mem_singleton_self _)))
    | star item pos => exact Matches.beq (.star (ih item (List.mem_singleton_self _)))
    | _ => exact Setoid.refl _

end Filling

theorem makeUnion_of_unionForm {ms : List Ty} (form : UnionForm ms) (pos : Position) : makeUnion ms pos = .union ms pos := by
  have kept : firstOccurrences (ms.flatMap members) = ms := by
    rw [flatMap_members_of_not_union form.flat]
    exact firstOccurrences_of_distinct form.distinct
  have several := form.several
  unfold makeUnion
  rw [kept]
  match ms, several with
  | _ :: _ :: _, _ => rfl

/-- A union stays in the form in which unions are made when its members are put for equal ones. -/
theorem unionForm_fillFallbacks {standard : Option Instance} {ms : List Ty} (form : UnionForm ms) :
    UnionForm (ms.map (fillFallbacks standard)) where
  several := by
    rw [List.length_map]
    exact form.several
  flat m member := by
    obtain ⟨m, atSource, rfl⟩ := List.mem_map.1 member
    rw [isUnion_fillFallbacks]
    exact form.flat m atSource
  distinct := by
    refine List.pairwise_map.2 (form.distinct.imp fun {a b} unequal => ?_)
    have same : (fillFallbacks standard a == fillFallbacks standard b) = (a == b) :=
      (BEq.congr_left (fillFallbacks_equal a)).trans (BEq.congr_right (fillFallbacks_equal b))
    rw [same]
    exact unequal

end Ty

namespace Resolve

variable {α β : Type} {p q : Progress}

theorem mapM_of_run {f : α → Resolve β} {g : α → β} {xs : List α} (each : ∀ x ∈ xs, f x p = some (g x, p)) :
    xs.mapM f p = some (xs.map g, p) := by
  induction xs with
  | nil => rfl
  | cons x xs ih =>
    rw [List.mapM_cons, bind_of_run (each x List.mem_cons_self),
      bind_of_run (ih fun x member => each x (List.mem_cons_of_mem _ member))]
    rfl

end Resolve

namespace Resolver

variable {r : Resolver}

/-- What resolution leaves alone at one node that stands in the scope `s`. -/
def NormalNode (r : Resolver) (s : Scope) : Ty → Prop
  | .union ms _ => UnionForm ms
  | .classObject item _ => item.isUnion = false
  | .tuple shape => (shape.implicit → r.flags.allowTupleLiteral) ∧ shape.items.countP Ty.isStar ≤ 1
  | .callable signature => r.flags.definingAlias = false → signature.bindings = [] →
      inferTypeVariables r.table s.functionFrame signature = []
  | .forward .. => False
  | t => t.isSyntactic = false

/-- Where resolution goes, at the levels where it gets there, every node is one that it leaves alone. -/
inductive NormalForm (r : Resolver) : Scope → Nesting → Ty → Prop
  | of {s : Scope} {level : Nesting} {t : Ty} : level.level ≤ maxNesting → r.NormalNode s t →
      (∀ c ∈ t.exposed, r.NormalForm (r.partScope s t) level.deeper c) →
      (∀ binding ∈ t.declared, ∀ v ∈ binding.values, r.NormalForm (r.partScope s t) level.deeper v) →
      (∀ binding ∈ t.declared, r.NormalForm (r.partScope s t) level binding.upperBound) → r.NormalForm s level t

/-- The instance that callables without a fallback get. -/
def standardFallback (r : Resolver) : Option Instance := r.instanceOf? "builtins.function" [] .unknown

/-- A signature binds the variables that it declares. -/
theorem innerBindings_of_normal {s : Scope} {signature : Signature} (normal : r.NormalNode s (.callable signature)) :
    r.innerBindings s signature = signature.bindings ∧ r.innerReports s signature = [] := by
  unfold innerBindings innerReports
  cases using_ : r.flags.definingAlias with
  | true => exact ⟨rfl, rfl⟩
  | false =>
    rw [if_neg Bool.false_ne_true, if_neg Bool.false_ne_true]
    unfold Scope.bindSignature
    split
    · rename_i isEmpty
      have none := List.isEmpty_iff.1 isEmpty
      rw [normal using_ none, none]
      exact ⟨rfl, rfl⟩
    · exact ⟨rfl, rfl⟩

section Run

variable {again : Recursion} {limit : Nat} {s : Scope} {level : Nesting} {p : Progress}

/-- Types in normal form that are lighter than `limit` pass through the recursion. -/
def Passes (r : Resolver) (again : Recursion) (limit : Nat) : Prop :=
  ∀ {p : Progress} {level : Nesting} {t : Ty}, r.NormalForm p.scope level t → t.weight < limit →
    again.expr t level p = some (t.fillFallbacks r.standardFallback, p)

theorem Passes.args (passes : r.Passes again limit) {ts : List Ty}
    (each : ∀ t ∈ ts, r.NormalForm p.scope level.deeper t ∧ t.weight < limit) :
    again.args ts level p = some (ts.map (Ty.fillFallbacks r.standardFallback), p) :=
  mapM_of_run fun t member => passes (each t member).1 (each t member).2

theorem Passes.fields (passes : r.Passes again limit) {fields : List (String × Ty)}
    (each : ∀ t ∈ fields.map Prod.snd, r.NormalForm p.scope level.deeper t ∧ t.weight < limit) :
    again.fields fields level p =
      some (fields.map fun field => (field.1, field.2.fillFallbacks r.standardFallback), p) := by
  refine mapM_of_run fun field member => ?_
  obtain ⟨normal, light⟩ := each field.2 (List.mem_map_of_mem member)
  exact bind_of_run (passes normal light)

theorem Passes.typeVarBinding (passes : r.Passes again limit) {binding : TypeVarBinding}
    (values : ∀ v ∈ binding.values, r.NormalForm p.scope level.deeper v ∧ v.weight < limit)
    (upperBound : r.NormalForm p.scope level binding.upperBound) (light : binding.upperBound.weight < limit) :
    typeVarBinding again binding level p = some (Ty.fillFallbacksBinding r.standardFallback binding, p) := by
  unfold Resolver.typeVarBinding
  rw [bind_of_run (passes.args values), bind_of_run (passes upperBound light)]
  cases binding
  rw [Ty.fillFallbacksBinding, Ty.fillFallbacksAll_eq]
  rfl

theorem Passes.signature (passes : r.Passes again limit) {signature : Signature}
    (normal : r.NormalForm p.scope level (.callable signature)) (light : (Ty.callable signature).weight ≤ limit) :
    r.signature again signature level level.deeper p =
      some ((Ty.callable signature).fillFallbacks r.standardFallback, p) := by
  obtain ⟨_, node, children, values, upperBounds⟩ := normal
  obtain ⟨sameBindings, noReports⟩ := innerBindings_of_normal node
  have lighter {c : Ty} (member : c ∈ (Ty.callable signature).children) : c.weight < limit :=
    Nat.lt_of_lt_of_le (Ty.weight_child_lt member) light
  have args (q : Progress) (inside : q.scope = r.innerScope p.scope signature) :
      (signature.args.mapM fun t => again.expr t level.deeper) q =
        some (signature.args.map (Ty.fillFallbacks r.standardFallback), q) := by
    refine mapM_of_run fun t member => ?_
    have isChild : t ∈ (Ty.callable signature).children := List.mem_append_left _ member
    exact passes (inside ▸ children t isChild) (lighter isChild)
  have ret (q : Progress) (inside : q.scope = r.innerScope p.scope signature) :
      again.expr signature.ret level.deeper q = some (signature.ret.fillFallbacks r.standardFallback, q) := by
    have isChild : signature.ret ∈ (Ty.callable signature).children := List.mem_append_right _ (List.mem_singleton_self _)
    exact passes (inside ▸ children _ isChild) (lighter isChild)
  have bindings (q : Progress) (inside : q.scope = r.innerScope p.scope signature) :
      (signature.bindings.mapM fun binding => Resolver.typeVarBinding again binding level) q =
        some (signature.bindings.map (Ty.fillFallbacksBinding r.standardFallback), q) := by
    refine mapM_of_run fun binding member => ?_
    refine passes.typeVarBinding (fun v inValues => ⟨inside ▸ values binding member v inValues, ?_⟩)
      (inside ▸ upperBounds binding member) ?_
    · exact Nat.lt_of_lt_of_le (Ty.weight_value_lt (t := .callable signature) member inValues) light
    · exact Nat.lt_of_lt_of_le (Ty.weight_upperBound_lt (t := .callable signature) member) light
  have parts (q : Progress) (inside : q.scope = r.innerScope p.scope signature) :
      r.signatureParts again signature signature.bindings level level.deeper q =
        some ((Ty.callable signature).fillFallbacks r.standardFallback, q) := by
    unfold signatureParts
    rw [bind_of_run (args q inside), bind_of_run (ret q inside), bind_of_run (bindings q inside),
      Ty.fillFallbacks_callable]
    rfl
  rw [signature_within]
  change (reportAll (r.innerReports p.scope signature) >>= fun _ => Resolve.within _ _) p = _
  rw [noReports, reportAll_nil_bind, sameBindings]
  exact congrArg (Option.map _) (parts { p with scope := r.innerScope p.scope signature } rfl)

/-- Types in normal form pass through a step of resolution, if the lighter ones pass through the recursion. -/
theorem Passes.expr (passes : r.Passes again limit) {t : Ty} (normal : r.NormalForm p.scope level t)
    (light : t.weight ≤ limit) : r.expr again t level p = some (t.fillFallbacks r.standardFallback, p) := by
  have wholeNormal := normal
  obtain ⟨within, node, children, -, -⟩ := normal
  have lighter {c : Ty} (member : c ∈ t.children) : c.weight < limit := Nat.lt_of_lt_of_le (Ty.weight_child_lt member) light
  unfold Resolver.expr
  rw [if_neg (by omega)]
  cases t with
  | any | noneType | never | deleted | inst | typeVar | literal => rfl
  | forward => exact node.elim
  | named | bracketed | argument | ellipsis | scalar => cases node
  | callable signature => exact passes.signature wholeNormal light
  | tuple shape =>
    obtain ⟨mayBeImplicit, fewStars⟩ := node
    have notBare : ¬ (shape.implicit && !r.flags.allowTupleLiteral) = true := by
      simpa using mayBeImplicit
    change Resolver.tupleType r again shape level p = _
    unfold tupleType
    have items : again.args shape.items level p = some (shape.items.map (Ty.fillFallbacks r.standardFallback), p) :=
      passes.args fun c member => ⟨children c member, lighter member⟩
    rw [if_neg notBare, if_neg (by omega), bind_of_run items, Ty.fillFallbacks_tuple]
    rfl
  | record shape =>
    change (again.fields shape.fields level >>= _) p = _
    rw [bind_of_run (passes.fields fun c member => ⟨children c member, lighter member⟩), Ty.fillFallbacks_record]
    rfl
  | union ms pos =>
    have members : again.args ms level p = some (ms.map (Ty.fillFallbacks r.standardFallback), p) :=
      passes.args fun c member => ⟨children c member, lighter member⟩
    change (again.args ms level >>= _) p = _
    rw [bind_of_run members, Ty.fillFallbacks_union, Ty.makeUnion_of_unionForm (Ty.unionForm_fillFallbacks node)]
    rfl
  | classObject item pos =>
    have isChild : item ∈ (Ty.classObject item pos).children := List.mem_singleton_self item
    have notUnion : (item.fillFallbacks r.standardFallback).isUnion = false := by
      rw [Ty.isUnion_fillFallbacks]
      exact node
    change (again.expr item level.deeper >>= _) p = _
    rw [bind_of_run (passes (children item isChild) (lighter isChild)), Ty.makeClassObject_of_not_union notUnion]
    rfl
  | star item pos =>
    have isChild : item ∈ (Ty.star item pos).children := List.mem_singleton_self item
    change (again.expr item level.deeper >>= _) p = _
    rw [bind_of_run (passes (children item isChild) (lighter isChild))]
    rfl

end Run

/-- Types in normal form pass through a recursion that goes as deep as they weigh. -/
theorem recursion_passes (bound : Nat) : r.Passes (r.recursion bound) bound := by
  induction bound with
  | zero => exact fun _ light => absurd light (Nat.not_lt_zero _)
  | succ bound ih => exact fun normal light => ih.expr normal (Nat.le_of_lt_succ light)

/-- There is no need of a limit other than the one of nesting. -/
theorem weight_lt_allowance (r : Resolver) (t : Ty) : t.weight < r.allowance t := by
  unfold allowance
  have square := Nat.le_mul_self (r.table.weight + t.weight + 1)
  dsimp only
  simp only [maxNesting]
  omega

end Resolver

/-- What is in normal form passes through resolution: nothing is changed but for the fallbacks of the callables that have
none, nothing is reported, no alias is used, and the result is complete. -/
theorem Resolver.resolution_normalForm {r : Resolver} {p : Progress} {t : Ty} (settled : p.status = .complete)
    (normal : r.NormalForm p.scope .top t) :
    r.resolve t p = some (⟨t.fillFallbacks r.standardFallback, .complete⟩, p) := by
  have passed := r.recursion_passes (r.allowance t) normal (r.weight_lt_allowance t)
  unfold resolve
  rw [bind_of_run passed]
  obtain ⟨scope, status, aliasesUsed, reports⟩ := p
  cases settled
  rfl

/-- An instance of `list` with an argument that is still to be looked up. -/
def listOfName (name : String) : Ty := .inst (.of ⟨"builtins.list", ["T"], false⟩ [.named (.of name [])] .unknown)

/-- `(list[name]) -> None` -/
def takingList (name : String) : Signature := .of [listOfName name] [.positional] [none] (.noneType .unknown)

/-- `((list[int]) -> None) | None` -/
def optionalCallable : Ty := .union [.callable (takingList "int"), .noneType .unknown] .unknown

namespace Resolver

theorem normalForm_of_leaf {r : Resolver} {s : Scope} {level : Nesting} {t : Ty} (within : level.level ≤ maxNesting)
    (node : r.NormalNode s t) (closed : t.exposed = []) (declaresNone : t.declared = []) : r.NormalForm s level t :=
  .of within node (by simp [closed]) (by simp [declaresNone]) (by simp [declaresNone])

/-- The parts of `(list[name]) -> None` are in normal form, whatever the name stands for. -/
theorem takingList_parts {r : Resolver} {name : String} {s : Scope} {level : Nesting} (within : level.level ≤ maxNesting) :
    ∀ c ∈ (Ty.callable (takingList name)).exposed, r.NormalForm s level c := by
  intro c member
  rcases List.mem_cons.1 member with rfl | member
  · exact normalForm_of_leaf within rfl rfl rfl
  · rw [List.mem_singleton.1 member]
    exact normalForm_of_leaf within rfl rfl rfl

theorem resolution_normalForm_callable :
    withTypeVar.NormalForm .root .top optionalCallable ∧ withTypeVar.resolve optionalCallable (.start .root) =
      some (⟨optionalCallable.fillFallbacks withTypeVar.standardFallback, .complete⟩, .start .root) := by
  have noVariables : inferTypeVariables withTypeVar.table Scope.root.functionFrame (takingList "int") = [] :=
    List.isEmpty_iff.1 (by decide +kernel)
  have form : UnionForm [.callable (takingList "int"), .noneType .unknown] :=
    ⟨Nat.le_refl 2, by simp [Ty.isUnion], by simp [takingList, Signature.of]; rfl⟩
  have normal : withTypeVar.NormalForm .root .top optionalCallable := by
    refine .of (by decide) form (fun c member => ?_) nofun nofun
    rcases List.mem_cons.1 member with rfl | member
    · exact .of (by decide) (fun _ _ => noVariables) (takingList_parts (by decide)) nofun nofun
    · rw [List.mem_singleton.1 member]
      exact normalForm_of_leaf (by decide) rfl rfl rfl
  exact ⟨normal, resolution_normalForm rfl normal⟩

/-- A callable that declares no variables is given those that are used inside the instances among its arguments, although
nothing outside of the instances is still to be resolved. -/
theorem variable_found_in_instance :
    (∀ c ∈ (Ty.callable (takingList "T")).exposed, withTypeVar.NormalForm .root Nesting.top.deeper c) ∧
    ∃ result q, withTypeVar.resolve (.callable (takingList "T")) (.start .root) = some (result, q) ∧
      (takingList "T").bindings = [] ∧ result.type.declared.map TypeVarBinding.fullname = ["m.T"] := by
  refine ⟨takingList_parts (by decide), ?_⟩
  have ends : ((withTypeVar.resolve (.callable (takingList "T")) (.start .root)).map fun ran =>
      ran.1.type.declared.map TypeVarBinding.fullname) = some ["m.T"] := by
    decide +kernel
  obtain ⟨⟨result, q⟩, ran, declares⟩ := Option.map_eq_some_iff.1 ends
  exact ⟨result, q, ran, rfl, declares⟩

end Resolver

end TypeResolution
