import TypeResolution.Proofs.Run

namespace TypeResolution

theorem forall₂_source {α β : Type} {R : α → β → Prop} {xs : List α} {ys : List β}
    (related : List.Forall₂ R xs ys) {y : β} (member : y ∈ ys) : ∃ x ∈ xs, R x y := by
  induction related with
  | nil => cases member
  | @cons x _ xs ys here _ ih =>
    rcases List.mem_cons.1 member with rfl | member
    · exact ⟨x, List.mem_cons_self, here⟩
    · obtain ⟨source, atMember, holds⟩ := ih member
      exact ⟨source, List.mem_cons_of_mem x atMember, holds⟩

/-- The table has an entry with this definition. -/
def SymbolTable.Holds (table : SymbolTable) (d : Definition) : Prop :=
  ∃ fullname s, table.find? fullname = some s ∧ s.definition = some d

theorem SymbolTable.holds_of_lookup {table : SymbolTable} {name : String} {s : Symbol} {d : Definition}
    (found : table.lookup name = some s) (defined : s.definition = some d) : table.Holds d := by
  obtain ⟨fullname, _, atName⟩ := List.exists_of_findSome?_eq_some found
  exact ⟨fullname, s, atName, defined⟩

theorem SymbolTable.findClass?_eq_some_iff {table : SymbolTable} {fullname : String} {decl : ClassDecl} :
    table.findClass? fullname = some decl ↔ (table.find? fullname).bind (·.definition) = some (.classDef decl) := by
  unfold SymbolTable.findClass?
  split
  · rename_i found
    rw [found]
    simp
  · rename_i other
    exact iff_of_false nofun (other decl)

theorem SymbolTable.holds_of_findClass? {table : SymbolTable} {fullname : String} {decl : ClassDecl}
    (found : table.findClass? fullname = some decl) : table.Holds (.classDef decl) := by
  obtain ⟨symbol, atName, defined⟩ := Option.bind_eq_some_iff.1 (findClass?_eq_some_iff.1 found)
  exact ⟨fullname, symbol, atName, defined⟩

/-- What a literal form is made of. -/
def Ty.IsLiteral : Ty → Prop
  | .literal _ | .noneType _ => True
  | _ => False

/-- The forms whose children are resolved where they stand. -/
def Ty.opensInPlace : Ty → Bool
  | .tuple _ | .record _ | .union .. | .classObject .. | .star .. => true
  | _ => false

/-- The forms that resolution leaves alone. -/
def Ty.isSettled : Ty → Bool
  | .any .. | .noneType _ | .never .. | .deleted .. | .inst _ | .typeVar .. | .literal _ => true
  | _ => false

/-- An error that says of a name that it is no type. -/
def Problem.RejectsName (problem : Problem) : Prop :=
  problem.code = some .validType ∧ problem.severity = .error

/-- A definition whose name is no type, or one only where a type variable is bound. -/
def Definition.isNoType : Definition → Bool
  | .variableDef _ | .typeVarDef _ | .moduleDef _ | .functionDef _ | .decoratorDef _ => true
  | .classDef _ | .aliasDef _ | .pendingDef _ => false

/-- The name stands for the special form whose arguments are those of a signature. -/
def Symbol.isCallableForm (s : Symbol) : Bool :=
  !s.isPending && SpecialForm.ofName? s.fullname == some .callable

/-- What was reported between two records of one run. -/
def Progress.newReports (p q : Progress) : List Diagnostic := q.reports.drop p.reports.length

namespace Parameter

def mapType (f : Ty → Ty) (p : Parameter) : Parameter := { p with type := f p.type }

/-- A list of items that are changed in their types alone is read as the same parameters with these types changed. -/
theorem ofItems_map {table table' : SymbolTable} {f : Ty → Ty} {items : List Ty}
    (each : ∀ t ∈ items, ofItem table' (f t) = (ofItem table t).map (mapType f)) (pos : Position) :
    ofItems table' (items.map f) pos =
      ((ofItems table items pos).1.map (List.map (mapType f)), (ofItems table items pos).2) := by
  have all : (items.map f).mapM (ofItem table') = (items.mapM (ofItem table)).map (List.map (mapType f)) := by
    induction items with
    | nil => rfl
    | cons item items ih =>
      obtain ⟨first, rest⟩ := List.forall_mem_cons.1 each
      rw [List.map_cons, List.mapM_cons, List.mapM_cons, ih rest, first]
      cases ofItem table item with
      | error => rfl
      | ok parameter =>
        cases items.mapM (ofItem table) with
        | error => rfl
        | ok parameters => rfl
  unfold ofItems
  rw [all]
  cases items.mapM (ofItem table) with
  | error => rfl
  | ok parameters =>
    simp only [Except.map, List.map_map, Function.comp_def, mapType, Option.map_some]

end Parameter

namespace Resolver

/-- The scope in which the arguments and the result of a signature are resolved. -/
def innerScope (r : Resolver) (s : Scope) (signature : Signature) : Scope :=
  if r.flags.definingAlias then s.functionFrame
  else (s.functionFrame.bindSignature r.table signature).scope

/-- The variables that a signature quantifies over, before their values and bounds are resolved. -/
def innerBindings (r : Resolver) (s : Scope) (signature : Signature) : List TypeVarBinding :=
  if r.flags.definingAlias then signature.bindings
  else (s.functionFrame.bindSignature r.table signature).bindings

/-- The signature that the arguments of a `Callable` stand for. -/
def formSignature? (r : Resolver) (ref : Reference) : Option Signature :=
  let finish (s : Signature) : Signature :=
    { s with fallback := r.instanceOf? "builtins.function" [] ref.pos, pos := ref.pos }
  match ref.args with
  | [] =>
    let filler := (omittedAny r.disallowsOmitted ref.pos none ref.name).1
    some (finish (.ofAnyArgs filler filler))
  | [.bracketed items pos, ret] =>
    (Parameter.ofItems r.table items pos).1.map fun parameters => finish (.ofParameters parameters ret)
  | [.ellipsis _, ret] => some (finish (.ofAnyArgs (.anyAt .explicit .unknown) ret))
  | _ => none

/-- The type of a parameter is the item that it was read from, or stands in it. -/
theorem ofItem_part {table : SymbolTable} {item : Ty} {parameter : Parameter}
    (read : Parameter.ofItem table item = .ok parameter) :
    parameter.type = item ∨ ∃ name form pos, item = .argument parameter.type name form pos := by
  unfold Parameter.ofItem at read
  split at read
  · rename_i type name form pos
    refine .inr ⟨name, form, pos, ?_⟩
    repeat' split at read
    all_goals cases read
    rfl
  · cases read
    exact .inl rfl

theorem ofItems_forall₂ {table : SymbolTable} {items : List Ty} {parameters : List Parameter}
    (read : items.mapM (Parameter.ofItem table) = .ok parameters) :
    List.Forall₂ (fun item parameter => Parameter.ofItem table item = .ok parameter) items parameters := by
  induction items generalizing parameters with
  | nil =>
    cases read
    exact .nil
  | cons item items ih =>
    rw [List.mapM_cons] at read
    cases first : Parameter.ofItem table item with
    | error => simp [first, bind, Except.bind] at read
    | ok parameter =>
      cases rest : items.mapM (Parameter.ofItem table) with
      | error => simp [first, rest, bind, Except.bind] at read
      | ok others =>
        have both : parameter :: others = parameters := by
          simpa [first, rest, bind, Except.bind, pure, Except.pure] using read
        subst both
        exact .cons first (ih rest)

/-- The parameters that a list is read as are those that its items are read as. -/
theorem ofItems_eq_some {table : SymbolTable} {items : List Ty} {pos : Position} {parameters : List Parameter}
    (read : (Parameter.ofItems table items pos).1 = some parameters) :
    items.mapM (Parameter.ofItem table) = .ok parameters := by
  unfold Parameter.ofItems at read
  split at read
  · cases read
  · rename_i made
    cases read
    exact made

/-- The signature that a reference stands for declares no variables of its own. -/
theorem formSignature?_bindings {r : Resolver} {ref : Reference} {signature : Signature}
    (isForm : r.formSignature? ref = some signature) : signature.bindings = [] := by
  unfold formSignature? at isForm
  dsimp only at isForm
  split at isForm
  · cases isForm
    rfl
  · obtain ⟨parameters, _, rfl⟩ := Option.map_eq_some_iff.1 isForm
    rfl
  · cases isForm
    rfl
  · cases isForm

/-- What holds of the arguments of `Callable`, of the parts of a list of parameters with the list, and of what stands for
arguments that are not written, holds of the parts of the signature that they stand for. -/
theorem formSignature?_children {r : Resolver} {ref : Reference} {signature : Signature} {Q : Ty → Prop}
    (isForm : r.formSignature? ref = some signature)
    (filler : ref.args = [] → Q (omittedAny r.disallowsOmitted ref.pos none ref.name).1) (explicit : Q (.anyAt .explicit .unknown))
    (bracketed : ∀ items pos, Q (.bracketed items pos) → ∀ t ∈ items, Q t)
    (argument : ∀ item name form pos, Q (.argument item name form pos) → Q item) (args : ∀ t ∈ ref.args, Q t) :
    ∀ c ∈ (Ty.callable signature).children, Q c := by
  unfold formSignature? at isForm
  dsimp only at isForm
  split at isForm
  · rename_i atArgs
    cases isForm
    intro c member
    simp only [Ty.children, Signature.ofAnyArgs, List.mem_append, List.mem_cons, List.not_mem_nil, or_false] at member
    rcases member with (rfl | rfl) | rfl <;> exact filler atArgs
  · rename_i items pos ret atArgs
    obtain ⟨parameters, read, rfl⟩ := Option.map_eq_some_iff.1 isForm
    have inItems : ∀ t ∈ items, Q t := bracketed items pos (args _ (by simp [atArgs]))
    intro c member
    rcases List.mem_append.1 member with member | member
    · obtain ⟨parameter, atParameter, rfl⟩ := List.mem_map.1 member
      obtain ⟨item, atItem, made⟩ := forall₂_source (ofItems_forall₂ (ofItems_eq_some read)) atParameter
      rcases ofItem_part made with same | ⟨name, form, at_, same⟩
      · exact same ▸ inItems item atItem
      · exact argument _ name form at_ (same ▸ inItems item atItem)
    · rw [List.mem_singleton.1 member]
      exact args ret (by simp [atArgs])
  · rename_i pos ret atArgs
    cases isForm
    intro c member
    simp only [Ty.children, Signature.ofAnyArgs, List.mem_append, List.mem_cons, List.not_mem_nil, or_false] at member
    rcases member with (rfl | rfl) | rfl
    · exact explicit
    · exact explicit
    · exact args _ (by simp [atArgs])
  · cases isForm

/-- The same of what holds of every `Any`. -/
theorem formSignature?_parts {r : Resolver} {ref : Reference} {signature : Signature} {Q : Ty → Prop}
    (isForm : r.formSignature? ref = some signature) (any : ∀ t : Ty, t.isAny → Q t)
    (bracketed : ∀ items pos, Q (.bracketed items pos) → ∀ t ∈ items, Q t)
    (argument : ∀ item name form pos, Q (.argument item name form pos) → Q item) (args : ∀ t ∈ ref.args, Q t) :
    ∀ c ∈ (Ty.callable signature).children, Q c := by
  have filler : Q (omittedAny r.disallowsOmitted ref.pos none ref.name).1 := by
    refine any _ ?_
    unfold omittedAny
    split <;> rfl
  exact formSignature?_children isForm (fun _ => filler) (any _ rfl) bracketed argument args

/-- An instance after the repair of its number of arguments. -/
def repaired (r : Resolver) (i : Instance) (fromAlias : Bool) (written : Option String) : Instance :=
  if r.flags.definingAlias then i else (fixInstance i r.disallowsOmitted fromAlias written).1

/-- A type after the repair of the instance that it may be. -/
def repairedRoot (r : Resolver) (written : String) : Ty → Ty
  | .inst i => .inst (r.repaired i true (some written))
  | t => t

/-- The reference is a use of the alias. -/
def UsesAlias (r : Resolver) (ref : Reference) (decl : AliasDecl) : Prop :=
  ∃ symbol, r.table.lookup ref.name = some symbol ∧ symbol.definition = some (.aliasDef decl)

theorem UsesAlias.holds {r : Resolver} {ref : Reference} {decl : AliasDecl} (uses : r.UsesAlias ref decl) :
    r.table.Holds (.aliasDef decl) := by
  obtain ⟨symbol, found, defined⟩ := uses
  exact SymbolTable.holds_of_lookup found defined

/-- A class that is resolved with the arguments `written` in the scope `s`, because a reference or a forward
reference, one that satisfies `In`, stands for it. -/
inductive ReadsClass (r : Resolver) (In : Scope → Ty → Prop) (s : Scope) (decl : ClassDecl) : List Ty → Prop
  | named {ref : Reference} {symbol : Symbol} : In s (.named ref) → r.table.lookup ref.name = some symbol →
      symbol.definition = some (.classDef decl) → symbol.isCallableForm = false → ReadsClass r In s decl ref.args
  | forward {fullname : String} {args : List Ty} {pos : Position} : In s (.forward (some fullname) args pos) →
      r.table.findClass? fullname = some decl → ReadsClass r In s decl args

/-- What the parts of an expression satisfy when the expression satisfies `In` in its scope. -/
structure Reads (r : Resolver) (In : Scope → Ty → Prop) : Prop where
  children {s : Scope} {t : Ty} : t.opensInPlace → In s t → ∀ c ∈ t.children, In s c
  signature {s : Scope} {signature : Signature} : In s (.callable signature) →
    ∀ c ∈ (Ty.callable signature).children, In (r.innerScope s signature) c
  form {s : Scope} {ref : Reference} {symbol : Symbol} {signature : Signature} : In s (.named ref) →
    r.table.lookup ref.name = some symbol → symbol.isCallableForm → r.formSignature? ref = some signature →
    In s (.callable signature)
  args {s : Scope} {ref : Reference} {symbol : Symbol} : In s (.named ref) →
    r.table.lookup ref.name = some symbol → symbol.isCallableForm = false → ∀ t ∈ ref.args, In s t
  forward {s : Scope} {fullname : String} {args : List Ty} {pos : Position} {decl : ClassDecl} :
    In s (.forward (some fullname) args pos) → r.table.findClass? fullname = some decl → ∀ t ∈ args, In s t

/-- The bases of classes satisfy `In`, too, where the class is read. -/
structure ReadsBases (r : Resolver) (In : Scope → Ty → Prop) : Prop extends r.Reads In where
  tupleBase {s : Scope} {decl : ClassDecl} {written : List Ty} {base : TupleShape} :
    r.table.Holds (.classDef decl) → r.ReadsClass In s decl written → decl.tupleBase = some base →
    ∀ t ∈ base.items, In s t
  recordBase {s : Scope} {decl : ClassDecl} {written : List Ty} {base : RecordShape} :
    r.table.Holds (.classDef decl) → r.ReadsClass In s decl written → decl.recordBase = some base →
    ∀ field ∈ base.fields, In s field.2

/-- A variable of a signature after its values and its bound are resolved. -/
structure BindingMade (In : Scope → Ty → Prop) (Out : Progress → Progress → Ty → Prop) (p q : Progress)
    (binding made : TypeVarBinding) : Prop where
  same : made = { binding with values := made.values, upperBound := made.upperBound }
  values : (∀ t ∈ binding.values, In p.scope t) → ∀ t ∈ made.values, Out p q t
  upperBound : In p.scope binding.upperBound → Out p q made.upperBound

/-- What makes every result satisfy `Out` whose expression satisfies `In` in its scope: what becomes of a type
that is kept, and of a type that is made of parts. `Out` tells of a type made between two records of a run. -/
structure Rule (r : Resolver) (In : Scope → Ty → Prop) (Out : Progress → Progress → Ty → Prop) : Prop where
  reads : r.Reads In
  widen {p p' q q' : Progress} {t : Ty} : p'.Precedes p → p'.scope = p.scope → q.Precedes q' → Out p q t →
    Out p' q' t
  keepSettled {p q : Progress} {t : Ty} : t.isSettled → In p.scope t → Out p q t
  keepForward {p q : Progress} {fullname : Option String} {args : List Ty} {pos : Position} :
    In p.scope (.forward fullname args pos) → (∀ name ∈ fullname, r.table.findClass? name = none) →
    r.table.finalPass = false → q.status ≠ .complete → Out p q (.forward fullname args pos)
  keepVariable {p q : Progress} {ref : Reference} {symbol : Symbol} {decl : TypeVarDecl} :
    In p.scope (.named ref) → r.table.lookup ref.name = some symbol → SpecialForm.ofName? symbol.fullname = none →
    symbol.definition = some (.typeVarDef decl) → p.scope.find? symbol.fullname = none →
    (r.flags.allowUnboundVariables || r.flags.definingAlias) → Out p q (.named ref)
  makeAny {p q : Progress} (origin : AnyOrigin) (missing : Option String) (pos : Position) :
    Out p q (.any origin missing pos)
  makeNone {p q : Progress} (pos : Position) : Out p q (.noneType pos)
  makeNever {p q : Progress} (pos : Position) : Out p q (.never true pos)
  makeLiteral {p q : Progress} (literal : Literal) : Out p q (.literal literal)
  makeVariable {p q : Progress} {fullname : String} {binding : TypeVarBinding} (pos : Position) :
    p.scope.find? fullname = some binding → Out p q (.typeVar binding pos)
  makeUnion {p q : Progress} {ts : List Ty} (pos : Position) : (∀ t ∈ ts, Out p q t) →
    Out p q (.makeUnion ts pos)
  makeOptional {p q : Progress} {t : Ty} : Out p q t → Out p q t.makeOptional
  makeClassObject {p q : Progress} {t : Ty} (pos : Position) : Out p q t → Out p q (t.makeClassObject pos)
  makeStar {p q : Progress} {t : Ty} (pos : Position) : Out p q t → Out p q (.star t pos)
  makeTuple {p q : Progress} {items : List Ty} (fallback : Instance) (implicit : Bool) (pos : Position) :
    (∀ t ∈ items, Out p q t) → Out p q (.tuple ⟨items, fallback, implicit, pos⟩)
  makeRecord {p q : Progress} {fields : List (String × Ty)} (required : KeySet) (fallback : Instance)
    (pos : Position) : (∀ field ∈ fields, Out p q field.2) → Out p q (.record ⟨fields, required, fallback, pos⟩)
  makeTupleBase {p q : Progress} {decl : ClassDecl} {written items : List Ty} {base : TupleShape} (fallback : Instance)
    (pos : Position) : r.table.Holds (.classDef decl) → r.ReadsClass In p.scope decl written →
    decl.tupleBase = some base → ((∀ t ∈ base.items, In p.scope t) → ∀ t ∈ items, Out p q t) →
    Out p q (.tuple ⟨items, fallback, base.implicit, pos⟩)
  makeRecordBase {p q : Progress} {decl : ClassDecl} {written : List Ty} {fields : List (String × Ty)}
    {base : RecordShape} (fallback : Instance) (pos : Position) : r.table.Holds (.classDef decl) →
    r.ReadsClass In p.scope decl written → decl.recordBase = some base →
    ((∀ field ∈ base.fields, In p.scope field.2) → ∀ field ∈ fields, Out p q field.2) →
    Out p q (.record ⟨fields, base.required, fallback, pos⟩)
  makeCallable {p q : Progress} {signature : Signature} {args : List Ty} {ret : Ty}
    {bindings : List TypeVarBinding} (fallback : Option Instance) : In p.scope (.callable signature) →
    List.Forall₂ (BindingMade In Out { p with scope := r.innerScope p.scope signature } q)
      (r.innerBindings p.scope signature) bindings →
    (∀ t ∈ args ++ [ret], Out { p with scope := r.innerScope p.scope signature } q t) →
    Out p q (.callable { signature with args := args, ret := ret, fallback := fallback, bindings := bindings })
  makeForward {p q : Progress} {args : List Ty} (fullname : Option String) (pos : Position) :
    r.table.finalPass = false → q.status ≠ .complete → (∀ t ∈ args, Out p q t) →
    Out p q (.forward fullname args pos)
  makeName {p q : Progress} {ref : Reference} {symbol : Symbol} {d : Definition} {args : List Ty} :
    In p.scope (.named ref) → r.table.lookup ref.name = some symbol → SpecialForm.ofName? symbol.fullname = none →
    symbol.definition = some d → d.isNoType →
    (∃ problem : Problem, problem.RejectsName ∧ ⟨ref.pos, problem⟩ ∈ p.newReports q) →
    args.length = ref.args.length → (∀ t ∈ args, Out p q t) → Out p q (.named (ref.withArgs args))
  makeTupleInstance {p q : Progress} {ref : Reference} {decl : ClassDecl} {item : Ty} :
    In p.scope (.named ref) → r.table.findClass? "builtins.tuple" = some decl → Out p q item →
    Out p q (.inst (.of decl.head [item] ref.pos))
  makeInstance {p q : Progress} {decl : ClassDecl} {written args : List Ty} (pos : Position) :
    r.table.Holds (.classDef decl) → r.ReadsClass In p.scope decl written → args.length = written.length →
    (∀ t ∈ args, Out p q t) → Out p q (.inst (r.repaired (.of decl.head args pos) false none))
  makeAlias {p q : Progress} {decl : AliasDecl} {ref : Reference} {args : List Ty} :
    r.UsesAlias ref decl → In p.scope (.named ref) → args.length = ref.args.length → (∀ t ∈ args, Out p q t) →
    Out p q (r.repairedRoot ref.name (decl.expand args ref.pos (some ref.name) r.disallowsOmitted).1)

end Resolver

end TypeResolution
