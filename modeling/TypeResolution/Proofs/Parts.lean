import TypeResolution.Proofs.Frames
import TypeResolution.Proofs.NodeRule

namespace TypeResolution

namespace Resolver

variable {r : Resolver}

/-- A reference to a type variable that the scope does not bind. -/
def IsFreeVariable (r : Resolver) (ref : Reference) (s : Scope) : Prop :=
  ∃ symbol decl, r.table.lookup ref.name = some symbol ∧ symbol.definition = some (.typeVarDef decl) ∧
    s.find? symbol.fullname = none

/-- The signature that a reference stands for, if it is one to `Callable`. -/
def signatureOf? (r : Resolver) (ref : Reference) : Option Signature :=
  if (r.table.lookup ref.name).any Symbol.isCallableForm then r.formSignature? ref else none

/-- The scope in which the parts of an expression are read. -/
def partScope (r : Resolver) (s : Scope) : Ty → Scope
  | .callable signature => r.innerScope s signature
  | .named ref =>
    match r.signatureOf? ref with
    | some signature => r.innerScope s signature
    | none => s
  | _ => s

theorem partScope_of_form {ref : Reference} {symbol : Symbol} {signature : Signature} (s : Scope)
    (found : r.table.lookup ref.name = some symbol) (isForm : symbol.isCallableForm)
    (read : r.formSignature? ref = some signature) : r.partScope s (.named ref) = r.innerScope s signature := by
  have stands : r.signatureOf? ref = some signature := by
    unfold signatureOf?
    rw [found, Option.any_some, if_pos isForm, read]
  simp only [partScope, stands]

theorem partScope_of_plain {ref : Reference} {symbol : Symbol} (s : Scope)
    (found : r.table.lookup ref.name = some symbol) (plain : symbol.isCallableForm = false) :
    r.partScope s (.named ref) = s := by
  have stands : r.signatureOf? ref = none := by
    unfold signatureOf?
    rw [found, Option.any_some, plain]
    rfl
  simp only [partScope, stands]

/-- `P` holds everywhere in what is kept as it is written: in the parts of the expressions that `Keep` tells of in the
scope where they stand. -/
inductive HoldsInKept (r : Resolver) (Keep : Scope → Ty → Prop) (P : Ty → Prop) : Scope → Ty → Prop
  | of {s : Scope} {t : Ty} : (Keep s t → ∀ c ∈ t.children, c.Everywhere P) →
      (∀ c ∈ t.children, r.HoldsInKept Keep P (r.partScope s t) c) → r.HoldsInKept Keep P s t

variable {Keep : Scope → Ty → Prop} {P : Ty → Prop} {s : Scope} {t : Ty}

theorem HoldsInKept.kept (holds : r.HoldsInKept Keep P s t) (keeps : Keep s t) : ∀ c ∈ t.children, c.Everywhere P := by
  cases holds with
  | of kept _ => exact kept keeps

theorem HoldsInKept.part (holds : r.HoldsInKept Keep P s t) :
    ∀ c ∈ t.children, r.HoldsInKept Keep P (r.partScope s t) c := by
  cases holds with
  | of _ parts => exact parts

theorem HoldsInKept.of_everywhere (all : t.Everywhere P) (s : Scope) : r.HoldsInKept Keep P s t := by
  induction t using Ty.inductionOn generalizing s with
  | step t ih => exact .of (fun _ c member => all.child member) fun c member => ih c member (all.child member) _

/-- Whatever holds of the scopes where expressions are read holds of the one where a class is. -/
theorem ReadsClass.inScope {In : Scope → Ty → Prop} {decl : ClassDecl} {written : List Ty} {C : Prop}
    (reads : r.ReadsClass In s decl written) (told : ∀ {t}, In s t → C) : C := by
  cases reads with
  | named given => exact told given
  | forward given => exact told given

/-- The expression stands for the class. -/
inductive StandsForClass (r : Resolver) : Ty → ClassDecl → Prop
  | named {ref : Reference} {symbol : Symbol} {decl : ClassDecl} : r.table.lookup ref.name = some symbol →
      symbol.definition = some (.classDef decl) → symbol.isCallableForm = false → StandsForClass r (.named ref) decl
  | forward {fullname : String} {args : List Ty} {pos : Position} {decl : ClassDecl} :
      r.table.findClass? fullname = some decl → StandsForClass r (.forward (some fullname) args pos) decl

/-- What is read when `t₀` is resolved in the scope `s₀`: its parts, each in the scope where it stands, the signature that the
arguments of `Callable` are read as, and the bases of the classes that it stands for. -/
inductive ComesToRead (r : Resolver) (s₀ : Scope) (t₀ : Ty) : Scope → Ty → Prop
  | start : ComesToRead r s₀ t₀ s₀ t₀
  | part {s : Scope} {t c : Ty} : ComesToRead r s₀ t₀ s t → t.opensInPlace → c ∈ t.children → ComesToRead r s₀ t₀ s c
  | signature {s : Scope} {signature : Signature} {c : Ty} : ComesToRead r s₀ t₀ s (.callable signature) →
      c ∈ (Ty.callable signature).children → ComesToRead r s₀ t₀ (r.innerScope s signature) c
  | form {s : Scope} {ref : Reference} {symbol : Symbol} {signature : Signature} : ComesToRead r s₀ t₀ s (.named ref) →
      r.table.lookup ref.name = some symbol → symbol.isCallableForm → r.formSignature? ref = some signature →
      ComesToRead r s₀ t₀ s (.callable signature)
  | arg {s : Scope} {ref : Reference} {symbol : Symbol} {t : Ty} : ComesToRead r s₀ t₀ s (.named ref) →
      r.table.lookup ref.name = some symbol → symbol.isCallableForm = false → t ∈ ref.args → ComesToRead r s₀ t₀ s t
  | forwardArg {s : Scope} {fullname : String} {args : List Ty} {pos : Position} {decl : ClassDecl} {t : Ty} :
      ComesToRead r s₀ t₀ s (.forward (some fullname) args pos) → r.table.findClass? fullname = some decl → t ∈ args →
      ComesToRead r s₀ t₀ s t
  | tupleBase {s : Scope} {t item : Ty} {decl : ClassDecl} {base : TupleShape} : ComesToRead r s₀ t₀ s t →
      r.StandsForClass t decl → decl.tupleBase = some base → item ∈ base.items → ComesToRead r s₀ t₀ s item
  | recordBase {s : Scope} {t : Ty} {decl : ClassDecl} {base : RecordShape} {field : String × Ty} :
      ComesToRead r s₀ t₀ s t → r.StandsForClass t decl → decl.recordBase = some base → field ∈ base.fields →
      ComesToRead r s₀ t₀ s field.2

theorem ReadsClass.source {In : Scope → Ty → Prop} {decl : ClassDecl} {written : List Ty}
    (reads : r.ReadsClass In s decl written) : ∃ t, In s t ∧ r.StandsForClass t decl := by
  cases reads with
  | named given found defined plain => exact ⟨_, given, .named found defined plain⟩
  | forward given found => exact ⟨_, given, .forward found⟩

theorem StandsForClass.holds {decl : ClassDecl} (stands : r.StandsForClass t decl) : r.table.Holds (.classDef decl) := by
  cases stands with
  | named found defined => exact SymbolTable.holds_of_lookup found defined
  | forward found => exact SymbolTable.holds_of_findClass? found

theorem StandsForClass.reads {In : Scope → Ty → Prop} {decl : ClassDecl} (stands : r.StandsForClass t decl)
    (given : In s t) : ∃ written, r.ReadsClass In s decl written := by
  cases stands with
  | named found defined plain => exact ⟨_, .named given found defined plain⟩
  | forward found => exact ⟨_, .forward given found⟩

theorem reads_comesToRead (r : Resolver) (s₀ : Scope) (t₀ : Ty) : r.ReadsBases (r.ComesToRead s₀ t₀) where
  children opens comes _ member := .part comes opens member
  signature comes _ member := .signature comes member
  form := .form
  args comes found plain _ member := .arg comes found plain member
  forward comes found _ member := .forwardArg comes found member
  tupleBase _ reads atBase _ member := by
    obtain ⟨_, comes, stands⟩ := reads.source
    exact .tupleBase comes stands atBase member
  recordBase _ reads atBase _ member := by
    obtain ⟨_, comes, stands⟩ := reads.source
    exact .recordBase comes stands atBase member

/-- What is handed on from an expression to what is read of it holds of all that is read. -/
theorem ComesToRead.told {In : Scope → Ty → Prop} {s₀ : Scope} {t₀ : Ty} (reads : r.ReadsBases In) (given : In s₀ t₀)
    (comes : r.ComesToRead s₀ t₀ s t) : In s t := by
  induction comes with
  | start => exact given
  | part _ opens member ih => exact reads.children opens ih _ member
  | signature _ member ih => exact reads.signature ih _ member
  | form _ found isForm read ih => exact reads.form ih found isForm read
  | arg _ found plain member ih => exact reads.args ih found plain _ member
  | forwardArg _ found member ih => exact reads.forward ih found _ member
  | tupleBase _ stands atBase member ih =>
    obtain ⟨_, readsClass⟩ := stands.reads ih
    exact reads.tupleBase stands.holds readsClass atBase _ member
  | recordBase _ stands atBase member ih =>
    obtain ⟨_, readsClass⟩ := stands.reads ih
    exact reads.recordBase stands.holds readsClass atBase _ member

/-- If no class has a base, then what holds everywhere in an expression holds everywhere in what is read. -/
theorem ComesToRead.everywhere {P : Ty → Prop} {s₀ : Scope} {t₀ : Ty} (comes : r.ComesToRead s₀ t₀ s t)
    (noBases : ∀ {decl}, r.table.Holds (.classDef decl) → decl.tupleBase = none ∧ decl.recordBase = none)
    (any : ∀ t : Ty, t.isAny → P t) (signatures : ∀ s : Signature, s.bindings = [] → P (.callable s))
    (given : t₀.Everywhere P) : t.Everywhere P := by
  refine comes.told (.everywhere any signatures ?_ ?_) given
  · intro _ _ _ _ holds _ atBase
    rw [(noBases holds).1] at atBase
    cases atBase
  · intro _ _ _ _ holds _ atBase
    rw [(noBases holds).2] at atBase
    cases atBase

/-- `P` holds of an expression and, again and again, of its parts, of each in the scope where it is read. -/
inductive WhereRead (r : Resolver) (P : Scope → Ty → Prop) : Scope → Ty → Prop
  | of {s : Scope} {t : Ty} : P s t → (∀ c ∈ t.children, r.WhereRead P (r.partScope s t) c) → r.WhereRead P s t

theorem WhereRead.root {P : Scope → Ty → Prop} (holds : r.WhereRead P s t) : P s t := by
  cases holds with
  | of here _ => exact here

theorem WhereRead.part {P : Scope → Ty → Prop} (holds : r.WhereRead P s t) :
    ∀ c ∈ t.children, r.WhereRead P (r.partScope s t) c := by
  cases holds with
  | of _ parts => exact parts

theorem WhereRead.of_leaf {P : Scope → Ty → Prop} (noParts : t.children = []) (here : P s t) : r.WhereRead P s t :=
  .of here (by simp [noParts])

/-- What holds everywhere in an expression, in whatever scope, holds where it is read. -/
theorem WhereRead.of_everywhere {P : Scope → Ty → Prop} (all : t.Everywhere fun x => ∀ s, P s x) (s : Scope) :
    r.WhereRead P s t := by
  induction t using Ty.inductionOn generalizing s with
  | step t ih => exact .of (all.root s) fun c member => ih c member (all.child member) _

theorem holdsInKept_iff : r.HoldsInKept Keep P s t ↔
    r.WhereRead (fun s t => Keep s t → ∀ c ∈ t.children, c.Everywhere P) s t := by
  induction t using Ty.inductionOn generalizing s with
  | step t ih =>
    constructor
    · exact fun holds => .of holds.kept fun c member => (ih c member).1 (holds.part c member)
    · exact fun holds => .of holds.root fun c member => (ih c member).2 (holds.part c member)

/-- What is read inside of the scope `s₀` is as it should be, if the bases of classes are wherever they are read. -/
theorem reads_whereRead {s₀ : Scope} {P : Scope → Ty → Prop} (callable : ∀ s signature, P s (.callable signature))
    (any : ∀ s t, Ty.isAny t → P s t)
    (tupleBase : ∀ {s decl base}, s.BindsAllOf s₀ → r.table.Holds (.classDef decl) → decl.tupleBase = some base →
      ∀ t ∈ base.items, r.WhereRead P s t)
    (recordBase : ∀ {s decl base}, s.BindsAllOf s₀ → r.table.Holds (.classDef decl) → decl.recordBase = some base →
      ∀ field ∈ base.fields, r.WhereRead P s field.2) :
    r.ReadsBases fun s t => s.BindsAllOf s₀ ∧ r.WhereRead P s t where
  children {s t} opens given c member := by
    have part := given.2.part c member
    refine ⟨given.1, ?_⟩
    cases t <;> first | exact part | cases opens
  signature {s signature} given c member :=
    ⟨given.1.trans (r.innerScope_bindsAllOf s signature), given.2.part c member⟩
  form {s ref symbol signature} given found isForm read := by
    have parts := given.2.part
    rw [partScope_of_form s found isForm read] at parts
    refine ⟨given.1, .of (callable s signature) ?_⟩
    exact formSignature?_parts (Q := r.WhereRead P (r.innerScope s signature)) read
      (fun t isAny => .of_leaf (Ty.children_of_isAny isAny) (any _ t isAny))
      (fun _ _ atList => atList.part) (fun _ _ _ _ atArgument => atArgument.part _ (List.mem_singleton_self _)) parts
  args {s ref symbol} given found plain c member := by
    have part := given.2.part c member
    rw [partScope_of_plain s found plain] at part
    exact ⟨given.1, part⟩
  forward given _ t member := ⟨given.1, given.2.part t member⟩
  tupleBase {s decl written base} holds reads atBase t member := by
    have inside : s.BindsAllOf s₀ := reads.inScope And.left
    exact ⟨inside, tupleBase inside holds atBase t member⟩
  recordBase {s decl written base} holds reads atBase field member := by
    have inside : s.BindsAllOf s₀ := reads.inScope And.left
    exact ⟨inside, recordBase inside holds atBase field member⟩

/-- What is read inside of the scope `s₀` holds what it should in what is kept, if the bases of classes do wherever they
are read. -/
theorem reads_holdsInKept {s₀ : Scope} (callable : ∀ s signature, ¬ Keep s (.callable signature))
    (tupleBase : ∀ {s decl base}, s.BindsAllOf s₀ → r.table.Holds (.classDef decl) → decl.tupleBase = some base →
      ∀ t ∈ base.items, r.HoldsInKept Keep P s t)
    (recordBase : ∀ {s decl base}, s.BindsAllOf s₀ → r.table.Holds (.classDef decl) → decl.recordBase = some base →
      ∀ field ∈ base.fields, r.HoldsInKept Keep P s field.2) :
    r.ReadsBases fun s t => s.BindsAllOf s₀ ∧ r.HoldsInKept Keep P s t := by
  simp only [holdsInKept_iff] at tupleBase recordBase ⊢
  refine reads_whereRead (fun s signature keeps => absurd keeps (callable s signature)) (fun s t isAny _ => ?_) tupleBase
    recordBase
  simp [Ty.children_of_isAny isAny]

end Resolver

end TypeResolution
