import TypeResolution.Proofs.LiteralForms
import TypeResolution.Proofs.Parts
import TypeResolution.Proofs.Reports
import TypeResolution.Proofs.SideReports

namespace TypeResolution

open Resolve

/-- The report that a type variable is unbound. -/
def Problem.isUnboundVariable : Problem → Bool
  | .unboundVariable _ => true
  | _ => false

/-- Anything but that a type variable is unbound. -/
def Problem.NotUnbound (problem : Problem) : Prop := problem.isUnboundVariable = false

theorem Problem.notUnbound {problem : Problem} (other : problem.isUnboundVariable = false) : problem.NotUnbound := other

theorem Problem.NotUnbound.ne {problem : Problem} (other : problem.NotUnbound) (name : String) :
    problem ≠ .unboundVariable name := by
  rintro rfl
  cases other

/-- The types whose parts may stand in another scope. -/
def Ty.mayBind : Ty → Bool
  | .named _ | .callable _ => true
  | _ => false

/-- A type is no reference to a type variable of the table. -/
def SymbolTable.NoVariable (table : SymbolTable) (t : Ty) : Prop :=
  ∀ ref, t = .named ref → table.lookupTypeVar? ref.name = none

theorem SymbolTable.lookupTypeVar?_eq_some_iff {table : SymbolTable} {name : String} {decl : TypeVarDecl} :
    table.lookupTypeVar? name = some decl ↔
      ∃ symbol, table.lookup name = some symbol ∧ symbol.definition = some (.typeVarDef decl) := by
  unfold lookupTypeVar?
  constructor
  · intro found
    split at found
    · rename_i decl' defined
      cases found
      exact Option.bind_eq_some_iff.1 defined
    · cases found
  · rintro ⟨symbol, found, defined⟩
    simp [found, defined]

theorem Problem.OnTheSide.notUnbound {problem : Problem} (side : problem.OnTheSide) : problem.NotUnbound := by
  cases problem <;> first | rfl | cases side

theorem Resolve.ReportsOnly.onTheSide {s : Scope} {reports : List Diagnostic}
    (side : ∀ report ∈ reports, report.problem.OnTheSide) : ReportsOnly Problem.NotUnbound (Resolve.reportAll reports) s :=
  .reportAll fun report member => (side report member).notUnbound

namespace Resolver

variable {r : Resolver}

/-- A reference to a type variable that the scope binds. -/
def IsBoundVariable (r : Resolver) (ref : Reference) (s : Scope) : Prop :=
  ∃ symbol decl, r.table.lookup ref.name = some symbol ∧ symbol.definition = some (.typeVarDef decl) ∧
    (s.find? symbol.fullname).isSome

theorem not_isBoundVariable {s : Scope} {ref : Reference} {symbol : Symbol} {d : Definition}
    (found : r.table.lookup ref.name = some symbol)
    (defined : symbol.definition = some d) (unbound : bindsTypeVar d s symbol.fullname = false) :
    ¬ r.IsBoundVariable ref s := by
  rintro ⟨symbol', decl, found', defined', bound⟩
  rw [found] at found'
  cases found'
  rw [defined] at defined'
  cases defined'
  rw [bindsTypeVar, bound] at unbound
  cases unbound

/-- Every type variable that resolving a type in the scope comes to is bound where it stands. What is read as a literal,
and the values and bounds of variables, hold no type variable at all. -/
inductive MeetsBound (r : Resolver) : Scope → Ty → Prop
  | bound {s : Scope} {ref : Reference} : r.IsBoundVariable ref s → MeetsBound r s (.named ref)
  | form {s : Scope} {ref : Reference} {symbol : Symbol} : r.table.NoVariable (.named ref) →
    r.table.lookup ref.name = some symbol → symbol.isCallableForm →
    (∀ signature, r.formSignature? ref = some signature →
      ∀ c ∈ ref.args, MeetsBound r (r.innerScope s signature) c) → MeetsBound r s (.named ref)
  | pending {s : Scope} {ref : Reference} {symbol : Symbol} {decl : PendingDecl} :
    r.table.lookup ref.name = some symbol → symbol.definition = some (.pendingDef decl) →
    r.table.finalPass ∨ decl.becomesClass = false → MeetsBound r s (.named ref)
  | name {s : Scope} {ref : Reference} : r.table.NoVariable (.named ref) →
    (r.table.lookup ref.name).any Symbol.isCallableForm = false →
    (r.isLiteralForm ref → ∀ c ∈ ref.args, c.Throughout r.table.NoVariable) →
    (∀ c ∈ ref.args, MeetsBound r s c) → MeetsBound r s (.named ref)
  | signature {s : Scope} {signature : Signature} : DeclaresThroughout r.table.NoVariable (.callable signature) →
    (∀ c ∈ (Ty.callable signature).children, MeetsBound r (r.innerScope s signature) c) →
    MeetsBound r s (.callable signature)
  | other {s : Scope} {t : Ty} : t.mayBind = false → (∀ c ∈ t.children, MeetsBound r s c) → MeetsBound r s t

namespace MeetsBound

variable {s : Scope} {ref : Reference} {symbol : Symbol}

theorem parts {t : Ty} (meets : r.MeetsBound s t) (inPlace : t.mayBind = false) : ∀ c ∈ t.children, r.MeetsBound s c := by
  cases meets with
  | other _ parts => exact parts
  | _ => cases inPlace

theorem typeVar (meets : r.MeetsBound s (.named ref)) (found : r.table.lookup ref.name = some symbol) {decl : TypeVarDecl}
    (defined : symbol.definition = some (.typeVarDef decl)) : (s.find? symbol.fullname).isSome := by
  have named : r.table.lookupTypeVar? ref.name = some decl := SymbolTable.lookupTypeVar?_eq_some_iff.2 ⟨symbol, found, defined⟩
  cases meets with
  | bound isBound =>
    obtain ⟨symbol', _, found', _, bound⟩ := isBound
    rw [found] at found'
    cases found'
    exact bound
  | pending found' defined' =>
    rw [found] at found'
    cases found'
    rw [defined] at defined'
    cases defined'
  | form none | name none =>
    have absent := none ref rfl
    rw [named] at absent
    cases absent
  | other inPlace => cases inPlace

theorem formSignature (meets : r.MeetsBound s (.named ref)) (notVariable : ¬ r.IsBoundVariable ref s)
    (found : r.table.lookup ref.name = some symbol) (isForm : symbol.isCallableForm) {signature : Signature}
    (read : r.formSignature? ref = some signature) : r.MeetsBound s (.callable signature) := by
  have undeclared : (Ty.callable signature).declared = [] := formSignature?_bindings read
  cases meets with
  | bound isBound => exact absurd isBound notVariable
  | form _ _ _ inArgs =>
    refine .signature (declaresThroughout_of_undeclared undeclared) ?_
    refine formSignature?_parts (Q := r.MeetsBound (r.innerScope s signature)) read (fun t isAny => ?_)
      (fun _ _ atList => atList.parts rfl)
      (fun _ _ _ _ atArgument => atArgument.parts rfl _ (List.mem_singleton_self _)) (inArgs signature read)
    cases t with
    | any => exact .other rfl (List.forall_mem_nil _)
    | _ => cases isAny
  | pending found' defined' =>
    rw [found] at found'
    cases found'
    simp [Symbol.isCallableForm, Symbol.isPending, defined'] at isForm
  | name _ notForm =>
    rw [found, Option.any_some, isForm] at notForm
    cases notForm
  | other inPlace => cases inPlace

theorem args (meets : r.MeetsBound s (.named ref)) (notVariable : ¬ r.IsBoundVariable ref s)
    (found : r.table.lookup ref.name = some symbol) (plain : symbol.isCallableForm = false)
    (read : ∀ decl, symbol.definition = some (.pendingDef decl) → r.table.finalPass = false ∧ decl.becomesClass = true) :
    (r.isLiteralForm ref → ∀ c ∈ ref.args, c.Throughout r.table.NoVariable) ∧ ∀ c ∈ ref.args, r.MeetsBound s c := by
  cases meets with
  | bound isBound => exact absurd isBound notVariable
  | form _ found' isForm =>
    rw [found] at found'
    cases found'
    rw [plain] at isForm
    cases isForm
  | @pending _ _ _ decl found' defined unread =>
    rw [found] at found'
    cases found'
    obtain ⟨notFinal, becomes⟩ := read decl defined
    simp [notFinal, becomes] at unread
  | name _ _ literal inArgs => exact ⟨literal, inArgs⟩
  | other inPlace => cases inPlace

/-- Nothing is met free where there is no type variable at all. -/
theorem of_none {t : Ty} (none : t.Throughout r.table.NoVariable) (s : Scope) : r.MeetsBound s t := by
  induction t using Ty.inductionOn generalizing s with
  | step t ih =>
    have parts (s : Scope) : ∀ c ∈ t.children, r.MeetsBound s c := fun c member => ih c member (none.child member) s
    cases t with
    | named ref =>
      by_cases isForm : (r.table.lookup ref.name).any Symbol.isCallableForm = true
      · obtain ⟨symbol, found, isForm⟩ := (Option.any_eq_true _ _).1 isForm
        exact .form none.root found isForm fun signature _ => parts _
      · exact .name none.root (Bool.eq_false_iff.2 isForm) (fun _ c member => none.child member) (parts s)
    | callable signature => exact .signature (declaresThroughout_of_throughout none) (parts _)
    | _ => exact .other rfl (parts s)

end MeetsBound

end Resolver

end TypeResolution
