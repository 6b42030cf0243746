import TypeResolution.Arity
import TypeResolution.Distinct
import TypeResolution.Flags
import TypeResolution.Hook
import TypeResolution.Options
import TypeResolution.PassStatus
import TypeResolution.Scope

namespace TypeResolution

/-- How deep among the arguments of other types an expression stands. -/
structure Nesting where
  level : Nat
deriving DecidableEq

namespace Nesting

/-- The level of a declaration as a whole. -/
def top : Nesting := ⟨0⟩

def deeper (n : Nesting) : Nesting := ⟨n.level + 1⟩

def isTop (n : Nesting) : Bool := n.level == 0

end Nesting

/-- The deepest level at which expressions are resolved. -/
def maxNesting : Nat := 100

/-- All that a resolver reads. -/
structure Resolver where
  table : SymbolTable
  hooks : HookRegistry
  options : Options
  flags : Flags

/-- All that a resolver writes. -/
structure Progress where
  /-- The innermost frame of type variables. -/
  scope : Scope
  /-- The status of the result that is being made. -/
  status : PassStatus
  /-- The aliases expanded so far and those they depend on, in the order of their first uses. -/
  aliasesUsed : List String
  /-- The diagnostics so far, oldest first. -/
  reports : List Diagnostic

def Progress.start (scope : Scope) : Progress := ⟨scope, .complete, [], []⟩

/-- A step of resolution. It has no result only if the recursion is not over within its bound. -/
abbrev Resolve := StateT Progress Option

namespace Resolve

def reportAll (reports : List Diagnostic) : Resolve Unit :=
  modify fun p => { p with reports := p.reports ++ reports }

def report (pos : Position) (problem : Problem) : Resolve Unit := reportAll [⟨pos, problem⟩]

/-- The type that stands for an expression with a fault, which is reported. -/
def failAt (pos : Position) (problem : Problem) : Resolve Ty := do
  report pos problem
  pure (.anyAt .error pos)

/-- The result, once it is made, is at best of this status. -/
def raise (status : PassStatus) : Resolve Unit :=
  modify fun p => { p with status := p.status.merge status }

def useAliases (names : List String) : Resolve Unit :=
  modify fun p => { p with aliasesUsed := names.foldl addDistinct p.aliasesUsed }

def scope : Resolve Scope := do
  let p ← get
  pure p.scope

def setScope (s : Scope) : Resolve Unit := modify fun p => { p with scope := s }

/-- Runs `body` in a new frame of a function, which is closed afterwards. -/
def inFrame {α : Type} (body : Resolve α) : Resolve α := do
  let outer ← scope
  setScope outer.functionFrame
  let result ← body
  setScope outer
  pure result

end Resolve

/-- The recursive calls of a step of resolution. -/
structure Recursion where
  /-- Resolves an expression at a level. -/
  expr : Ty → Nesting → Resolve Ty
  /-- Resolves a reference that is written as the parameter of a literal. -/
  literalName : Reference → Nesting → Resolve Ty
  /-- The literals that a parameter stands for; the number is that of the parameter. -/
  literals : Nat → Ty → Position → Nesting → Resolve (Option (List Ty))

namespace Recursion

/-- The recursion that is not allowed to go on. -/
def exhausted : Recursion := ⟨fun _ _ _ => none, fun _ _ _ => none, fun _ _ _ _ _ => none⟩

/-- Resolves an argument of a type at `level`. -/
def arg (again : Recursion) (t : Ty) (level : Nesting) : Resolve Ty := again.expr t level.deeper

def args (again : Recursion) (ts : List Ty) (level : Nesting) : Resolve (List Ty) :=
  ts.mapM fun t => again.arg t level

def fields (again : Recursion) (fields : List (String × Ty)) (level : Nesting) :
    Resolve (List (String × Ty)) :=
  fields.mapM fun (key, t) => do
    let t ← again.arg t level
    pure (key, t)

end Recursion

namespace Resolver

/-- Whether omitted type arguments are an error here. -/
def disallowsOmitted (r : Resolver) : Bool := r.options.disallowAnyGenerics && !r.flags.inStub

/-- The type that stands for the omitted arguments of a special form. -/
def omittedArguments (r : Resolver) (ref : Reference) : Resolve Ty := do
  let (filler, reports) := omittedAny r.disallowsOmitted ref.pos none ref.name
  Resolve.reportAll reports
  pure filler

/-- An instance of a class of the table. If no arguments are given, each of them is `Any`. -/
def instanceOf? (r : Resolver) (fullname : String) (args : List Ty) (pos : Position) : Option Instance :=
  (r.table.findClass? fullname).map fun decl =>
    let args :=
      if args.isEmpty then List.replicate decl.head.arity (.anyAt .specialForm .unknown) else args
    .of decl.head args pos

/-- An instance of a class that has to be there, unless its module is still being analysed. -/
def requiredInstance (r : Resolver) (fullname : String) (pos : Position) : Resolve (Option Instance) := do
  match r.instanceOf? fullname [] pos with
  | some i => pure (some i)
  | none =>
    if r.table.isIncomplete ((enclosingModule? fullname).getD "builtins") then Resolve.raise .incomplete
    else Resolve.report pos (.undefinedName (shortName fullname))
    pure none

/-- Repairs the number of arguments of an instance, unless an alias is being defined. -/
def fixArity (r : Resolver) (i : Instance) (fromAlias : Bool) (written : Option String) : Resolve Instance := do
  if r.flags.definingAlias then pure i
  else
    let (fixed, reports) := fixInstance i r.disallowsOmitted fromAlias written
    Resolve.reportAll reports
    pure fixed

end Resolver

end TypeResolution
