import TypeResolution.Resolver.Allowance
import TypeResolution.Resolver.Expression

namespace TypeResolution

/-- A resolved type and how far it can be relied on. -/
structure Resolution where
  type : Ty
  status : PassStatus

namespace Resolver

/-- Ends the making of a result: it takes the status that was raised on the way. -/
def settle (t : Ty) : Resolve Resolution := do
  let p ← get
  set { p with status := .complete }
  pure ⟨t, p.status⟩

/-- Resolves an expression as a declaration of its own. -/
def resolve (r : Resolver) (t : Ty) : Resolve Resolution := do
  let resolved ← (r.recursion (r.allowance t)).expr t .top
  settle resolved

/-- Resolves a signature in a frame of its own. Its arguments and its result stand at the top. -/
def resolveSignature (r : Resolver) (s : Signature) : Resolve Resolution := do
  let resolved ← r.signature (r.recursion (r.allowance (.callable s))) s .top .top
  settle resolved

/-- Resolves an expression as an argument of a name at the top, on behalf of a hook. -/
def resolveArgument (r : Resolver) (t : Ty) : Resolve Ty :=
  (r.recursion (r.allowance t)).arg t .top

/-- Reads a list of parameters on behalf of a hook. -/
def readParameters (r : Resolver) (items : List Ty) (pos : Position) : Resolve (Option (List Parameter)) := do
  let (parameters, reports) := Parameter.ofItems r.table items pos
  Resolve.reportAll reports
  pure parameters

/-- Runs `body` with the variables of a signature bound in a frame of their own. -/
def inSignature {α : Type} (r : Resolver) (s : Signature) (body : List TypeVarBinding → Resolve α) :
    Resolve α :=
  Resolve.inFrame do
    let bindings ← r.bindVariables s
    body bindings

/-- The resolver that defines aliases instead of using types. -/
def forAliases (r : Resolver) : Resolver := { r with flags := { r.flags with definingAlias := true } }

/-- Resolves the target of an alias, starting in `scope`. The formals stay in it by name, and the aliases
that it depends on are those that are used in the end. -/
def resolveAlias (r : Resolver) (scope : Scope) (t : Ty) : Option (Resolution × Progress) :=
  (r.forAliases.resolve t).run (.start scope)

end Resolver

end TypeResolution
