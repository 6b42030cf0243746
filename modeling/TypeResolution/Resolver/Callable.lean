import TypeResolution.Resolver.Binding

namespace TypeResolution

namespace Resolver

/-- Resolves the values of a type variable and, at the level of its callable, its bound. -/
def typeVarBinding (again : Recursion) (binding : TypeVarBinding) (level : Nesting) :
    Resolve TypeVarBinding := do
  let values ← again.args binding.values level
  let upperBound ← again.expr binding.upperBound level
  pure { binding with values := values, upperBound := upperBound }

/-- Resolves a signature in a frame of its own, with arguments and result at the level `inner`. -/
def signature (r : Resolver) (again : Recursion) (s : Signature) (level inner : Nesting) : Resolve Ty :=
  Resolve.inFrame do
    let bindings ← if r.flags.definingAlias then pure s.bindings else r.bindVariables s
    let args ← s.args.mapM fun t => again.expr t inner
    let ret ← again.expr s.ret inner
    let fallback := s.fallback <|> r.instanceOf? "builtins.function" [] .unknown
    let bindings ← bindings.mapM fun binding => typeVarBinding again binding level
    pure (.callable { s with args := args, ret := ret, fallback := fallback, bindings := bindings })

/-- Resolves `Callable`, `Callable[..., R]` and `Callable[[A, B], R]`. -/
def callableForm (r : Resolver) (again : Recursion) (ref : Reference) (level : Nesting) : Resolve Ty := do
  let finish (s : Signature) : Resolve Ty :=
    let fallback := r.instanceOf? "builtins.function" [] ref.pos
    r.signature again { s with fallback := fallback, pos := ref.pos } level level.deeper
  match ref.args with
  | [] =>
    let filler ← r.omittedArguments ref
    finish (.ofAnyArgs filler filler)
  | [.bracketed items pos, ret] =>
    let (parameters, reports) := Parameter.ofItems r.table items pos
    Resolve.reportAll reports
    match parameters with
    | some parameters => finish (.ofParameters parameters ret)
    | none => pure (.anyAt .error ref.pos)
  | [.ellipsis _, ret] => finish (.ofAnyArgs (.anyAt .explicit .unknown) ret)
  | [_, _] => Resolve.failAt ref.pos .callableParameters
  | _ => Resolve.failAt ref.pos .callableUsage

end Resolver

end TypeResolution
