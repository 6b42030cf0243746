import TypeResolution.Arity
import TypeResolution.Symbol
import TypeResolution.Ty.Display
import TypeResolution.Ty.Traversal

namespace TypeResolution

/-- The class whose instance with arguments `T` and `X` stands for `X`. -/
def flexibleAlias : String := "mypy_extensions.FlexibleAlias"

/-- The name of a type that is nothing but a name. -/
def Ty.formalName? : Ty → Option String
  | .named r => some r.name
  | .typeVar binding _ => some binding.name
  | _ => none

/-- What a formal stands for: the value at the first place where the name is among the formals. -/
def substitute? (formals : List String) (values : List Ty) (t : Ty) : Option Ty :=
  t.formalName?.bind fun name => (formals.idxOf? name).bind (values[·]?)

/-- Substitutes the formals in a type that stands at the given depth. The types around them move to
`pos`. The flag tells whether something was cut off. -/
def substituteAt (formals : List String) (values : List Ty) (pos : Position) : Ty → Nat → Ty × Bool :=
  Ty.fold fun t parts depth =>
    match substitute? formals values t with
    | some value => (value, false)
    | none =>
      if t.children.isEmpty then (t, false)
      else if maxSubstitutionDepth ≤ depth then (.anyAt .error pos, true)
      else
        let results := parts.map fun part => part (depth + 1)
        ((t.rebuild (results.map Prod.fst)).withPos pos, results.any Prod.snd)

/-- Replaces every formal in `t` by its value. What is nested too deep is cut off, which is reported
once, so that no formal is left. -/
def substitute (t : Ty) (formals : List String) (values : List Ty) (pos : Position) : Ty × List Diagnostic :=
  let (t, cut) := substituteAt formals values pos t 0
  (t, if cut then [⟨pos, .cutOff⟩] else [])

/-- Replaces every formal in `t` by `Any`: because of an error, or because arguments were omitted, which
is reported where it is not allowed. -/
def substituteAny (t : Ty) (formals : List String) (pos : Position) (fromError disallowAny : Bool)
    (written : Option String) : Ty × List Diagnostic :=
  let description := match written, t with
    | some name, _ => name
    | none, .named r => r.name
    | none, t => t.display
  let (filler, omitted) :=
    if disallowAny then omittedAny true pos none description
    else (.anyAt (if fromError then .error else .omittedArguments) pos, [])
  let (t, cut) := substitute t formals (List.replicate formals.length filler) pos
  (t, omitted ++ cut)

namespace AliasDecl

/-- The class of the target, if the target is an instance. -/
def targetClass? (a : AliasDecl) : Option ClassHead :=
  match a.target with
  | .inst i => some i.head
  | _ => none

/-- The second argument of a flexible alias; any other type stays as it is. -/
def openFlexible : Ty → Ty
  | .inst i =>
    if i.head.fullname == flexibleAlias then i.args.getLast?.getD (.anyAt .specialForm .unknown) else .inst i
  | t => t

/-- The meaning of an alias with resolved arguments, used at `pos` under the name `written`. Without
arguments the formals become `Any`; a bare alias hands its arguments to the class; otherwise there must
be an argument for each formal. -/
def expand (a : AliasDecl) (args : List Ty) (pos : Position) (written : Option String) (disallowAny : Bool) :
    Ty × List Diagnostic :=
  match a.formals, args with
  | _ :: _, [] => substituteAny a.target a.formals pos false disallowAny written
  | [], [] =>
    match a.isBare, a.targetClass? with
    | true, some head => (.inst (.of head [] pos), [])
    | _, _ => (a.target, [])
  | formals, args =>
    match formals, a.isBare, a.targetClass? with
    | [], true, some head => (.inst (.of head args pos), [])
    | _, _, _ =>
      if args.length = formals.length then
        let (t, cut) := substitute a.target formals args pos
        (openFlexible t, cut)
      else
        let (t, cut) := substituteAny a.target formals pos true false none
        (t, ⟨pos, .aliasArgumentCount formals.length args.length⟩ :: cut)

end AliasDecl

end TypeResolution
