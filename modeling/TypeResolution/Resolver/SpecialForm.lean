import TypeResolution.Resolver.Callable
import TypeResolution.Resolver.Literal
import TypeResolution.Ty.Query

namespace TypeResolution

/-- A name that is no class and no alias, but has a meaning of its own as a type. -/
inductive SpecialForm where
  | noneType
  | any
  | final
  | tuple
  | union
  | optional
  | callable
  | classObject
  | classVar
  | noReturn
  | literal
  | annotated
deriving DecidableEq

namespace SpecialForm

def names : List (String × SpecialForm) :=
  [("builtins.None", noneType),
    ("typing.Any", any),
    ("builtins.Any", any),
    ("typing.Final", final),
    ("typing_extensions.Final", final),
    ("typing.Tuple", tuple),
    ("typing.Union", union),
    ("typing.Optional", optional),
    ("typing.Callable", callable),
    ("typing.Type", classObject),
    ("typing.ClassVar", classVar),
    ("typing.NoReturn", noReturn),
    ("mypy_extensions.NoReturn", noReturn),
    ("typing_extensions.Annotated", annotated)] ++
  literalNames.map (·, literal)

/-- The special form with this full name. -/
def ofName? (fullname : String) : Option SpecialForm :=
  (names.find? (·.1 == fullname)).map Prod.snd

end SpecialForm

namespace Resolver

/-- Resolves `Tuple`, `Tuple[()]`, `Tuple[T, ...]` and `Tuple[A, B]`. -/
def tupleForm (r : Resolver) (again : Recursion) (ref : Reference) (level : Nesting) : Resolve Ty := do
  match r.table.findClass? "builtins.tuple" with
  | none =>
    if r.table.isIncomplete "builtins" then Resolve.raise .incomplete
    else Resolve.report ref.pos (.undefinedName "tuple")
    pure (.anyAt .specialForm ref.pos)
  | some decl =>
    match ref.args, ref.emptyTuple with
    | [], false =>
      let filler ← r.omittedArguments ref
      pure (.inst (.of decl.head [filler] ref.pos))
    | [item, .ellipsis _], _ =>
      let item ← again.arg item level
      pure (.inst (.of decl.head [item] ref.pos))
    | items, _ =>
      let items ← again.args items level
      pure (.tuple ⟨items, .of decl.head [.anyAt .specialForm .unknown] ref.pos, false, ref.pos⟩)

/-- Resolves `Type` and `Type[C]`. All arguments but the first are only reported. -/
def classObjectForm (r : Resolver) (again : Recursion) (ref : Reference) (level : Nesting) : Resolve Ty := do
  match ref.args with
  | [] =>
    let filler ← r.omittedArguments ref
    pure (.classObject filler ref.pos)
  | item :: others =>
    if !others.isEmpty then Resolve.report ref.pos .classObjectArity
    let item ← again.arg item level
    pure (.makeClassObject item ref.pos)

/-- Resolves `ClassVar` and `ClassVar[T]`, which stand only at the top and hold no type variables. -/
def classVarForm (again : Recursion) (ref : Reference) (level : Nesting) : Resolve Ty := do
  if !level.isTop then Resolve.report ref.pos .nestedClassVar
  match ref.args with
  | [] => pure (.anyAt .omittedArguments ref.pos)
  | [item] =>
    let item ← again.arg item level
    if item.typeVars.isEmpty then pure item else Resolve.failAt ref.pos .genericClassVar
  | _ => Resolve.failAt ref.pos .classVarArity

/-- Resolves a special form with the arguments of `ref`. -/
def specialForm (r : Resolver) (again : Recursion) (form : SpecialForm) (ref : Reference) (level : Nesting) :
    Resolve Ty := do
  match form with
  | .noneType => pure (.noneType ref.pos)
  | .any => pure (.anyAt .explicit ref.pos)
  | .final => Resolve.failAt ref.pos .innerFinal
  | .tuple => r.tupleForm again ref level
  | .union =>
    let items ← again.args ref.args level
    pure (.makeUnion items ref.pos)
  | .optional =>
    match ref.args with
    | [item] =>
      let item ← again.arg item level
      pure item.makeOptional
    | _ => Resolve.failAt ref.pos .optionalArity
  | .callable => r.callableForm again ref level
  | .classObject => r.classObjectForm again ref level
  | .classVar => classVarForm again ref level
  | .noReturn => pure (.never true ref.pos)
  | .literal => r.literalForm again ref level
  | .annotated =>
    match ref.args with
    | item :: _ :: _ => again.arg item level
    | _ => Resolve.failAt ref.pos .annotatedArity

end Resolver

end TypeResolution
