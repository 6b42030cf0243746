import TypeResolution.Text.Template

namespace TypeResolution

inductive Severity where
  | error
  | note
deriving DecidableEq

/-- The machine-readable class of an error. -/
inductive ErrorCode where
  | validType
  | typeArgument
  | malformed
  | misc
deriving DecidableEq

namespace ErrorCode

def name : ErrorCode → String
  | validType => "valid-type"
  | typeArgument => "type-arg"
  | malformed => "syntax"
  | misc => "misc"

def description : ErrorCode → String
  | validType => "Check that type is valid"
  | typeArgument => "Check that generic type arguments are present"
  | malformed => "Report syntax errors"
  | misc => "Miscellaneous other checks"

end ErrorCode

/-- What can be wrong with a type expression, and the hints that go with it. -/
inductive Problem where
  -- Names
  | unresolvedCycle (name : String)
  | missingDefinition (kind : String)
  | undefinedName (name : String)
  | notSubscriptable (name : String)
  | notSubscriptableUse (name alternative : String)
  | boundVariableInAlias (name : String)
  | variableWithArguments (name : String)
  | variableOfOuterClass (name : String)
  /-- An expression stands deeper than expressions are resolved. -/
  | nestedTooDeep
  /-- A part of a type stands deeper than arguments are repaired and names substituted. -/
  | cutOff
  | forwardNotClass (name : String)
  -- Things that are no types
  | variableAsType (name : String)
  | functionAsType (name : String)
  | moduleAsType (name : String)
  | unboundVariable (name : String)
  | callableHint
  | classBindingHint (name : String)
  | functionBindingHint (name : String)
  | enumMemberAsType (enumName member : String)
  | bracketedAsType
  | listHint
  | invalidType
  | strayEllipsis
  | explicitAny
  -- Special forms
  | innerFinal
  | optionalArity
  | classObjectArity
  | nestedClassVar
  | classVarArity
  | genericClassVar
  | annotatedArity
  | genericTuple
  | genericRecord
  | bareTuple
  | emptyTupleHint
  | trailingCommaHint
  | tupleHint
  | manyStars
  -- Callables
  | callableParameters
  | callableUsage
  | unknownArgumentForm (name : String)
  | namedStarArgument (form : String)
  | duplicateArgument (name description : String)
  | requiredAfterOthers
  | defaultAfterNamed
  | variadicAfterNamed
  | keywordsNotLast
  | repeatedKeywords
  -- Literals
  | emptyLiteral
  | literalOfAny (index : Nat)
  | literalOfKind (index : Nat) (kind : String)
  | literalOfExpression
  | literalOfType (index : Nat)
  | scalarNeedsLiteral (value : String)
  | scalarAsType (kind : String)
  | invalidExpression
  -- Type arguments
  | implicitAny (alternative : String)
  | bareGeneric (description : String)
  | wrongArgumentCount (name : String) (expected given : Nat)
  | aliasArgumentCount (expected given : Nat)
  -- Free text
  | stated (text : String)
  | remarked (text : String)
deriving DecidableEq

/-- A number of type arguments in words, the number one without plural. -/
def describeArity : Nat → String
  | 0 => "no type arguments"
  | 1 => "1 type argument"
  | n => toString n ++ " type arguments"

namespace Problem

open Template (hole)

/-- The wording of a problem, with holes for its details. -/
def template : Problem → String
  | unresolvedCycle _ => "Cannot resolve name \"" ++ hole 0 ++ "\" (possible cyclic definition)"
  | missingDefinition _ => "Internal error (node is None, kind=" ++ hole 0 ++ ")"
  | undefinedName _ => "Name '" ++ hole 0 ++ "' is not defined"
  | notSubscriptable _ => "\"" ++ hole 0 ++ "\" is not subscriptable"
  | notSubscriptableUse .. => "\"" ++ hole 0 ++ "\" is not subscriptable, use \"" ++ hole 1 ++ "\" instead"
  | boundVariableInAlias _ => "Can't use bound type variable \"" ++ hole 0 ++ "\" to define generic alias"
  | variableWithArguments _ => "Type variable \"" ++ hole 0 ++ "\" used with arguments"
  | variableOfOuterClass _ => "Type variable '" ++ hole 0 ++ "' is bound by an outer class"
  | nestedTooDeep | cutOff => "Type expression is nested too deeply"
  | forwardNotClass _ => "Forward reference \"" ++ hole 0 ++ "\" did not resolve to a class"
  | variableAsType _ => "Variable \"" ++ hole 0 ++ "\" is not valid as a type"
  | functionAsType _ => "Function \"" ++ hole 0 ++ "\" is not valid as a type"
  | moduleAsType _ => "Module \"" ++ hole 0 ++ "\" is not valid as a type"
  | unboundVariable _ => "Type variable \"" ++ hole 0 ++ "\" is unbound"
  | callableHint => "Perhaps you need \"Callable[...]\" or a callback protocol?"
  | classBindingHint _ =>
    "(Hint: Use \"Generic[" ++ hole 0 ++ "]\" or \"Protocol[" ++ hole 0 ++ "]\" base class to bind \"" ++
      hole 0 ++ "\" inside a class)"
  | functionBindingHint _ =>
    "(Hint: Use \"" ++ hole 0 ++ "\" in function signature to bind \"" ++ hole 0 ++ "\" inside a function)"
  | enumMemberAsType .. => "Invalid type: try using Literal[" ++ hole 0 ++ "." ++ hole 1 ++ "] instead?"
  | bracketedAsType => "Bracketed expression \"[...]\" is not valid as a type"
  | listHint => "Did you mean \"List[...]\"?"
  | invalidType => "Invalid type"
  | strayEllipsis => "Unexpected '...'"
  | explicitAny => "Explicit \"Any\" is not allowed"
  | innerFinal => "Final can be only used as an outermost qualifier in a variable annotation"
  | optionalArity => "Optional[...] must have exactly one type argument"
  | classObjectArity => "Type[...] must have exactly one type argument"
  | nestedClassVar => "Invalid type: ClassVar nested inside other type"
  | classVarArity => "ClassVar[...] must have at most one type argument"
  | genericClassVar => "Invalid type: ClassVar cannot be generic"
  | annotatedArity => "Annotated[...] must have exactly one type argument and at least one annotation"
  | genericTuple => "Generic tuple types not supported"
  | genericRecord => "Generic TypedDict types not supported"
  | bareTuple => "Syntax error in type annotation"
  | emptyTupleHint =>
    "Suggestion: Use Tuple[()] instead of () for an empty tuple, or None for a function without a return value"
  | trailingCommaHint => "Suggestion: Is there a spurious trailing comma?"
  | tupleHint => "Suggestion: Use Tuple[T1, ..., Tn] instead of (T1, ..., Tn)"
  | manyStars => "At most one star type allowed in a tuple"
  | callableParameters => "The first argument to Callable must be a list of types or \"...\""
  | callableUsage => "Please use \"Callable[[<parameters>], <return type>]\" or \"Callable\""
  | unknownArgumentForm _ => "Invalid argument constructor \"" ++ hole 0 ++ "\""
  | namedStarArgument _ => hole 0 ++ " arguments should not have names"
  | duplicateArgument .. => "Duplicate argument \"" ++ hole 0 ++ "\" in " ++ hole 1
  | requiredAfterOthers => "Required positional args may not appear after default, named or var args"
  | defaultAfterNamed => "Positional default args may not appear after named or var args"
  | variadicAfterNamed => "Var args may not appear after named or var args"
  | keywordsNotLast => "A **kwargs argument must be the last argument"
  | repeatedKeywords => "You may only have one **kwargs argument"
  | emptyLiteral => "Literal[...] must have at least one parameter"
  | literalOfAny _ => "Parameter " ++ hole 0 ++ " of Literal[...] cannot be of type \"Any\""
  | literalOfKind .. => "Parameter " ++ hole 0 ++ " of Literal[...] cannot be of type \"" ++ hole 1 ++ "\""
  | literalOfExpression => "Invalid type: Literal[...] cannot contain arbitrary expressions"
  | literalOfType _ => "Parameter " ++ hole 0 ++ " of Literal[...] is invalid"
  | scalarNeedsLiteral _ => "Invalid type: try using Literal[" ++ hole 0 ++ "] instead?"
  | scalarAsType _ => "Invalid type: " ++ hole 0 ++ " literals cannot be used as a type"
  | invalidExpression => "Invalid type comment or annotation"
  | implicitAny _ => "Implicit generic \"Any\". Use \"" ++ hole 0 ++ "\" and specify generic parameters"
  | bareGeneric _ => "Missing type parameters for generic type " ++ hole 0
  | wrongArgumentCount .. => "\"" ++ hole 0 ++ "\" expects " ++ hole 1 ++ ", but " ++ hole 2 ++ " given"
  | aliasArgumentCount .. =>
    "Bad number of arguments for type alias, expected: " ++ hole 0 ++ ", given: " ++ hole 1
  | stated text => text
  | remarked text => text

/-- What goes into the holes of the template. -/
def details : Problem → List String
  | unresolvedCycle name | undefinedName name | notSubscriptable name | boundVariableInAlias name
  | variableWithArguments name | variableOfOuterClass name | forwardNotClass name | variableAsType name
  | functionAsType name | moduleAsType name | unboundVariable name | classBindingHint name
  | functionBindingHint name | unknownArgumentForm name => [name]
  | missingDefinition kind | scalarAsType kind => [kind]
  | notSubscriptableUse name alternative => [name, alternative]
  | enumMemberAsType enumName member => [enumName, member]
  | namedStarArgument form => [form]
  | duplicateArgument name description => [name, description]
  | literalOfAny index | literalOfType index => [toString index]
  | literalOfKind index kind => [toString index, kind]
  | scalarNeedsLiteral value => [value]
  | implicitAny alternative => [alternative]
  | bareGeneric description => ["\"" ++ description ++ "\""]
  | wrongArgumentCount name expected given => [name, describeArity expected, toString given]
  | aliasArgumentCount expected given => [toString expected, toString given]
  | _ => []

def text (p : Problem) : String := Template.fill p.template p.details

def severity : Problem → Severity
  | callableHint | classBindingHint _ | functionBindingHint _ | listHint | emptyTupleHint
  | trailingCommaHint | tupleHint | remarked _ => .note
  | _ => .error

def code : Problem → Option ErrorCode
  | forwardNotClass _ | variableAsType _ | functionAsType _ | moduleAsType _ | unboundVariable _
  | scalarNeedsLiteral _ | scalarAsType _ | invalidExpression => some .validType
  | implicitAny _ | bareGeneric _ | wrongArgumentCount .. => some .typeArgument
  | bareTuple => some .malformed
  | nestedTooDeep | cutOff | explicitAny => some .misc
  | _ => none

end Problem

end TypeResolution
