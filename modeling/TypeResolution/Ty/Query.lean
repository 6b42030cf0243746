import TypeResolution.Distinct
import TypeResolution.Ty.Children
import TypeResolution.Ty.Equality

namespace TypeResolution

namespace Ty

/-- Whether there is an `Any` of the given origin. The fields of records are not looked at: they are
checked where the record is declared. -/
def hasAny (origin : AnyOrigin) : Ty → Bool :=
  fold fun t parts =>
    match t with
    | .any o _ _ => o == origin
    | .record _ => false
    | _ => parts.any id

def hasExplicitAny (t : Ty) : Bool := t.hasAny .explicit

def hasUnimportedAny (t : Ty) : Bool := t.hasAny .unimportedName

/-- Every `Any` inside a type, from left to right. -/
def anyTypes : Ty → List Ty :=
  fold fun t parts => if t.isAny then [t] else parts.flatten

/-- Every type inside a type, first those inside its children and then the children. -/
def innerTypes : Ty → List Ty :=
  fold fun t parts => parts.flatten ++ t.children

/-- The references to type variables, each variable once, where it comes first. -/
def typeVars : Ty → List Ty :=
  fold fun t parts =>
    match t with
    | .typeVar .. => [t]
    | _ => firstOccurrences parts.flatten

/-- The number of types in a type, itself included. -/
def nodeCount : Ty → Nat := fold fun _ parts => parts.foldr (· + ·) 1

/-- The names of the references inside a type, each once, a name before those among its arguments. -/
def referenceNames : Ty → List String :=
  fold fun t parts =>
    match t with
    | .named r => firstOccurrences (r.name :: parts.flatten)
    | _ => firstOccurrences parts.flatten

end Ty

end TypeResolution
