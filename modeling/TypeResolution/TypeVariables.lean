import TypeResolution.Distinct
import TypeResolution.Scope
import TypeResolution.SymbolTable
import TypeResolution.Ty.Children

namespace TypeResolution

/-- The names that are special forms for literals, whose arguments are values and no types. -/
def literalNames : List String := ["typing.Literal", "typing_extensions.Literal"]

/-- A type variable as it was written, and its declaration. -/
abbrev VariableUse := String × TypeVarDecl

/-- A search for references to type variables. -/
structure VariableSearch where
  table : SymbolTable
  scope : Scope
  /-- Callables are searched, and references that look like callables still to be resolved. -/
  insideCallables : Bool
  /-- Variables that the scope binds are reported as well. -/
  includeBound : Bool

namespace VariableSearch

def of (table : SymbolTable) (scope : Scope) : VariableSearch := ⟨table, scope, true, false⟩

/-- Whether the arguments start like those of `Callable`. -/
def seemsCallable (r : Reference) : Bool :=
  match r.args.head? with
  | some (.ellipsis _) | some (.bracketed ..) => true
  | _ => false

/-- The declaration of the variable that `r` is a use of, if the search is for it. -/
def found? (search : VariableSearch) (r : Reference) : Option TypeVarDecl :=
  (search.table.lookupTypeVar? r.name).filter fun decl =>
    search.includeBound || (search.scope.find? decl.fullname).isNone

/-- Whether the arguments of `r` are searched. -/
def entersReference (search : VariableSearch) (r : Reference) : Bool :=
  (search.insideCallables || !seemsCallable r) &&
    !((search.table.lookup r.name).any fun s => literalNames.contains s.fullname)

/-- The variables used in a type, each once, in the order of their first uses. -/
def run (search : VariableSearch) : Ty → List VariableUse :=
  Ty.fold fun t parts =>
    match t with
    | .named r =>
      match search.found? r with
      | some decl => [(r.name, decl)]
      | none => if search.entersReference r then firstOccurrences parts.flatten else []
    | .callable _ => if search.insideCallables then firstOccurrences parts.flatten else []
    | _ => firstOccurrences parts.flatten

end VariableSearch

/-- Adds the uses whose names are not among those before. -/
def addNewNames (known uses : List VariableUse) : List VariableUse :=
  uses.foldl (fun known use => if known.any (·.1 == use.1) then known else known ++ [use]) known

/-- The type variables that a signature quantifies over, in the order of their first uses. Callables in
the return type are not searched: a variable that is used nowhere else belongs to them. -/
def inferTypeVariables (table : SymbolTable) (scope : Scope) (signature : Signature) : List VariableUse :=
  let search := VariableSearch.of table scope
  let inArgs := signature.args.foldl (fun known arg => addNewNames known (search.run arg)) []
  addNewNames inArgs ({ search with insideCallables := false }.run signature.ret)

end TypeResolution
