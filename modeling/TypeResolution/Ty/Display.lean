import TypeResolution.Ty.Basic

namespace TypeResolution

def LiteralValue.display : LiteralValue → String
  | int n => toString n
  | bool true => "True"
  | bool false => "False"
  | str text => "'" ++ text ++ "'"

/-- The members of an enumeration are shown by name, bytes with their mark. -/
def Literal.display (l : Literal) : String :=
  match l.value with
  | .str text =>
    if l.fallback.head.isEnum then "Literal[" ++ l.fallback.head.name ++ "." ++ text ++ "]"
    else if l.fallback.head.fullname == "builtins.bytes" then "Literal[b'" ++ text ++ "']"
    else "Literal['" ++ text ++ "']"
  | value => "Literal[" ++ value.display ++ "]"

/-- A parameter of a callable: its type, in the form for its kind. -/
def ArgKind.display (kind : ArgKind) (type : String) (name : Option String) : String :=
  let named := match name with
    | some name => ", '" ++ name ++ "'"
    | none => ""
  match kind with
  | positional => type
  | optional => "DefaultArg(" ++ type ++ ")"
  | star => "VarArg(" ++ type ++ ")"
  | doubleStar => "KwArg(" ++ type ++ ")"
  | ArgKind.named => "NamedArg(" ++ type ++ named ++ ")"
  | namedOptional => "DefaultNamedArg(" ++ type ++ named ++ ")"

/-- Parameters whose kinds are not listed are positional, those whose names are not listed have none. -/
def displayParameters : List String → List ArgKind → List (Option String) → List String
  | [], _, _ => []
  | type :: types, kinds, names =>
    (kinds.head?.getD .positional).display type (names.head?.getD none) ::
      displayParameters types kinds.tail names.tail

def commaSeparated (parts : List String) : String := ", ".intercalate parts

/-- A name with its arguments in brackets, if there are any. -/
def displayApplied (name : String) (args : List String) : String :=
  if args.isEmpty then name else name ++ "[" ++ commaSeparated args ++ "]"

namespace Ty

mutual
/-- The type as it would be written in source text. -/
def display : Ty → String
  | .any .. => "Any"
  | .noneType _ => "None"
  | .never true _ => "NoReturn"
  | .never false _ => "<nothing>"
  | .deleted .. => "<deleted>"
  | .typeVar binding _ => binding.name
  | .inst ⟨head, args, _, _, _⟩ => displayApplied head.name (displayAll args)
  | .tuple ⟨items, _, _, _⟩ =>
    if items.isEmpty then "Tuple[()]" else displayApplied "Tuple" (displayAll items)
  | .record ⟨fields, required, _, _⟩ =>
    "TypedDict(\x7b" ++ commaSeparated (displayFields required fields) ++ "\x7d)"
  | .callable ⟨args, kinds, names, ret, _, _, anyArgs, _⟩ =>
    let parameters :=
      if anyArgs then "..." else "[" ++ commaSeparated (displayParameters (displayAll args) kinds names) ++ "]"
    "Callable[" ++ parameters ++ ", " ++ display ret ++ "]"
  | .union [t, .noneType _] _ => "Optional[" ++ display t ++ "]"
  | .union [.noneType _, t] _ => "Optional[" ++ display t ++ "]"
  | .union members _ => "Union[" ++ commaSeparated (displayAll members) ++ "]"
  | .literal lit => lit.display
  | .classObject item _ => "Type[" ++ display item ++ "]"
  | .star item _ => "*" ++ display item
  | .forward (some fullname) _ _ => shortName fullname
  | .forward none _ _ => "<placeholder>"
  | .named ⟨name, args, optional, _, _, _, _⟩ =>
    displayApplied name (displayAll args) ++ (if optional then "?" else "")
  | .bracketed items _ => "[" ++ commaSeparated (displayAll items) ++ "]"
  | .argument item name form _ =>
    let named := match name with
      | some name => ", '" ++ name ++ "'"
      | none => ""
    form.getD "Arg" ++ "(" ++ display item ++ named ++ ")"
  | .ellipsis _ => "..."
  | .scalar (some value) _ _ _ => value.display
  | .scalar none className _ _ => "<" ++ shortName className ++ " literal>"
termination_by structural t => t

def displayAll : List Ty → List String
  | [] => []
  | t :: ts => display t :: displayAll ts
termination_by structural ts => ts

/-- Each field with its key, which is marked if the key may be missing. -/
def displayFields (required : KeySet) : List (String × Ty) → List String
  | [] => []
  | (key, t) :: fields =>
    ("'" ++ key ++ "'" ++ (if required.contains key then "" else "?") ++ ": " ++ display t) ::
      displayFields required fields
termination_by structural fields => fields
end

end Ty

end TypeResolution
