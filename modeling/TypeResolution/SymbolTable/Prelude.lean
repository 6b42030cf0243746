import TypeResolution.SymbolTable

namespace TypeResolution

namespace Prelude

def modules : List String := ["builtins", "typing", "typing_extensions", "mypy_extensions", "collections"]

def plainClasses : List String :=
  ["builtins.object", "builtins.int", "builtins.str", "builtins.bytes", "builtins.float", "builtins.complex",
    "builtins.bool", "builtins.function", "builtins.type", "builtins.enumerate"]

def genericClasses : List ClassDecl :=
  [.generic "builtins.tuple" ["T_co"],
    .generic "builtins.list" ["T"],
    .generic "builtins.dict" ["KT", "VT"],
    .generic "builtins.set" ["T"],
    .generic "builtins.frozenset" ["T_co"],
    .generic "collections.deque" ["T"],
    .generic "collections.defaultdict" ["KT", "VT"],
    .generic "collections.Counter" ["T"],
    .generic "collections.ChainMap" ["KT", "VT"],
    .generic "mypy_extensions.FlexibleAlias" ["T", "U"]]

/-- Names that resolution knows by themselves; what they are defined as is of no account. -/
def specialNames : List String :=
  ["builtins.None", "typing.Any", "typing.Union", "typing.Optional", "typing.Tuple", "typing.Callable",
    "typing.Type", "typing.ClassVar", "typing.NoReturn", "typing.Literal", "typing.Final",
    "typing_extensions.Literal", "typing_extensions.Final", "typing_extensions.Annotated",
    "mypy_extensions.NoReturn"]

/-- Bare aliases of generic classes. -/
def classAliases : List (String × String) :=
  [("typing.List", "builtins.list"),
    ("typing.Dict", "builtins.dict"),
    ("typing.Set", "builtins.set"),
    ("typing.FrozenSet", "builtins.frozenset"),
    ("typing.Deque", "collections.deque"),
    ("typing.DefaultDict", "collections.defaultdict"),
    ("typing.Counter", "collections.Counter"),
    ("typing.ChainMap", "collections.ChainMap")]

def argumentForms : List String := ["Arg", "DefaultArg", "NamedArg", "DefaultNamedArg", "VarArg", "KwArg"]

/-- The alias `fullname` of the class `target` without arguments. -/
def bareAlias? (fullname target : String) : Option AliasDecl :=
  (genericClasses.find? (·.fullname == target)).map fun decl =>
    ⟨fullname, .inst (.of decl.head [] .unknown), [], true, []⟩

def definitions : List Definition :=
  modules.map .moduleDef ++
  plainClasses.map (fun fullname => .classDef (.plain fullname)) ++
  genericClasses.map .classDef ++
  specialNames.map (fun fullname => .variableDef (.untyped fullname)) ++
  classAliases.filterMap (fun (fullname, target) => (bareAlias? fullname target).map .aliasDef) ++
  argumentForms.map (fun name => .functionDef (qualify "mypy_extensions" name))

end Prelude

/-- A table for `module` that knows the builtin classes and the vocabulary of types. -/
def SymbolTable.withPrelude (module : String) : SymbolTable :=
  Prelude.definitions.foldl SymbolTable.define (.empty module)

end TypeResolution
