import TypeResolution.NameMap
import TypeResolution.Symbol

namespace TypeResolution

/-- What is known while one module is analysed. -/
structure SymbolTable where
  /-- The module whose names need no qualification. -/
  module : String
  /-- The symbols by full name. -/
  symbols : NameMap Symbol
  /-- The full names behind the local names that imports bind. -/
  imports : NameMap String
  /-- The modules that still have definitions to be analysed. -/
  incomplete : List String
  /-- This is the last pass there will be. -/
  finalPass : Bool

namespace SymbolTable

def empty (module : String) : SymbolTable := ⟨module, .empty, .empty, [], false⟩

def add (table : SymbolTable) (s : Symbol) : SymbolTable :=
  { table with symbols := table.symbols.insert s.fullname s }

def define (table : SymbolTable) (d : Definition) : SymbolTable := table.add (.of d)

def remove (table : SymbolTable) (fullname : String) : SymbolTable :=
  { table with symbols := table.symbols.erase fullname }

/-- Binds the name `name` to the symbol `fullname`. -/
def importAs (table : SymbolTable) (name fullname : String) : SymbolTable :=
  { table with imports := table.imports.insert name fullname }

def importFrom (table : SymbolTable) (module : String) (names : List String) : SymbolTable :=
  names.foldl (fun table name => table.importAs name (qualify module name)) table

def markIncomplete (table : SymbolTable) (module : String) : SymbolTable :=
  { table with incomplete := module :: table.incomplete }

def markComplete (table : SymbolTable) (module : String) : SymbolTable :=
  { table with incomplete := table.incomplete.filter (· != module) }

def isIncomplete (table : SymbolTable) (module : String) : Bool := table.incomplete.contains module

def withFinalPass (table : SymbolTable) (final : Bool) : SymbolTable := { table with finalPass := final }

/-- The symbol of an absolute name. -/
def find? (table : SymbolTable) (fullname : String) : Option Symbol := table.symbols.find? fullname

def findClass? (table : SymbolTable) (fullname : String) : Option ClassDecl :=
  match (table.find? fullname).bind (·.definition) with
  | some (.classDef decl) => some decl
  | _ => none

/-- The absolute names that a name in the module may mean, the first choice first: what its first
component was imported as, a name of the module, a builtin, and the name itself. -/
def candidates (table : SymbolTable) (name : String) : List String :=
  let (head, rest) := splitHead name
  let imported := (table.imports.find? head).map fun target =>
    match rest with
    | some rest => qualify target rest
    | none => target
  imported.toList ++ [qualify table.module name, qualify "builtins" name, name]

/-- The symbol of a name in the module. -/
def lookup (table : SymbolTable) (name : String) : Option Symbol :=
  (table.candidates name).findSome? table.find?

/-- The declaration of the type variable that a name in the module stands for, if it stands for one. -/
def lookupTypeVar? (table : SymbolTable) (name : String) : Option TypeVarDecl :=
  match (table.lookup name).bind (·.definition) with
  | some (.typeVarDef decl) => some decl
  | _ => none

end SymbolTable

end TypeResolution
