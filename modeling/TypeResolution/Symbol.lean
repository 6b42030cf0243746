import TypeResolution.Ty.Equality

namespace TypeResolution

structure ClassDecl where
  head : ClassHead
  /-- The tuple that the class derives from. -/
  tupleBase : Option TupleShape
  /-- The record that the class derives from. -/
  recordBase : Option RecordShape

namespace ClassDecl

def plain (fullname : String) : ClassDecl := ⟨.plain fullname, none, none⟩

def generic (fullname : String) (typeVars : List String) : ClassDecl :=
  ⟨⟨fullname, typeVars, false⟩, none, none⟩

def fullname (c : ClassDecl) : String := c.head.fullname

end ClassDecl

/-- A type alias. Its target is resolved already; the formals stand in it by name. -/
structure AliasDecl where
  fullname : String
  target : Ty
  formals : List String
  /-- Declared as the bare name of a generic class, as in `A = List`. -/
  isBare : Bool
  /-- The aliases that the target was made from. -/
  dependencies : List String

structure VariableDecl where
  fullname : String
  type : Option Ty
  /-- The class that the variable belongs to. -/
  owner : Option ClassHead

namespace VariableDecl

def untyped (fullname : String) : VariableDecl := ⟨fullname, none, none⟩

def name (v : VariableDecl) : String := shortName v.fullname

end VariableDecl

structure TypeVarDecl where
  fullname : String
  values : List Ty
  upperBound : Ty
  variance : Variance

namespace TypeVarDecl

/-- A type variable that may stand for any type. -/
def plain (fullname : String) : TypeVarDecl := ⟨fullname, [], .anyAt .specialForm .unknown, .invariant⟩

def name (v : TypeVarDecl) : String := shortName v.fullname

instance : BEq TypeVarDecl where
  beq a b :=
    a.fullname == b.fullname && Ty.beqList a.values b.values && a.upperBound == b.upperBound &&
      a.variance == b.variance

end TypeVarDecl

/-- A definition that was not analysed yet. -/
structure PendingDecl where
  fullname : String
  /-- It is known that this will be a class. -/
  becomesClass : Bool

/-- What a name can stand for. -/
inductive Definition where
  | classDef (decl : ClassDecl)
  | aliasDef (decl : AliasDecl)
  | variableDef (decl : VariableDecl)
  | typeVarDef (decl : TypeVarDecl)
  | pendingDef (decl : PendingDecl)
  | moduleDef (fullname : String)
  | functionDef (fullname : String)
  | decoratorDef (fullname : String)

def Definition.fullname : Definition → String
  | classDef decl => decl.fullname
  | aliasDef decl => decl.fullname
  | .variableDef decl => decl.fullname
  | typeVarDef decl => decl.fullname
  | pendingDef decl => decl.fullname
  | moduleDef fullname | functionDef fullname | decoratorDef fullname => fullname

inductive SymbolKind where
  | local
  | global
  | member
deriving DecidableEq

def SymbolKind.display : SymbolKind → String
  | .local => "Ldef"
  | .global => "Gdef"
  | .member => "Mdef"

/-- An entry of the symbol table; one without a definition is broken. -/
structure Symbol where
  kind : SymbolKind
  fullname : String
  definition : Option Definition

namespace Symbol

/-- The entry for a definition under its own name. -/
def of (d : Definition) : Symbol := ⟨.global, d.fullname, some d⟩

def isPending (s : Symbol) : Bool :=
  match s.definition with
  | some (.pendingDef _) => true
  | _ => false

end Symbol

end TypeResolution
