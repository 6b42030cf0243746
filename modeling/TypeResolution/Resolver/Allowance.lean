import TypeResolution.Resolver.Basic
import TypeResolution.Ty.Weight

namespace TypeResolution

def AliasDecl.weight (a : AliasDecl) : Nat := a.target.weight

def ClassDecl.weight (c : ClassDecl) : Nat :=
  (c.tupleBase.map fun t => Ty.weight (.tuple t)).getD 0 +
    (c.recordBase.map fun r => Ty.weight (.record r)).getD 0

def TypeVarDecl.weight (v : TypeVarDecl) : Nat := Ty.weightAll v.values + v.upperBound.weight

/-- The number of types written in a definition, the definition itself included. -/
def Definition.weight : Definition → Nat
  | classDef decl => decl.weight + 1
  | aliasDef decl => decl.weight + 1
  | typeVarDef decl => decl.weight + 1
  | variableDef _ | pendingDef _ | moduleDef _ | functionDef _ | decoratorDef _ => 1

def SymbolTable.weight (table : SymbolTable) : Nat :=
  table.symbols.values.foldr (fun s rest => (s.definition.map Definition.weight).getD 0 + rest) 0

/-- A bound on the recursion that is to be out of reach for an expression, unless resolving it does not end. The
recursion goes deeper along the arguments of types, of which the limit of nesting allows only so many, along
the bounds of type variables, of which the table has only so many, and along the expression itself. Where
`Resolver.resolution_returns` applies, the bound is never reached. -/
def Resolver.allowance (r : Resolver) (t : Ty) : Nat :=
  let weight := r.table.weight + t.weight + 1
  4 * (maxNesting + 2) * (weight * weight)

end TypeResolution
