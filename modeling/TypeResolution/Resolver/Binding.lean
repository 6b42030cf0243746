import TypeResolution.Resolver.Basic
import TypeResolution.TypeVariables

namespace TypeResolution

/-- Binds a variable that a signature declares. One that the table knows is numbered anew. -/
def Scope.bindDeclared (table : SymbolTable) (scope : Scope) (binding : TypeVarBinding) : Scope :=
  match table.lookupTypeVar? binding.name with
  | some decl => scope.bindNew binding.name decl
  | none => scope.bindExisting binding

/-- Whether the symbol that a name stands for is bound as a type variable. -/
def Scope.bindsName (table : SymbolTable) (scope : Scope) (name : String) : Bool :=
  (table.lookup name).any fun s => (scope.find? s.fullname).isSome

/-- What it takes to bind the variables of a signature. -/
structure SignatureBindings where
  scope : Scope
  bindings : List TypeVarBinding
  reports : List Diagnostic

/-- Binds the variables that a signature at `pos` uses, except those that are bound already. -/
def Scope.bindUses (table : SymbolTable) (pos : Position) : Scope → List VariableUse → SignatureBindings
  | scope, [] => ⟨scope, [], []⟩
  | scope, (name, decl) :: uses =>
    if scope.bindsName table name then scope.bindUses table pos uses
    else
      let rest := (scope.bindNew name decl).bindUses table pos uses
      let reports := if scope.allows decl.fullname then [] else [⟨pos, .variableOfOuterClass name⟩]
      ⟨rest.scope, scope.freshBinding name decl :: rest.bindings, reports ++ rest.reports⟩

/-- Binds the variables of a signature in the frame `scope`: those it declares, or else those it uses. -/
def Scope.bindSignature (table : SymbolTable) (scope : Scope) (signature : Signature) : SignatureBindings :=
  if signature.bindings.isEmpty then
    scope.bindUses table signature.pos (inferTypeVariables table scope signature)
  else ⟨signature.bindings.foldl (Scope.bindDeclared table) scope, signature.bindings, []⟩

/-- Binds the variables of a signature in the current frame. -/
def Resolver.bindVariables (r : Resolver) (signature : Signature) : Resolve (List TypeVarBinding) := do
  let scope ← Resolve.scope
  let bound := scope.bindSignature r.table signature
  Resolve.setScope bound.scope
  Resolve.reportAll bound.reports
  pure bound.bindings

end TypeResolution
