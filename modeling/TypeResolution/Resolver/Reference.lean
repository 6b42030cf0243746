import TypeResolution.Alias
import TypeResolution.Resolver.SpecialForm

namespace TypeResolution

/-- Runs a script against a resolver. What it resolves counts as an argument of a name at the top. -/
def HookScript.run (r : Resolver) (again : Recursion) : HookScript → Resolve Ty
  | .done t => pure t
  | .fail pos message next => do
    Resolve.report pos (.stated message)
    next.run r again
  | .resolve t next => do
    let resolved ← again.arg t .top
    (next resolved).run r again
  | .instanceOf fullname args next => (next (r.instanceOf? fullname args .unknown)).run r again
  | .parameters items pos next => do
    let (found, reports) := Parameter.ofItems r.table items pos
    Resolve.reportAll reports
    (next found).run r again

namespace Resolver

/-- Resolves a class with arguments: to an instance, or to the tuple or record that it derives from. -/
def classType (r : Resolver) (again : Recursion) (decl : ClassDecl) (args : List Ty) (pos : Position)
    (level : Nesting) : Resolve Ty := do
  if !args.isEmpty && decl.fullname == "builtins.tuple" then
    let items ← again.args args level
    return .tuple ⟨items, .of decl.head [.anyAt .specialForm .unknown] pos, false, pos⟩
  let resolved ← again.args args level
  let i ← r.fixArity (.of decl.head resolved pos) false none
  match decl.tupleBase, decl.recordBase with
  | some base, _ =>
    if !args.isEmpty then Resolve.failAt pos .genericTuple
    else
      let items ← again.args base.items level
      pure (.tuple ⟨items, i, base.implicit, pos⟩)
  | none, some base =>
    if !args.isEmpty then Resolve.failAt pos .genericRecord
    else
      let fields ← again.fields base.fields level
      pure (.record ⟨fields, base.required, i, pos⟩)
  | none, none => pure (.inst i)

/-- Resolves an alias with the arguments of `ref`. -/
def aliasType (r : Resolver) (again : Recursion) (decl : AliasDecl) (fullname : String) (ref : Reference)
    (level : Nesting) : Resolve Ty := do
  Resolve.useAliases (fullname :: decl.dependencies)
  let args ← again.args ref.args level
  let (expanded, reports) := decl.expand args ref.pos (some ref.name) r.disallowsOmitted
  Resolve.reportAll reports
  match expanded with
  | .inst i => do
    let i ← r.fixArity i true (some ref.name)
    pure (.inst i)
  | t => pure t

/-- A reference to something that is not analysed yet. -/
def pendingType (r : Resolver) (again : Recursion) (decl : PendingDecl) (ref : Reference) (level : Nesting) :
    Resolve Ty := do
  if r.table.finalPass then Resolve.failAt ref.pos (.unresolvedCycle ref.name)
  else if decl.becomesClass then
    Resolve.raise (if r.flags.allowForward then .deferred else .incomplete)
    let args ← again.args ref.args level
    pure (.forward (some decl.fullname) args ref.pos)
  else
    Resolve.raise .incomplete
    pure (.anyAt .specialForm ref.pos)

/-- Reports that the name of `ref` is no type. The reference stays, with its arguments resolved. -/
def noType (again : Recursion) (ref : Reference) (level : Nesting) (problem : Problem) (notes : List Problem) :
    Resolve Ty := do
  let args ← again.args ref.args level
  Resolve.report ref.pos problem
  Resolve.reportAll (notes.map (⟨ref.pos, ·⟩))
  pure (.named (ref.withArgs args))

/-- A reference to a variable. One of type `Any` is a name that could not be imported, and the member of an
enumeration is a type inside of a literal. -/
def variableType (again : Recursion) (decl : VariableDecl) (fullname : String) (ref : Reference)
    (level : Nesting) (inLiteral : Bool) : Resolve Ty :=
  match decl.type, decl.owner.filter (·.isEnum) with
  | some (.any _ missing _), _ => pure (.any .unimportedName missing ref.pos)
  | _, some owner =>
    if inLiteral then pure (.literal ⟨.str decl.name, .of owner [] ref.pos, ref.pos⟩)
    else Resolve.failAt ref.pos (.enumMemberAsType owner.name decl.name)
  | _, none => noType again ref level (.variableAsType fullname) []

/-- A reference to a type variable. -/
def typeVarType (r : Resolver) (again : Recursion) (fullname : String) (ref : Reference) (level : Nesting) :
    Resolve Ty := do
  match (← Resolve.scope).find? fullname with
  | some binding =>
    if r.flags.definingAlias then Resolve.failAt ref.pos (.boundVariableInAlias ref.name)
    else
      if !ref.args.isEmpty then Resolve.report ref.pos (.variableWithArguments ref.name)
      pure (.typeVar binding ref.pos)
  | none =>
    if r.flags.allowUnboundVariables || r.flags.definingAlias then pure (.named ref)
    else
      let short := shortName fullname
      noType again ref level (.unboundVariable fullname) [.classBindingHint short, .functionBindingHint short]

/-- Resolves a reference to the symbol `fullname`, which is defined as `d`. -/
def definedType (r : Resolver) (again : Recursion) (d : Definition) (fullname : String) (ref : Reference)
    (level : Nesting) (inLiteral : Bool) : Resolve Ty :=
  match d with
  | .classDef decl => r.classType again decl ref.args ref.pos level
  | .aliasDef decl => r.aliasType again decl fullname ref level
  | .variableDef decl => variableType again decl fullname ref level inLiteral
  | .typeVarDef _ => r.typeVarType again fullname ref level
  | .pendingDef decl => r.pendingType again decl ref level
  | .moduleDef _ => noType again ref level (.moduleAsType fullname) []
  | .functionDef _ | .decoratorDef _ => noType again ref level (.functionAsType fullname) [.callableHint]

/-- A bound type variable hides a special form of its name. -/
def bindsTypeVar (d : Definition) (scope : Scope) (fullname : String) : Bool :=
  match d with
  | .typeVarDef _ => (scope.find? fullname).isSome
  | _ => false

/-- Resolves a reference to the symbol `fullname`: by its hook, or as a special form, or else by its
definition `d`. -/
def symbolType (r : Resolver) (again : Recursion) (d : Definition) (fullname : String) (ref : Reference)
    (level : Nesting) (inLiteral : Bool) : Resolve Ty := do
  match r.hooks.find? fullname with
  | some hook => (hook.script ref).run r again
  | none =>
    if (builtinReplacement? fullname).isSome && !ref.args.isEmpty && !r.flags.allowUnnormalized then
      Resolve.report ref.pos (subscriptProblem fullname !r.flags.definingAlias)
    match SpecialForm.ofName? fullname, bindsTypeVar d (← Resolve.scope) fullname with
    | some form, false => r.specialForm again form ref level
    | _, _ => r.definedType again d fullname ref level inLiteral

/-- Resolves a reference, without regard to the suffix `?`. -/
def plainReference (r : Resolver) (again : Recursion) (ref : Reference) (level : Nesting) (inLiteral : Bool) :
    Resolve Ty :=
  match r.table.lookup ref.name with
  | none => pure (.anyAt .specialForm ref.pos)
  | some s =>
    match s.definition with
    | none => do
      Resolve.report ref.pos (.missingDefinition s.kind.display)
      pure (.anyAt .specialForm ref.pos)
    | some (.pendingDef decl) => r.pendingType again decl ref level
    | some d => r.symbolType again d s.fullname ref level inLiteral

/-- Resolves a reference. -/
def reference (r : Resolver) (again : Recursion) (ref : Reference) (level : Nesting) (inLiteral : Bool) :
    Resolve Ty := do
  let resolved ← r.plainReference again ref level inLiteral
  pure (if ref.optional then resolved.makeOptional else resolved)

end Resolver

end TypeResolution
