import TypeResolution.Resolver.Reference

namespace TypeResolution

namespace Resolver

/-- Resolves a tuple written out. Without leave it must not be written as `(A, B)`, and it holds at most
one star item. -/
def tupleType (r : Resolver) (again : Recursion) (t : TupleShape) (level : Nesting) : Resolve Ty := do
  if t.implicit && !r.flags.allowTupleLiteral then
    let hint := match t.items with
      | [] => .emptyTupleHint
      | [_] => .trailingCommaHint
      | _ => .tupleHint
    Resolve.reportAll [⟨t.pos, .bareTuple⟩, ⟨t.pos, hint⟩]
    pure .error
  else if 1 < t.items.countP Ty.isStar then
    Resolve.report t.pos .manyStars
    if t.implicit then pure (.tuple { t with items := List.replicate t.items.length .error })
    else pure .error
  else
    let items ← again.args t.items level
    pure (.tuple { t with items := items })

/-- What is wrong with a scalar that stands where a type was expected. -/
def scalarProblem (value : Option LiteralValue) (className : String) : Problem :=
  if className = "builtins.float" ∨ className = "builtins.complex" then .scalarAsType (shortName className)
  else
    match value with
    | some value =>
      if className = "builtins.int" ∨ className = "builtins.bool" then .scalarNeedsLiteral value.display
      else .invalidExpression
    | none => .invalidExpression

/-- A scalar outside of a literal is no type. -/
def scalarType (r : Resolver) (value : Option LiteralValue) (className : String) (note : Option String)
    (pos : Position) : Resolve Ty := do
  if r.flags.reportInvalidTypes then
    Resolve.report pos (scalarProblem value className)
    Resolve.reportAll (note.toList.map (⟨pos, .remarked ·⟩))
  pure (.anyAt .error pos)

/-- Looks up again what an earlier pass left as a reference to a class to come. -/
def forwardType (r : Resolver) (again : Recursion) (fullname : Option String) (args : List Ty) (pos : Position)
    (level : Nesting) : Resolve Ty :=
  match (fullname.bind r.table.find?).bind (·.definition) with
  | some (.classDef decl) => r.classType again decl args pos level
  | none | some (.pendingDef _) =>
    if r.table.finalPass then Resolve.failAt pos (.unresolvedCycle ((fullname.map shortName).getD "?"))
    else do
      Resolve.raise .deferred
      pure (.forward fullname args pos)
  | some d => Resolve.failAt pos (.forwardNotClass d.fullname)

/-- Resolves an expression at a level. -/
def expr (r : Resolver) (again : Recursion) (t : Ty) (level : Nesting) : Resolve Ty := do
  if maxNesting < level.level then Resolve.failAt t.pos .nestedTooDeep
  else
    match t with
    | .named ref => r.reference again ref level false
    | .any .. | .noneType _ | .never .. | .deleted .. | .inst _ | .typeVar .. | .literal _ => pure t
    | .bracketed _ pos =>
      Resolve.reportAll [⟨pos, .bracketedAsType⟩, ⟨pos, .listHint⟩]
      pure .error
    | .argument _ _ _ pos =>
      Resolve.report pos .invalidType
      pure .error
    | .ellipsis pos =>
      Resolve.report pos .strayEllipsis
      pure .error
    | .callable s => r.signature again s level level.deeper
    | .tuple shape => r.tupleType again shape level
    | .record shape =>
      let fields ← again.fields shape.fields level
      pure (.record { shape with fields := fields })
    | .scalar value className note pos => r.scalarType value className note pos
    | .star item pos =>
      let item ← again.arg item level
      pure (.star item pos)
    | .union members pos =>
      let items ← again.args members level
      pure (.makeUnion items pos)
    | .classObject item pos =>
      let item ← again.arg item level
      pure (.makeClassObject item pos)
    | .forward fullname args pos => r.forwardType again fullname args pos level

/-- Resolution whose recursive calls go at most `bound` deep. -/
def recursion (r : Resolver) : Nat → Recursion
  | 0 => .exhausted
  | bound + 1 =>
    { expr := fun t level p => r.expr (r.recursion bound) t level p
      literalName := fun ref level p => r.reference (r.recursion bound) ref level true p
      literals := fun index t pos level p => r.literals (r.recursion bound) index t pos level p }

end Resolver

end TypeResolution
