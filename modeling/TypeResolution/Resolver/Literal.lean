import TypeResolution.Resolver.Basic
import TypeResolution.Ty.Display
import TypeResolution.Ty.Union

namespace TypeResolution

/-- The results of `f` in one list. There is none, and nothing more is tried, once `f` has none. -/
def collectWhile {α β : Type} (f : α → Resolve (Option (List β))) : List α → Resolve (Option (List β))
  | [] => pure (some [])
  | x :: xs => do
    match ← f x with
    | none => pure none
    | some found =>
      match ← collectWhile f xs with
      | none => pure none
      | some more => pure (some (found ++ more))

namespace Resolver

/-- The class of strings: which of the other names for it mean the same depends on the version. -/
def stringClass (r : Resolver) (fullname : String) : String :=
  if fullname == "builtins.bytes" && r.options.isPython2 then "builtins.str"
  else if fullname == "builtins.unicode" && !r.options.isPython2 then "builtins.str"
  else fullname

/-- The literal with this value, if its class can be had. -/
def literalOf (r : Resolver) (value : LiteralValue) (className : String) (pos : Position) :
    Resolve (Option (List Ty)) := do
  match ← r.requiredInstance (r.stringClass className) pos with
  | some fallback => pure (some [.literal ⟨value, fallback, pos⟩])
  | none => pure none

/-- Reports that a parameter is no literal. -/
def noLiteral (pos : Position) (problem : Problem) : Resolve (Option (List Ty)) := do
  Resolve.report pos problem
  pure none

/-- The literals that the type of parameter number `index` stands for. -/
def literalsOf (r : Resolver) (again : Recursion) (index : Nat) (t : Ty) (pos : Position) (level : Nesting) :
    Resolve (Option (List Ty)) :=
  match t with
  | .any origin _ _ =>
    if origin = .error ∨ origin = .specialForm then pure none else noLiteral pos (.literalOfAny index)
  | .scalar (some value) className _ at_ => r.literalOf value className at_
  | .scalar none className _ _ =>
    let kind := shortName className
    if kind = "float" ∨ kind = "complex" then noLiteral pos (.literalOfKind index kind)
    else noLiteral pos .literalOfExpression
  | .noneType _ | .literal _ => pure (some [t])
  | .inst ⟨_, _, _, some known, _⟩ => pure (some [.literal known])
  | .union members _ => collectWhile (fun member => again.literals index member pos level) members
  | _ => noLiteral pos (.literalOfType index)

/-- The literals that parameter number `index` stands for: a string is a value, any other name may be that
of an alias or of the member of an enumeration. -/
def literals (r : Resolver) (again : Recursion) (index : Nat) (t : Ty) (pos : Position) (level : Nesting) :
    Resolve (Option (List Ty)) := do
  match t with
  | .named ref =>
    match ref.quoted with
    | some value => r.literalOf (.str value) (ref.quotedClass.getD "builtins.str") ref.pos
    | none =>
      let resolved ← again.literalName ref level.deeper
      r.literalsOf again index resolved pos level
  | t => r.literalsOf again index t pos level

/-- Resolves `Literal[...]`: the union of its parameters, or an error if one of them is no literal. -/
def literalForm (r : Resolver) (again : Recursion) (ref : Reference) (level : Nesting) : Resolve Ty := do
  if ref.args.isEmpty then Resolve.failAt ref.pos .emptyLiteral
  else
    let numbered := ref.args.zipIdx 1
    match ← collectWhile (fun (t, index) => r.literals again index t ref.pos level) numbered with
    | some found => pure (.makeUnion found ref.pos)
    | none => pure (.anyAt .error ref.pos)

end Resolver

end TypeResolution
