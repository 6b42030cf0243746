import TypeResolution.NameMap
import TypeResolution.ParameterList

namespace TypeResolution

/-- What a hook does with the services of the resolver, one request after the other, until it has made
a type. -/
inductive HookScript where
  | done (t : Ty)
  /-- Reports an error. -/
  | fail (pos : Position) (message : String) (next : HookScript)
  /-- Resolves a type as an argument of the hooked name. -/
  | resolve (t : Ty) (next : Ty → HookScript)
  /-- Asks for an instance of a class of the symbol table. -/
  | instanceOf (fullname : String) (args : List Ty) (next : Option Instance → HookScript)
  /-- Reads a list of parameters. -/
  | parameters (items : List Ty) (pos : Position) (next : Option (List Parameter) → HookScript)

/-- A hook stands in for the resolution of a name; it is given the reference. -/
structure Hook where
  script : Reference → HookScript

namespace Hook

/-- Always the same type. -/
def constant (t : Ty) : Hook := ⟨fun _ => .done t⟩

/-- Reports `message` at the reference. -/
def reject (message : String) : Hook := ⟨fun r => .fail r.pos message (.done .error)⟩

/-- Resolves the types one by one and goes on with the results. -/
def resolveAll (next : List Ty → HookScript) : List Ty → HookScript
  | [] => next []
  | t :: ts => .resolve t fun resolved => resolveAll (fun others => next (resolved :: others)) ts

/-- An instance of the class `fullname` with the resolved arguments of the reference. -/
def instanceOf (fullname : String) : Hook :=
  ⟨fun r => resolveAll (fun args => .instanceOf fullname args fun
    | some i => .done (.inst i)
    | none => .done .error) r.args⟩

/-- A callable without result, whose parameters are the first argument of the reference. -/
def callable : Hook :=
  ⟨fun r =>
    match r.args.head? with
    | some (.bracketed items pos) => .parameters items pos fun
      | some parameters => .done (.callable (.ofParameters parameters (.noneType .unknown)))
      | none => .done .error
    | _ => .done (.noneType .unknown)⟩

end Hook

/-- Hooks by the full names that they stand in for. -/
abbrev HookRegistry := NameMap Hook

end TypeResolution
