import TypeResolution.Diagnostic
import TypeResolution.Ty.Children

namespace TypeResolution

/-- How deep inside a type arguments are repaired and names substituted. -/
def maxSubstitutionDepth : Nat := 128

/-- Builtin classes that take no arguments in source text, each with the name to use instead. -/
def builtinReplacements : List (String × Option String) :=
  [("builtins.tuple", some "typing.Tuple"),
    ("builtins.enumerate", none),
    ("builtins.list", some "typing.List"),
    ("builtins.dict", some "typing.Dict"),
    ("builtins.set", some "typing.Set"),
    ("builtins.frozenset", some "typing.FrozenSet"),
    ("collections.ChainMap", some "typing.ChainMap"),
    ("collections.Counter", some "typing.Counter"),
    ("collections.defaultdict", some "typing.DefaultDict"),
    ("collections.deque", some "typing.Deque")]

/-- Whether a name is that of such a builtin class, and what to use instead of it, if there is anything. -/
def builtinReplacement? (fullname : String) : Option (Option String) :=
  (builtinReplacements.find? (·.1 == fullname)).map Prod.snd

/-- What is wrong with arguments after the name of a builtin class. -/
def subscriptProblem (fullname : String) (propose : Bool) : Problem :=
  match builtinReplacement? fullname with
  | some (some replacement) =>
    if propose then .notSubscriptableUse (shortName fullname) replacement
    else .notSubscriptable (shortName fullname)
  | _ => .notSubscriptable (shortName fullname)

/-- The type that stands for omitted type arguments. Where they must not be omitted this is reported, by
the replacement for the class `fullname` if there is one, and else by `description`. -/
def omittedAny (disallowed : Bool) (pos : Position) (fullname : Option String) (description : String) :
    Ty × List Diagnostic :=
  if disallowed then
    let problem := match fullname.bind builtinReplacement? with
      | some (some replacement) => .implicitAny replacement
      | _ => .bareGeneric description
    (.anyAt .error pos, [⟨pos, problem⟩])
  else (.anyAt .omittedArguments pos, [])

/-- Gives an instance the number of arguments that its class has. Omitted arguments become `Any`; a wrong
number of them is reported and all of them are replaced. An instance that came out of an alias is reported
by the name `written` of the alias, and builtin classes by no replacement. -/
def fixInstance (i : Instance) (disallowAny fromAlias : Bool) (written : Option String) :
    Instance × List Diagnostic :=
  if i.hasExpectedArity then (i, [])
  else if i.args.isEmpty then
    let fullname := if fromAlias then none else some i.head.fullname
    let (filler, reports) := omittedAny disallowAny i.pos fullname (written.getD i.head.name)
    ({ i with args := List.replicate i.head.arity filler }, reports)
  else
    ({ i with args := List.replicate i.head.arity .error, invalid := true },
      [⟨i.pos, .wrongArgumentCount i.head.name i.head.arity i.args.length⟩])

/-- What a repair has reported so far, and the first place where it had to stop. -/
structure Repair where
  reports : List Diagnostic
  cutAt : Option Position

/-- Repairs the instances in a type that stands at the given depth. -/
def repairAt : Ty → Nat → StateM Repair Ty :=
  Ty.fold fun t parts depth => do
    if maxSubstitutionDepth ≤ depth && !t.children.isEmpty then
      modify fun repair => { repair with cutAt := repair.cutAt <|> some t.pos }
      return .anyAt .error t.pos
    let cs ← parts.mapM fun part => part (depth + 1)
    match t.withChildren cs with
    | .inst i =>
      let (fixed, reports) := fixInstance i false true none
      modify fun repair => { repair with reports := repair.reports ++ reports }
      return .inst fixed
    | t => return t

/-- Repairs every instance in a type. What is nested too deep becomes an `Any`, which is reported once. -/
def fixInstances (t : Ty) : Ty × List Diagnostic :=
  let (t, repair) := (repairAt t 0).run ⟨[], none⟩
  match repair.cutAt with
  | some pos => (t, repair.reports ++ [⟨pos, .cutOff⟩])
  | none => (t, repair.reports)

end TypeResolution
