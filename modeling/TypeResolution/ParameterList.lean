import TypeResolution.Diagnostic
import TypeResolution.SymbolTable

namespace TypeResolution

/-- One parameter of a callable. -/
structure Parameter where
  type : Ty
  kind : ArgKind
  name : Option String

/-- The forms of parameters and the kind that each one means. -/
def argumentForms : List (String × ArgKind) :=
  [("mypy_extensions.Arg", .positional),
    ("mypy_extensions.DefaultArg", .optional),
    ("mypy_extensions.NamedArg", .named),
    ("mypy_extensions.DefaultNamedArg", .namedOptional),
    ("mypy_extensions.VarArg", .star),
    ("mypy_extensions.KwArg", .doubleStar)]

/-- The kind that the form with this full name means. -/
def ArgKind.ofForm? (fullname : String) : Option ArgKind :=
  (argumentForms.find? (·.1 == fullname)).map Prod.snd

/-- The first name that occurs for the second time. -/
def repeatedName? (seen : List String) : List (Option String) → Option String
  | [] => none
  | none :: rest => repeatedName? seen rest
  | some name :: rest => if seen.contains name then some name else repeatedName? (name :: seen) rest

/-- No name may occur twice. -/
def checkNames (names : List (Option String)) (description : String) : Option Problem :=
  (repeatedName? [] names).map (.duplicateArgument · description)

/-- Which kinds of arguments came before. -/
structure KindsSeen where
  optional : Bool
  star : Bool
  named : Bool
  doubleStar : Bool

namespace KindsSeen

def nothing : KindsSeen := ⟨false, false, false, false⟩

/-- Why an argument of this kind may not follow. -/
def problem? (seen : KindsSeen) (kind : ArgKind) : Option Problem :=
  let variadic := seen.star || seen.doubleStar
  match kind with
  | .positional => if variadic || seen.named || seen.optional then some .requiredAfterOthers else none
  | .optional => if variadic || seen.named then some .defaultAfterNamed else none
  | .star => if variadic || seen.named then some .variadicAfterNamed else none
  | .named | .namedOptional => if seen.doubleStar then some .keywordsNotLast else none
  | .doubleStar => if seen.doubleStar then some .repeatedKeywords else none

def after (seen : KindsSeen) : ArgKind → KindsSeen
  | .positional => seen
  | .optional => { seen with optional := true }
  | .star => { seen with star := true }
  | .named | .namedOptional => { seen with named := true }
  | .doubleStar => { seen with doubleStar := true }

/-- The problem of the first kind that may not come where it does. -/
def firstProblem? (seen : KindsSeen) : List ArgKind → Option Problem
  | [] => none
  | kind :: rest =>
    match seen.problem? kind with
    | some problem => some problem
    | none => (seen.after kind).firstProblem? rest

end KindsSeen

/-- Positional arguments come first, then those with defaults, one `*args`, named ones, and `**kwargs`
at the end. -/
def checkKinds (kinds : List ArgKind) : Option Problem := KindsSeen.nothing.firstProblem? kinds

namespace Parameter

/-- The parameter that an item of a list means. It fails with a diagnostic, or silently where an item in
the form of a call names no form. -/
def ofItem (table : SymbolTable) : Ty → Except (Option Diagnostic) Parameter
  | .argument type name form pos =>
    match form with
    | none => .error none
    | some form =>
      match table.lookup form with
      | none => .error (some ⟨pos, .undefinedName form⟩)
      | some s =>
        match ArgKind.ofForm? s.fullname with
        | none => .error (some ⟨pos, .unknownArgumentForm s.fullname⟩)
        | some kind =>
          if name.isSome && kind.isStar then .error (some ⟨pos, .namedStarArgument form⟩)
          else .ok ⟨type, kind, name⟩
  | t => .ok ⟨t, .positional, none⟩

/-- The parameters in a list written at `pos`. The first bad item spoils the list. Repeated names and
kinds out of order are reported, but do not. -/
def ofItems (table : SymbolTable) (items : List Ty) (pos : Position) :
    Option (List Parameter) × List Diagnostic :=
  match items.mapM (ofItem table) with
  | .error report => (none, report.toList)
  | .ok parameters =>
    let names := checkNames (parameters.map (·.name)) "Callable"
    let kinds := checkKinds (parameters.map (·.kind))
    (some parameters, (names.toList ++ kinds.toList).map (⟨pos, ·⟩))

end Parameter

/-- The signature of a callable with these parameters. -/
def Signature.ofParameters (parameters : List Parameter) (ret : Ty) : Signature :=
  .of (parameters.map (·.type)) (parameters.map (·.kind)) (parameters.map (·.name)) ret

end TypeResolution
