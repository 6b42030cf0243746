import TypeResolution.Text.Json

namespace TypeResolution

/-- What a project asks of its annotations. -/
structure Options where
  /-- Omitted type arguments are an error, not an implicit `Any`. -/
  disallowAnyGenerics : Bool
  /-- An `Any` written out is an error. -/
  disallowAnyExplicit : Bool
  /-- Major and minor version of the language that is analysed. -/
  pythonVersion : Nat × Nat
deriving DecidableEq

/-- Why options could not be had. -/
inductive OptionsError where
  | malformed
  | unreadableFile (path : String)
  | malformedFile (path : String)
deriving DecidableEq

def OptionsError.message : OptionsError → String
  | malformed => "invalid typa options JSON"
  | unreadableFile path => "failed to read options file " ++ path
  | malformedFile path => "in " ++ path ++ ": invalid typa options JSON"

namespace Options

def default : Options := ⟨false, false, (3, 8)⟩

def isPython2 (o : Options) : Bool := o.pythonVersion.1 == 2

inductive Key where
  | disallowAnyGenerics
  | disallowAnyExplicit
  | pythonVersion
deriving DecidableEq

namespace Key

/-- The keys in the order in which an array of options lists their values. -/
def all : List Key := [disallowAnyGenerics, disallowAnyExplicit, pythonVersion]

def name : Key → String
  | disallowAnyGenerics => "disallow_any_generics"
  | disallowAnyExplicit => "disallow_any_explicit"
  | pythonVersion => "python_version"

def ofName? (name : String) : Option Key := all.find? (·.name == name)

end Key

def readBool : Json → Option Bool
  | .bool b => some b
  | _ => none

/-- A version component is written as a plain number below 256. -/
def readComponent : Json → Option Nat
  | .number n =>
    match n.natural? with
    | some value => if value < 256 then some value else none
    | none => none
  | _ => none

def readVersion : Json → Option (Nat × Nat)
  | .array [major, minor] => do
    let major ← readComponent major
    let minor ← readComponent minor
    pure (major, minor)
  | _ => none

/-- The options after giving the option `key` the value written as `value`. -/
def assign (o : Options) (key : Key) (value : Json) : Option Options :=
  match key with
  | .disallowAnyGenerics => (readBool value).map fun b => ⟨b, o.disallowAnyExplicit, o.pythonVersion⟩
  | .disallowAnyExplicit => (readBool value).map fun b => ⟨o.disallowAnyGenerics, b, o.pythonVersion⟩
  | .pythonVersion => (readVersion value).map fun v => ⟨o.disallowAnyGenerics, o.disallowAnyExplicit, v⟩

/-- Reads the members of an object in order. A known key may come once, an unknown one is passed over,
and a key must be text that can be read. -/
def assignMembers (o : Options) (given : List Key) : List (Option String × Json) → Option Options
  | [] => some o
  | (none, _) :: _ => none
  | (some name, value) :: rest =>
    match Key.ofName? name with
    | none => assignMembers o given rest
    | some key =>
      if given.contains key then none
      else (o.assign key value).bind fun o => assignMembers o (key :: given) rest

/-- Reads the values of an array against the keys in order; values may be missing at the end. -/
def assignValues (o : Options) : List Key → List Json → Option Options
  | _, [] => some o
  | [], _ :: _ => none
  | key :: keys, value :: rest => (o.assign key value).bind fun o => assignValues o keys rest

def ofJson? : Json → Option Options
  | .object members => default.assignMembers [] members
  | .array values => default.assignValues Key.all values
  | _ => none

/-- Reads options from JSON text. What the text does not mention keeps its default. -/
def parse (text : String) : Except OptionsError Options :=
  match (Json.parse? text).bind ofJson? with
  | some o => .ok o
  | none => .error .malformed

/-- Reads options from the bytes found at `path`; there are none if the file could not be read. -/
def parseFile (path : String) (bytes : Option ByteArray) : Except OptionsError Options :=
  match bytes.bind String.fromUTF8? with
  | none => .error (.unreadableFile path)
  | some text =>
    match parse text with
    | .ok o => .ok o
    | .error _ => .error (.malformedFile path)

end Options

end TypeResolution
