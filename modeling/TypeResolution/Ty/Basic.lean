import TypeResolution.KeySet
import TypeResolution.NameMap
import TypeResolution.Position
import TypeResolution.Text.DottedName

namespace TypeResolution

/-- Why a type is `Any`. -/
inductive AnyOrigin where
  | unannotated
  | explicit
  | unimportedName
  | omittedArguments
  | error
  | specialForm
  | anotherAny
  | artifact
deriving DecidableEq

inductive Variance where
  | invariant
  | covariant
  | contravariant
deriving DecidableEq

/-- How an argument of a callable may be passed. -/
inductive ArgKind where
  | positional
  | optional
  | star
  | named
  | doubleStar
  | namedOptional
deriving DecidableEq

namespace ArgKind

def isStar : ArgKind → Bool
  | star | doubleStar => true
  | _ => false

def isOptional : ArgKind → Bool
  | optional | namedOptional => true
  | _ => false

end ArgKind

/-- The scalar inside a literal type. The member of an enumeration is text, and so are bytes. -/
inductive LiteralValue where
  | int (n : Int)
  | bool (b : Bool)
  | str (text : String)
deriving DecidableEq

/-- What a type knows of a class: its full name stands for the class, the number of its type
variables is its arity. -/
structure ClassHead where
  fullname : String
  typeVars : List String
  isEnum : Bool
deriving DecidableEq

namespace ClassHead

/-- A class without type variables. -/
def plain (fullname : String) : ClassHead := ⟨fullname, [], false⟩

def name (c : ClassHead) : String := shortName c.fullname

def arity (c : ClassHead) : Nat := c.typeVars.length

end ClassHead

mutual
/-- A type expression. The last five forms are what a parser makes of source text; resolution puts the
other forms in their place. -/
inductive Ty where
  | any (origin : AnyOrigin) (missingImport : Option String) (pos : Position)
  | noneType (pos : Position)
  | never (noReturn : Bool) (pos : Position)
  | deleted (source : Option String) (pos : Position)
  | typeVar (binding : TypeVarBinding) (pos : Position)
  | inst (i : Instance)
  | tuple (shape : TupleShape)
  | record (shape : RecordShape)
  | callable (signature : Signature)
  | union (members : List Ty) (pos : Position)
  | literal (lit : Literal)
  /-- The class object of `C`, written `Type[C]`. -/
  | classObject (item : Ty) (pos : Position)
  /-- An item `*T` of a tuple. -/
  | star (item : Ty) (pos : Position)
  /-- A reference to a class that is not there yet. -/
  | forward (fullname : Option String) (args : List Ty) (pos : Position)
  | named (reference : Reference)
  /-- The parameters `[A, B]` of a callable. -/
  | bracketed (items : List Ty) (pos : Position)
  /-- A parameter `Arg(T, 'name')` of a callable. -/
  | argument (item : Ty) (name form : Option String) (pos : Position)
  | ellipsis (pos : Position)
  /-- A scalar where a type was expected; it has no value if it is no possible literal. -/
  | scalar (value : Option LiteralValue) (className : String) (note : Option String) (pos : Position)

/-- A class applied to type arguments. -/
structure Instance where
  head : ClassHead
  args : List Ty
  /-- The written arguments were of the wrong number and have been replaced. -/
  invalid : Bool
  /-- The value of a final variable of this type, if it is known. -/
  lastKnown : Option Literal
  pos : Position

structure Literal where
  value : LiteralValue
  fallback : Instance
  pos : Position

structure TupleShape where
  items : List Ty
  fallback : Instance
  /-- Written as `(A, B)` rather than `Tuple[A, B]`. -/
  implicit : Bool
  pos : Position

/-- A mapping with known keys. -/
structure RecordShape where
  fields : List (String × Ty)
  required : KeySet
  fallback : Instance
  pos : Position

structure Signature where
  args : List Ty
  kinds : List ArgKind
  names : List (Option String)
  ret : Ty
  fallback : Option Instance
  /-- The type variables that the signature quantifies over. -/
  bindings : List TypeVarBinding
  /-- Written as `Callable[..., R]`: any arguments will do. -/
  anyArgs : Bool
  pos : Position

/-- A type variable bound by a class, with a positive id, or by a function, with a negative one. -/
structure TypeVarBinding where
  name : String
  fullname : String
  id : Int
  values : List Ty
  upperBound : Ty
  variance : Variance
  pos : Position

/-- A name with its written arguments, still to be looked up. -/
structure Reference where
  name : String
  args : List Ty
  /-- Written with the suffix `?`. -/
  optional : Bool
  /-- Written as `Tuple[()]`. -/
  emptyTuple : Bool
  /-- The string that the expression was written in, and the class of that string. -/
  quoted : Option String
  quotedClass : Option String
  pos : Position
end

namespace TypeVarBinding

def boundByClass (id : Int) : Bool := decide (0 < id)

def boundByFunction (id : Int) : Bool := decide (id < 0)

end TypeVarBinding

namespace Instance

def of (head : ClassHead) (args : List Ty) (pos : Position) : Instance := ⟨head, args, false, none, pos⟩

def hasExpectedArity (i : Instance) : Bool := i.args.length == i.head.arity

end Instance

namespace Signature

def of (args : List Ty) (kinds : List ArgKind) (names : List (Option String)) (ret : Ty) : Signature :=
  ⟨args, kinds, names, ret, none, [], false, .unknown⟩

/-- The signature `(*args: T, **kwargs: T) -> R`, written with an ellipsis. -/
def ofAnyArgs (arg ret : Ty) : Signature :=
  ⟨[arg, arg], [.star, .doubleStar], [none, none], ret, none, [], true, .unknown⟩

end Signature

namespace Reference

def of (name : String) (args : List Ty) : Reference := ⟨name, args, false, false, none, none, .unknown⟩

/-- The same reference with other arguments. -/
def withArgs (r : Reference) (args : List Ty) : Reference := { r with args := args }

end Reference

namespace Ty

def anyAt (origin : AnyOrigin) (pos : Position) : Ty := .any origin none pos

/-- The type of an expression whose fault was reported elsewhere. -/
def error : Ty := anyAt .error .unknown

def isAny : Ty → Bool
  | any .. => true
  | _ => false

def isNone : Ty → Bool
  | noneType _ => true
  | _ => false

def isStar : Ty → Bool
  | star .. => true
  | _ => false

def isUnion : Ty → Bool
  | union .. => true
  | _ => false

def origin? : Ty → Option AnyOrigin
  | any origin _ _ => some origin
  | _ => none

/-- Whether the form is one that only a parser makes. -/
def isSyntactic : Ty → Bool
  | named _ | bracketed .. | argument .. | ellipsis _ | scalar .. => true
  | _ => false

def pos : Ty → Position
  | any _ _ pos | noneType pos | never _ pos | deleted _ pos | typeVar _ pos | union _ pos | classObject _ pos
  | star _ pos | forward _ _ pos | bracketed _ pos | argument _ _ _ pos | ellipsis pos | scalar _ _ _ pos => pos
  | inst i => i.pos
  | tuple t => t.pos
  | record r => r.pos
  | callable s => s.pos
  | literal l => l.pos
  | named r => r.pos

/-- The same type written at `pos`. -/
def withPos (pos : Position) : Ty → Ty
  | any origin missing _ => .any origin missing pos
  | noneType _ => .noneType pos
  | never noReturn _ => .never noReturn pos
  | deleted source _ => .deleted source pos
  | typeVar binding _ => .typeVar binding pos
  | inst i => .inst { i with pos := pos }
  | tuple t => .tuple { t with pos := pos }
  | record r => .record { r with pos := pos }
  | callable s => .callable { s with pos := pos }
  | union members _ => .union members pos
  | literal l => .literal { l with pos := pos }
  | classObject item _ => .classObject item pos
  | star item _ => .star item pos
  | forward fullname args _ => .forward fullname args pos
  | named r => .named { r with pos := pos }
  | bracketed items _ => .bracketed items pos
  | argument item name form _ => .argument item name form pos
  | ellipsis _ => .ellipsis pos
  | scalar value className note _ => .scalar value className note pos

end Ty

end TypeResolution
