namespace TypeResolution

/-- What is particular about the place where a type expression stands. -/
structure Flags where
  /-- The expression defines an alias: its type variables are the formals, and arguments are counted
  where the alias is used. -/
  definingAlias : Bool
  /-- A tuple may be written as `(A, B)`. -/
  allowTupleLiteral : Bool
  /-- The builtin classes may be written with arguments, as in `list[int]`. -/
  allowUnnormalized : Bool
  /-- A type variable that nothing binds stands for itself. -/
  allowUnboundVariables : Bool
  /-- A class that is not there yet leaves a forward reference for a later pass. -/
  allowForward : Bool
  /-- Scalars used as types are reported. -/
  reportInvalidTypes : Bool
  /-- The expression is part of a bundled stub, where arguments may always be omitted. -/
  inStub : Bool
deriving DecidableEq

namespace Flags

def none : Flags := ⟨false, false, false, false, false, false, false⟩

def default : Flags := { none with reportInvalidTypes := true }

/-- The flags as a number, one bit each. -/
def bits (f : Flags) : Nat :=
  f.definingAlias.toNat + f.allowTupleLiteral.toNat * 2 + f.allowUnnormalized.toNat * 4 +
    f.allowUnboundVariables.toNat * 8 + f.allowForward.toNat * 16 + f.reportInvalidTypes.toNat * 32 +
    f.inStub.toNat * 64

end Flags

end TypeResolution
