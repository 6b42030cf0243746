import TypeResolution.Ty.Basic

namespace TypeResolution

mutual
/-- The number of types written in a type, those in the bounds and values of type variables included. -/
def Ty.weight : Ty → Nat
  | .inst i => i.weight
  | .tuple ⟨items, fallback, _, _⟩ => Ty.weightAll items + fallback.weight + 1
  | .record ⟨fields, _, fallback, _⟩ => Ty.weightFields fields + fallback.weight + 1
  | .callable ⟨args, _, _, ret, _, bindings, _, _⟩ =>
    Ty.weightAll args + ret.weight + TypeVarBinding.weightAll bindings + 1
  | .union members _ => Ty.weightAll members + 1
  | .literal l => l.weight
  | .classObject item _ | .star item _ | .argument item _ _ _ => item.weight + 1
  | .forward _ args _ => Ty.weightAll args + 1
  | .named ⟨_, args, _, _, _, _, _⟩ => Ty.weightAll args + 1
  | .bracketed items _ => Ty.weightAll items + 1
  | .typeVar binding _ => binding.weight + 1
  | .any .. | .noneType _ | .never .. | .deleted .. | .ellipsis _ | .scalar .. => 1
termination_by structural t => t

def Ty.weightAll : List Ty → Nat
  | [] => 0
  | t :: ts => t.weight + Ty.weightAll ts
termination_by structural ts => ts

def Ty.weightFields : List (String × Ty) → Nat
  | [] => 0
  | (_, t) :: fields => t.weight + Ty.weightFields fields
termination_by structural fields => fields

def Instance.weight : Instance → Nat
  | ⟨_, args, _, lastKnown, _⟩ => Ty.weightAll args + Literal.weightOption lastKnown + 1
termination_by structural i => i

def Literal.weight : Literal → Nat
  | ⟨_, fallback, _⟩ => fallback.weight + 1
termination_by structural l => l

def Literal.weightOption : Option Literal → Nat
  | none => 0
  | some l => l.weight
termination_by structural l => l

def TypeVarBinding.weight : TypeVarBinding → Nat
  | ⟨_, _, _, values, upperBound, _, _⟩ => Ty.weightAll values + upperBound.weight + 1
termination_by structural binding => binding

def TypeVarBinding.weightAll : List TypeVarBinding → Nat
  | [] => 0
  | binding :: bindings => binding.weight + TypeVarBinding.weightAll bindings
termination_by structural bindings => bindings
end

end TypeResolution
