import TypeResolution.NameMap
import TypeResolution.Symbol

namespace TypeResolution

/-- The type variables bound around a place in the source. A frame is a value: binding a variable in
a frame does not change the frames that were opened inside it before. -/
inductive Scope where
  /-- Lookup goes on in the frame `outer`; the variables of `hidden` may not be bound again, either. The
  counters are the last ids given to function variables and to class variables. -/
  | frame (bindings : NameMap TypeVarBinding) (outer hidden : Option Scope) (ofClass : Bool)
      (functionIds classIds : Int)

namespace Scope

/-- The frame of a module: nothing is bound. -/
def root : Scope := .frame .empty none none false 0 0

def bindings : Scope → NameMap TypeVarBinding
  | frame bindings .. => bindings

def outer : Scope → Option Scope
  | frame _ outer .. => outer

def hidden : Scope → Option Scope
  | frame _ _ hidden .. => hidden

def isClass : Scope → Bool
  | frame _ _ _ ofClass .. => ofClass

def functionIds : Scope → Int
  | frame _ _ _ _ functionIds _ => functionIds

def classIds : Scope → Int
  | frame _ _ _ _ _ classIds => classIds

/-- An empty frame inside `outer`, whose counters it goes on with. -/
def openFrame (outer hidden : Option Scope) (ofClass : Bool) : Scope :=
  .frame .empty outer hidden ofClass ((outer.map functionIds).getD 0) ((outer.map classIds).getD 0)

/-- The frame of a function inside `s`. -/
def functionFrame (s : Scope) : Scope := openFrame (some s) none false

/-- The nearest frame, from `s` on outwards, that is no frame of a class. -/
def nearestFunction : Scope → Option Scope
  | .frame bindings outer hidden ofClass functionIds classIds =>
    if ofClass then
      match outer with
      | some outer => outer.nearestFunction
      | none => none
    else some (.frame bindings outer hidden ofClass functionIds classIds)
termination_by structural s => s

/-- The frame of a class inside `s`. Variables of the classes around it are not visible in it, and
may not be bound again either. -/
def classFrame (s : Scope) : Scope := openFrame s.nearestFunction (some s) true

/-- The binding of `fullname` in the innermost frame that has one. -/
def find? : Scope → String → Option TypeVarBinding
  | .frame bindings outer _ _ _ _, fullname =>
    match bindings.find? fullname with
    | some binding => some binding
    | none =>
      match outer with
      | some outer => outer.find? fullname
      | none => none
termination_by structural s => s

/-- Whether `fullname` can be bound here without taking a variable away from a frame around. -/
def allows : Scope → String → Bool
  | .frame bindings outer hidden _ _ _, fullname =>
    !bindings.contains fullname &&
    (match outer with
      | some outer => outer.allows fullname
      | none => true) &&
    (match hidden with
      | some hidden => hidden.allows fullname
      | none => true)
termination_by structural s => s

/-- Adds a binding that was made elsewhere. -/
def bindExisting (s : Scope) (binding : TypeVarBinding) : Scope :=
  .frame (s.bindings.insert binding.fullname binding) s.outer s.hidden s.isClass s.functionIds s.classIds

/-- The id for the next variable: classes count up from 1, functions down from -1. -/
def nextId (s : Scope) : Int := if s.isClass then s.classIds + 1 else s.functionIds - 1

/-- The binding that `name`, declared as `decl`, gets next. -/
def freshBinding (s : Scope) (name : String) (decl : TypeVarDecl) : TypeVarBinding :=
  ⟨name, decl.fullname, s.nextId, decl.values, decl.upperBound, decl.variance, .unknown⟩

/-- Binds the variable declared as `decl` under the next id. -/
def bindNew (s : Scope) (name : String) (decl : TypeVarDecl) : Scope :=
  .frame (s.bindings.insert decl.fullname (s.freshBinding name decl)) s.outer s.hidden s.isClass
    (if s.isClass then s.functionIds else s.nextId) (if s.isClass then s.nextId else s.classIds)

end Scope

end TypeResolution
