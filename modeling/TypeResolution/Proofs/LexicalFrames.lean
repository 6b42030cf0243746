import Mathlib.Data.List.DropRight
import TypeResolution.Scope

namespace TypeResolution

/-- A frame as the source nests it, with what has been bound in it, the latest binding first. -/
structure LexicalFrame where
  ofClass : Bool
  bound : List TypeVarBinding

namespace LexicalFrame

def opened (ofClass : Bool) : LexicalFrame := ⟨ofClass, []⟩

def bind (frame : LexicalFrame) (binding : TypeVarBinding) : LexicalFrame :=
  { frame with bound := binding :: frame.bound }

/-- The binding of `fullname` that the frame holds. -/
def find? (frame : LexicalFrame) (fullname : String) : Option TypeVarBinding :=
  frame.bound.find? (·.fullname == fullname)

/-- The frames that are seen on the way outwards. While classes are passed over, those up to the next
function are not seen. -/
def visibleFrom : Bool → List LexicalFrame → List LexicalFrame
  | _, [] => []
  | passing, frame :: around =>
    if passing && frame.ofClass then visibleFrom true around else frame :: visibleFrom frame.ofClass around
termination_by structural _ frames => frames

/-- The frames whose bindings are seen from the innermost one: whoever leaves a class passes over all classes up to
the next function. -/
def visible (frames : List LexicalFrame) : List LexicalFrame := visibleFrom false frames

theorem visibleFrom_passing (frames : List LexicalFrame) :
    visibleFrom true frames = visible (frames.dropWhile (·.ofClass)) := by
  induction frames with
  | nil => rfl
  | cons frame around ih =>
    cases ofClass : frame.ofClass with
    | true => simp only [visibleFrom, ofClass, Bool.and_self, if_true, ih, List.dropWhile_cons]
    | false => simp [visible, visibleFrom, ofClass]

theorem visible_function {frame : LexicalFrame} (isFunction : frame.ofClass = false) (around : List LexicalFrame) :
    visible (frame :: around) = frame :: visible around := by
  simp [visible, visibleFrom, isFunction]

theorem visible_class {frame : LexicalFrame} (isClass : frame.ofClass = true) (around : List LexicalFrame) :
    visible (frame :: around) = frame :: visible (around.dropWhile (·.ofClass)) := by
  simp [visible, visibleFrom, isClass, visibleFrom_passing]

theorem find?_eq_none_iff {frame : LexicalFrame} {fullname : String} :
    frame.find? fullname = none ↔ ∀ binding ∈ frame.bound, binding.fullname ≠ fullname := by
  simp [find?, List.find?_eq_none]

end LexicalFrame

namespace Scope

/-- A scope that is reached from the frame of a module, and the frames that lie around it in the source, the
innermost first. -/
inductive Lexical : Scope → List LexicalFrame → Prop
  | root : Lexical root [.opened false]
  | functionFrame {s : Scope} {frames : List LexicalFrame} : Lexical s frames →
      Lexical s.functionFrame (.opened false :: frames)
  | classFrame {s : Scope} {frames : List LexicalFrame} : Lexical s frames →
      Lexical s.classFrame (.opened true :: frames)
  | bindNew {s : Scope} {frames : List LexicalFrame} (name : String) (decl : TypeVarDecl) : Lexical s frames →
      Lexical (s.bindNew name decl) (frames.modifyHead (·.bind (s.freshBinding name decl)))
  | bindExisting {s : Scope} {frames : List LexicalFrame} (binding : TypeVarBinding) : Lexical s frames →
      Lexical (s.bindExisting binding) (frames.modifyHead (·.bind binding))

/-- The links of a scope against the frames around it. What is hidden is all that lies around a class, what is outside
of it begins with the next function. -/
inductive Links : Scope → List LexicalFrame → Prop
  | module {own : NameMap TypeVarBinding} {frame : LexicalFrame} {functionIds classIds : Int} :
      (∀ name, own.find? name = frame.find? name) → frame.ofClass = false →
      Links (.frame own none none false functionIds classIds) [frame]
  | function {own : NameMap TypeVarBinding} {outer : Scope} {frame : LexicalFrame} {around : List LexicalFrame}
      {functionIds classIds : Int} :
      (∀ name, own.find? name = frame.find? name) → frame.ofClass = false → Links outer around →
      Links (.frame own (some outer) none false functionIds classIds) (frame :: around)
  | ofClass {own : NameMap TypeVarBinding} {outer hidden : Scope} {frame : LexicalFrame}
      {around : List LexicalFrame} {functionIds classIds : Int} :
      (∀ name, own.find? name = frame.find? name) → frame.ofClass = true → Links hidden around →
      Links outer (around.dropWhile (·.ofClass)) →
      Links (.frame own (some outer) (some hidden) true functionIds classIds) (frame :: around)

/-- The nearest function is what comes after the classes. -/
theorem Links.nearestFunction {s : Scope} {frames : List LexicalFrame} (links : s.Links frames) :
    ∃ outer, s.nearestFunction = some outer ∧ outer.Links (frames.dropWhile (·.ofClass)) := by
  induction links with
  | module agrees isFunction =>
    refine ⟨_, rfl, ?_⟩
    rw [List.dropWhile_cons_of_neg (by simp [isFunction])]
    exact .module agrees isFunction
  | function agrees isFunction outside =>
    refine ⟨_, rfl, ?_⟩
    rw [List.dropWhile_cons_of_neg (by simp [isFunction])]
    exact .function agrees isFunction outside
  | ofClass _ isClass _ _ _ found =>
    obtain ⟨outer, atOuter, links⟩ := found
    refine ⟨outer, atOuter, ?_⟩
    rw [List.dropWhile_cons_of_pos isClass]
    rwa [List.dropWhile_idempotent] at links

theorem Links.functionFrame {s : Scope} {frames : List LexicalFrame} (links : s.Links frames) :
    s.functionFrame.Links (.opened false :: frames) :=
  .function (fun _ => rfl) rfl links

theorem Links.classFrame {s : Scope} {frames : List LexicalFrame} (links : s.Links frames) :
    s.classFrame.Links (.opened true :: frames) := by
  obtain ⟨outer, atOuter, outside⟩ := links.nearestFunction
  rw [Scope.classFrame, atOuter]
  exact .ofClass (fun _ => rfl) rfl links outside

theorem find?_insert_bind {own : NameMap TypeVarBinding} {frame : LexicalFrame}
    (agrees : ∀ name, own.find? name = frame.find? name) (binding : TypeVarBinding) (name : String) :
    (own.insert binding.fullname binding).find? name = (frame.bind binding).find? name := by
  by_cases same : name = binding.fullname
  · rw [same, NameMap.find?_insert_self]
    simp [LexicalFrame.find?, LexicalFrame.bind]
  · rw [NameMap.find?_insert_other _ _ same, agrees]
    simp [LexicalFrame.find?, LexicalFrame.bind, Ne.symm same]

/-- A binding is put into the innermost frame; the links stay, whatever becomes of the counters. -/
theorem Links.insert {s : Scope} {frames : List LexicalFrame} (links : s.Links frames) (binding : TypeVarBinding)
    (functionIds classIds : Int) :
    (Scope.frame (s.bindings.insert binding.fullname binding) s.outer s.hidden s.isClass functionIds classIds).Links
      (frames.modifyHead (·.bind binding)) := by
  cases links with
  | module agrees isFunction => exact .module (find?_insert_bind agrees binding) isFunction
  | function agrees isFunction outside => exact .function (find?_insert_bind agrees binding) isFunction outside
  | ofClass agrees isClass around outside => exact .ofClass (find?_insert_bind agrees binding) isClass around outside

theorem Lexical.links {s : Scope} {frames : List LexicalFrame} (lexical : s.Lexical frames) : s.Links frames := by
  induction lexical with
  | root => exact .module (fun _ => rfl) rfl
  | functionFrame _ links => exact links.functionFrame
  | classFrame _ links => exact links.classFrame
  | @bindNew s _ name decl _ links => exact links.insert (s.freshBinding name decl) _ _
  | bindExisting binding _ links => exact links.insert binding _ _

theorem Links.find? {s : Scope} {frames : List LexicalFrame} (links : s.Links frames) (name : String) :
    s.find? name = (LexicalFrame.visible frames).findSome? (·.find? name) := by
  induction links with
  | @module _ frame _ _ agrees isFunction =>
    rw [LexicalFrame.visible_function isFunction, List.findSome?_cons]
    cases found : frame.find? name <;> simp [Scope.find?, agrees, found, LexicalFrame.visible, LexicalFrame.visibleFrom]
  | @function _ _ frame _ _ _ agrees isFunction _ ih =>
    rw [LexicalFrame.visible_function isFunction, List.findSome?_cons]
    cases found : frame.find? name <;> simp [Scope.find?, agrees, found, ih]
  | @ofClass _ _ _ frame _ _ _ agrees isClass _ _ _ ih =>
    rw [LexicalFrame.visible_class isClass, List.findSome?_cons]
    cases found : frame.find? name <;> simp [Scope.find?, agrees, found, ih]

theorem Links.allows_iff {s : Scope} {frames : List LexicalFrame} (links : s.Links frames) (name : String) :
    s.allows name = true ↔ ∀ frame ∈ frames, frame.find? name = none := by
  induction links with
  | module agrees => simp [allows, NameMap.contains, agrees]
  | function agrees _ _ ih => simp [allows, NameMap.contains, agrees, ih]
  | @ofClass _ _ _ frame around _ _ agrees _ _ _ hiddenIff outerIff =>
    -- The frames outside are among those that are hidden.
    have among : (∀ frame ∈ around, frame.find? name = none) →
        ∀ frame ∈ around.dropWhile (·.ofClass), frame.find? name = none :=
      fun free frame member => free frame ((List.dropWhile_sublist _).subset member)
    simp only [allows, NameMap.contains, agrees, Bool.and_eq_true, outerIff, hiddenIff, List.forall_mem_cons,
      Bool.not_eq_true', Option.isSome_eq_false_iff, Option.isNone_iff_eq_none]
    exact ⟨fun free => ⟨free.1.1, free.2⟩, fun free => ⟨⟨free.1, among free.2⟩, free.2⟩⟩

/-- Scopes look up and guard bindings as the frames in the source nest: a variable may be bound where no frame
around binds it, seen or not, and what is found is its binding in the innermost frame that is seen. -/
theorem lexical_bindings {s : Scope} {frames : List LexicalFrame} (lexical : s.Lexical frames) (name : String) :
    (s.allows name = true ↔ ∀ frame ∈ frames, ∀ binding ∈ frame.bound, binding.fullname ≠ name) ∧
    s.find? name = (LexicalFrame.visible frames).findSome? (·.find? name) := by
  have links := lexical.links
  refine ⟨?_, links.find? name⟩
  simp only [links.allows_iff name, LexicalFrame.find?_eq_none_iff]

/-- A method of a class that stands directly in another class, which binds a variable. -/
def insideClasses : Scope := (root.classFrame.bindNew "T" (.plain "m.T")).classFrame.functionFrame

/-- The frames around that method. -/
def framesInsideClasses : List LexicalFrame :=
  [.opened false, .opened true, ⟨true, [root.classFrame.freshBinding "T" (.plain "m.T")]⟩, .opened false]

/-- The variable of the class further out is not seen in the method, and may not be bound there either. -/
theorem lexical_bindings_insideClasses : insideClasses.Lexical framesInsideClasses ∧
    insideClasses.allows "m.T" = false ∧ insideClasses.find? "m.T" = none := by
  have lexical : insideClasses.Lexical framesInsideClasses :=
    .functionFrame (.classFrame (.bindNew "T" (.plain "m.T") (.classFrame .root)))
  obtain ⟨allowedIff, found⟩ := lexical_bindings lexical "m.T"
  refine ⟨lexical, Bool.eq_false_iff.2 fun allowed => ?_, found⟩
  exact allowedIff.1 allowed _ (List.mem_cons_of_mem _ (List.mem_cons_of_mem _ List.mem_cons_self)) _
    (List.mem_singleton_self _) rfl

end Scope

end TypeResolution
