import Mathlib.Algebra.Group.Nat.Defs
import TypeResolution.Scope

namespace TypeResolution

/-- The id as the 32-bit number in which it is kept. -/
def TypeVarBinding.machineId (binding : TypeVarBinding) : Int32 := .ofInt binding.id

namespace Scope

/-- The frames in which a variable is looked up, from the innermost one outwards. -/
def chain : Scope → List Scope
  | .frame bindings outer hidden ofClass functionIds classIds =>
    .frame bindings outer hidden ofClass functionIds classIds ::
      match outer with
      | some outer => outer.chain
      | none => []
termination_by structural s => s

/-- The bindings in the frames of the chain. -/
def held (s : Scope) : List TypeVarBinding := s.chain.flatMap fun frame => frame.bindings.values

/-- A scope that is reached from the frame of a module by opening frames and by binding `n` variables anew. -/
inductive Numbered : Nat → Scope → Prop
  | root : Numbered 0 root
  | functionFrame {n : Nat} {s : Scope} : Numbered n s → Numbered n s.functionFrame
  | classFrame {n : Nat} {s : Scope} : Numbered n s → Numbered n s.classFrame
  | bindNew {n : Nat} {s : Scope} (name : String) (decl : TypeVarDecl) : Numbered n s →
      Numbered (n + 1) (s.bindNew name decl)

/-- The ids in a frame whose counters went on from those of the frame outside: between the counters then and now, on the
side of its kind. -/
structure CountsOn (own : NameMap TypeVarBinding) (ofClass : Bool) (functionsBefore classesBefore functionIds classIds : Int) :
    Prop where
  down : functionIds ≤ functionsBefore
  up : classesBefore ≤ classIds
  given : ∀ binding ∈ own.values, if ofClass then classesBefore < binding.id ∧ binding.id ≤ classIds
    else functionIds ≤ binding.id ∧ binding.id < functionsBefore
  distinct : own.values.Pairwise fun a b => a.id ≠ b.id

/-- Every frame of the chain counts on from the frame outside of it, and the outermost one from nought. -/
inductive CountsOutwards : Scope → Prop
  | outermost {own : NameMap TypeVarBinding} {hidden : Option Scope} {ofClass : Bool} {functionIds classIds : Int} :
      CountsOn own ofClass 0 0 functionIds classIds →
      CountsOutwards (.frame own none hidden ofClass functionIds classIds)
  | inside {own : NameMap TypeVarBinding} {outer : Scope} {hidden : Option Scope} {ofClass : Bool}
      {functionIds classIds : Int} :
      CountsOutwards outer → CountsOn own ofClass outer.functionIds outer.classIds functionIds classIds →
      CountsOutwards (.frame own (some outer) hidden ofClass functionIds classIds)

theorem countsOn_empty (ofClass : Bool) (functionIds classIds : Int) :
    CountsOn .empty ofClass functionIds classIds functionIds classIds where
  down := Int.le_refl functionIds
  up := Int.le_refl classIds
  given _ member := nomatch member
  distinct := .nil

namespace CountsOn

variable {own : NameMap TypeVarBinding} {ofClass : Bool} {functionsBefore classesBefore functionIds classIds : Int}

/-- Whatever the kind of the frame, its ids lie between its counters and beyond those of the frame outside. -/
theorem beyond (counts : CountsOn own ofClass functionsBefore classesBefore functionIds classIds) {binding : TypeVarBinding}
    (member : binding ∈ own.values) :
    functionIds ≤ binding.id ∧ binding.id < functionsBefore ∨ classesBefore < binding.id ∧ binding.id ≤ classIds := by
  have given := counts.given binding member
  split at given
  · exact .inr given
  · exact .inl given

/-- The next id lies beyond all ids of its side. -/
theorem bind (counts : CountsOn own ofClass functionsBefore classesBefore functionIds classIds) (name : String)
    {binding : TypeVarBinding} (next : binding.id = if ofClass then classIds + 1 else functionIds - 1) :
    CountsOn (own.insert name binding) ofClass functionsBefore classesBefore
      (if ofClass then functionIds else binding.id) (if ofClass then binding.id else classIds) := by
  obtain ⟨down, up, given, distinct⟩ := counts
  have values (x : TypeVarBinding) (member : x ∈ (own.insert name binding).values) :=
    (NameMap.mem_values_insert member).imp_right (given x)
  cases ofClass with
  | true =>
    simp only [if_true] at next given values ⊢
    refine ⟨down, by omega, fun x member => ?_, NameMap.pairwise_values_insert (fun _ _ => Ne.symm) distinct name ?_⟩
    · rcases values x member with rfl | range <;> simp only [if_true] <;> omega
    · intro x member
      have range := given x member
      omega
  | false =>
    simp only [Bool.false_eq_true, if_false] at next given values ⊢
    refine ⟨by omega, up, fun x member => ?_, NameMap.pairwise_values_insert (fun _ _ => Ne.symm) distinct name ?_⟩
    · rcases values x member with rfl | range <;> simp only [Bool.false_eq_true, if_false] <;> omega
    · intro x member
      have range := given x member
      omega

end CountsOn

theorem CountsOutwards.openFrame {outer : Option Scope} (counts : ∀ s, outer = some s → s.CountsOutwards)
    (hidden : Option Scope) (ofClass : Bool) : (Scope.openFrame outer hidden ofClass).CountsOutwards := by
  cases outer with
  | none => exact .outermost (countsOn_empty ofClass 0 0)
  | some outer => exact .inside (counts outer rfl) (countsOn_empty ofClass outer.functionIds outer.classIds)

/-- On the way outwards to the nearest function the counters go back. -/
theorem CountsOutwards.nearestFunction {s outer : Scope} (counts : s.CountsOutwards)
    (found : s.nearestFunction = some outer) :
    outer.CountsOutwards ∧ s.functionIds ≤ outer.functionIds ∧ outer.classIds ≤ s.classIds := by
  induction counts with
  | @outermost _ _ ofClass _ _ own =>
    cases ofClass with
    | true => cases found
    | false =>
      cases found
      exact ⟨.outermost own, Int.le_refl _, Int.le_refl _⟩
  | @inside _ _ _ ofClass _ _ outside own ih =>
    cases ofClass with
    | true =>
      obtain ⟨counts, functions, classes⟩ := ih found
      exact ⟨counts, Int.le_trans own.down functions, Int.le_trans classes own.up⟩
    | false =>
      cases found
      exact ⟨.inside outside own, Int.le_refl _, Int.le_refl _⟩

theorem CountsOutwards.bindNew {s : Scope} (counts : s.CountsOutwards) (name : String) (decl : TypeVarDecl) :
    (s.bindNew name decl).CountsOutwards := by
  cases counts with
  | outermost own => exact .outermost (own.bind decl.fullname rfl)
  | inside outside own => exact .inside outside (own.bind decl.fullname rfl)

theorem counters_openFrame (outer hidden : Option Scope) (ofClass : Bool) :
    (Scope.openFrame outer hidden ofClass).functionIds = (outer.map functionIds).getD 0 ∧
    (Scope.openFrame outer hidden ofClass).classIds = (outer.map classIds).getD 0 := ⟨rfl, rfl⟩

theorem counters_bindNew (s : Scope) (name : String) (decl : TypeVarDecl) :
    (s.bindNew name decl).functionIds = (if s.isClass then s.functionIds else s.functionIds - 1) ∧
    (s.bindNew name decl).classIds = if s.isClass then s.classIds + 1 else s.classIds := by
  cases s with
  | frame _ _ _ ofClass => cases ofClass <;> exact ⟨rfl, rfl⟩

/-- With `n` variables bound the counters of a scope are no further than `n` from nought. -/
theorem Numbered.counts {n : Nat} {s : Scope} (numbered : Numbered n s) :
    s.CountsOutwards ∧ -n ≤ s.functionIds ∧ s.classIds ≤ n := by
  induction numbered with
  | root => exact ⟨.outermost (countsOn_empty false 0 0), Int.le_refl 0, Int.le_refl 0⟩
  | functionFrame _ ih =>
    obtain ⟨counts, functions, classes⟩ := ih
    exact ⟨.openFrame (fun _ same => Option.some.inj same ▸ counts) none false, functions, classes⟩
  | @classFrame n s _ ih =>
    obtain ⟨counts, functions, classes⟩ := ih
    refine ⟨.openFrame (fun outer found => (counts.nearestFunction found).1) (some s) true, ?_⟩
    rw [Scope.classFrame, (counters_openFrame _ _ _).1, (counters_openFrame _ _ _).2]
    cases found : s.nearestFunction with
    | none => exact ⟨by simp, by simp⟩
    | some outer =>
      have back := (counts.nearestFunction found).2
      exact ⟨Int.le_trans functions back.1, Int.le_trans back.2 classes⟩
  | @bindNew n s name decl _ ih =>
    obtain ⟨counts, functions, classes⟩ := ih
    refine ⟨counts.bindNew name decl, ?_⟩
    rw [(counters_bindNew s name decl).1, (counters_bindNew s name decl).2]
    split <;> omega

theorem held_outermost (own : NameMap TypeVarBinding) (hidden : Option Scope) (ofClass : Bool)
    (functionIds classIds : Int) : (Scope.frame own none hidden ofClass functionIds classIds).held = own.values := by
  simp [held, chain, bindings]

theorem held_inside (own : NameMap TypeVarBinding) (outer : Scope) (hidden : Option Scope) (ofClass : Bool)
    (functionIds classIds : Int) :
    (Scope.frame own (some outer) hidden ofClass functionIds classIds).held = own.values ++ outer.held := by
  simp [held, chain, bindings]

namespace CountsOutwards

/-- The ids on the chain lie between the counters of the innermost frame, nought left out. -/
theorem held_between {s : Scope} (counts : s.CountsOutwards) :
    s.functionIds ≤ 0 ∧ 0 ≤ s.classIds ∧ ∀ binding ∈ s.held,
      s.functionIds ≤ binding.id ∧ binding.id ≤ s.classIds ∧ binding.id ≠ 0 := by
  induction counts with
  | @outermost _ _ _ functionIds classIds own =>
    refine ⟨own.down, own.up, fun binding member => ?_⟩
    rw [held_outermost] at member
    have beyond := own.beyond member
    have down := own.down
    have up := own.up
    show functionIds ≤ binding.id ∧ binding.id ≤ classIds ∧ binding.id ≠ 0
    omega
  | @inside _ _ _ _ functionIds classIds outside own ih =>
    obtain ⟨functions, classes, held⟩ := ih
    refine ⟨Int.le_trans own.down functions, Int.le_trans classes own.up, fun binding member => ?_⟩
    rw [held_inside] at member
    have beyond := (List.mem_append.1 member).imp own.beyond (held binding)
    have down := own.down
    have up := own.up
    show functionIds ≤ binding.id ∧ binding.id ≤ classIds ∧ binding.id ≠ 0
    omega

/-- No two ids on the chain are the same. -/
theorem held_distinct {s : Scope} (counts : s.CountsOutwards) : s.held.Pairwise fun a b => a.id ≠ b.id := by
  induction counts with
  | outermost own =>
    rw [held_outermost]
    exact own.distinct
  | inside outside own ih =>
    rw [held_inside]
    refine List.pairwise_append.2 ⟨own.distinct, ih, fun a atOwn b atOuter => ?_⟩
    have beyond := own.beyond atOwn
    obtain ⟨functions, classes, held⟩ := outside.held_between
    have between := held b atOuter
    omega

/-- Classes give positive ids and functions negative ones. -/
theorem sign {s : Scope} (counts : s.CountsOutwards) : ∀ frame ∈ s.chain, ∀ binding ∈ frame.bindings.values,
    if frame.isClass then 0 < binding.id else binding.id < 0 := by
  have own {own : NameMap TypeVarBinding} {ofClass : Bool} {functionsBefore classesBefore functionIds classIds : Int}
      (counts : CountsOn own ofClass functionsBefore classesBefore functionIds classIds) (functions : functionsBefore ≤ 0)
      (classes : 0 ≤ classesBefore) : ∀ binding ∈ own.values, if ofClass then 0 < binding.id else binding.id < 0 := by
    intro binding member
    have given := counts.given binding member
    split at given <;> simp only [*, if_true, Bool.false_eq_true, if_false] <;> omega
  induction counts with
  | outermost counts =>
    intro frame member
    rw [chain, List.mem_singleton] at member
    rw [member]
    exact own counts (Int.le_refl 0) (Int.le_refl 0)
  | inside outside counts ih =>
    intro frame member
    rw [chain, List.mem_cons] at member
    rcases member with rfl | member
    · exact own counts outside.held_between.1 outside.held_between.2.1
    · exact ih frame member

end CountsOutwards

/-- The ids of the type variables on a chain of scopes do not collide, and neither does the next one. With fewer than
2^31 variables bound no id that is held leaves the 32-bit range; the next one may, and then it is still none of them. -/
theorem ids_apart {n : Nat} {s : Scope} (numbered : Numbered n s) (few : n < 2 ^ 31) :
    (∀ frame ∈ s.chain, ∀ binding ∈ frame.bindings.values, if frame.isClass then 0 < binding.id else binding.id < 0) ∧
    s.held.Pairwise (fun a b => a.id ≠ b.id) ∧ (∀ binding ∈ s.held, binding.machineId.toInt = binding.id) ∧
    ∀ name decl, ∀ binding ∈ s.held, (s.freshBinding name decl).machineId ≠ binding.machineId := by
  obtain ⟨counts, functions, classes⟩ := numbered.counts
  have between := counts.held_between
  have machine : ∀ binding ∈ s.held, binding.machineId.toInt = binding.id := by
    intro binding member
    have range := between.2.2 binding member
    exact Int32.toInt_ofInt_of_le (by omega) (by omega)
  refine ⟨counts.sign, counts.held_distinct, machine, fun name decl binding member collide => ?_⟩
  have range := between.2.2 binding member
  have next : (s.freshBinding name decl).id = if s.isClass then s.classIds + 1 else s.functionIds - 1 := rfl
  have same := congrArg Int32.toInt collide
  rw [machine binding member, TypeVarBinding.machineId, Int32.toInt_ofInt, next, Int32.size, Int.bmod_def] at same
  cases isClass : s.isClass with
  | true =>
    rw [isClass, if_pos rfl] at same
    omega
  | false =>
    rw [isClass, if_neg Bool.false_ne_true] at same
    omega

/-- A method of a class, with variables that the module, the class and the method bind. -/
def methodOfClass : Scope :=
  ((root.bindNew "T" (.plain "m.T")).classFrame.bindNew "S" (.plain "m.S")).functionFrame.bindNew "U" (.plain "m.U")

theorem ids_apart_methodOfClass : Numbered 3 methodOfClass ∧ methodOfClass.held.map (·.id) = [-2, 1, -1] ∧
    methodOfClass.held.Pairwise (fun a b => a.id ≠ b.id) ∧
    ∀ name decl, ∀ binding ∈ methodOfClass.held,
      (methodOfClass.freshBinding name decl).machineId ≠ binding.machineId := by
  have numbered : Numbered 3 methodOfClass :=
    .bindNew "U" (.plain "m.U") (.functionFrame (.bindNew "S" (.plain "m.S") (.classFrame (.bindNew "T" (.plain "m.T") .root))))
  obtain ⟨_, distinct, _, fresh⟩ := ids_apart numbered (by decide)
  exact ⟨numbered, rfl, distinct, fresh⟩

end Scope

end TypeResolution
