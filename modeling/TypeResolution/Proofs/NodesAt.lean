import Mathlib.Data.List.Perm.Basic
import TypeResolution.Proofs.NestedSubstitution

namespace TypeResolution

/-- Nested loops may be exchanged. -/
theorem flatMap_flatMap_perm {α β γ : Type} (xs : List α) (ys : List β) (f : α → β → List γ) :
    (xs.flatMap fun x => ys.flatMap (f x)).Perm (ys.flatMap fun y => xs.flatMap (f · y)) := by
  induction xs with
  | nil => simp
  | cons x xs ih =>
    simp only [List.flatMap_cons]
    exact (ih.append_left _).trans (List.flatMap_append_perm ys (f x) _)

namespace Ty

/-- The types that stand so many levels below a type, one for each place, where only types that are opened are entered. -/
def nodesAt (opened : Ty → Bool) : Nat → Ty → List Ty
  | 0, t => [t]
  | n + 1, t => if opened t then t.children.flatMap (nodesAt opened n) else []

/-- The types that stand less than so many levels below a type, one for each place. -/
def nodesAbove (limit : Nat) (t : Ty) : List Ty := (List.range limit).flatMap fun n => t.nodesAt (fun _ => true) n

variable {opened : Ty → Bool}

theorem mem_nodesAt_succ {x t : Ty} {n : Nat} :
    x ∈ t.nodesAt opened (n + 1) ↔ opened t = true ∧ ∃ c ∈ t.children, x ∈ c.nodesAt opened n := by
  rw [nodesAt]
  split
  · rename_i entered
    simp [entered, List.mem_flatMap]
  · rename_i closed
    simp [closed]

theorem inside_of_mem_nodesAt {x t : Ty} {n : Nat} (member : x ∈ t.nodesAt opened n) : Inside x t := by
  induction n generalizing t with
  | zero =>
    rw [List.mem_singleton.1 member]
    exact .here
  | succ n ih =>
    obtain ⟨_, c, atChild, member⟩ := mem_nodesAt_succ.1 member
    exact .child atChild (ih member)

theorem inside_of_mem_nodesAbove {x t : Ty} {limit : Nat} (member : x ∈ t.nodesAbove limit) : Inside x t := by
  obtain ⟨n, _, member⟩ := List.mem_flatMap.1 member
  exact inside_of_mem_nodesAt member

/-- A type is at least as high as what stands below it is deep and high. -/
theorem height_of_mem_nodesAt {x t : Ty} {n : Nat} (member : x ∈ t.nodesAt opened n) : x.height + n ≤ t.height := by
  induction n generalizing t with
  | zero =>
    rw [List.mem_singleton.1 member]
    exact Nat.le_refl _
  | succ n ih =>
    obtain ⟨_, c, atChild, member⟩ := mem_nodesAt_succ.1 member
    have below := ih member
    have lower := height_child_lt atChild
    omega

/-- Above the limit stand the type itself and what stands above the limit in its parts. -/
theorem nodesAbove_succ (limit : Nat) (t : Ty) :
    (t.nodesAbove (limit + 1)).Perm (t :: t.children.flatMap (nodesAbove limit)) := by
  rw [nodesAbove, List.range_succ_eq_map, List.flatMap_cons, List.flatMap_map]
  exact .cons t (flatMap_flatMap_perm (List.range limit) t.children fun n c => c.nodesAt (fun _ => true) n)

end Ty

end TypeResolution
