import TypeResolution.Proofs.AliasDepth
import TypeResolution.Proofs.NodesAt

namespace TypeResolution

namespace Ty

/-- The type is a name or a variable called like one of the formals. -/
def isFormal (formals : List String) (t : Ty) : Bool := t.formalName?.any fun name => formals.contains name

theorem isFormal_eq_false_iff {formals : List String} {t : Ty} :
    t.isFormal formals = false ↔ ∀ name, t.formalName? = some name → name ∉ formals := by
  unfold isFormal
  cases named : t.formalName? with
  | none => simp
  | some name => simp

theorem isFormal_withChildren (formals : List String) (t : Ty) (cs : List Ty) :
    (t.withChildren cs).isFormal formals = t.isFormal formals := by
  rw [isFormal, formalName?_withChildren, isFormal]

theorem isFormal_withPos (formals : List String) (t : Ty) (pos : Position) :
    (t.withPos pos).isFormal formals = t.isFormal formals := by
  cases t <;> rfl

theorem formalFree_inherited (formals : List String) :
    Inherited (·.isFormal formals = false) (Everywhere (·.isFormal formals = false)) := by
  refine .everywhere id (fun {t} composed => ?_) (fun {t} cs notFormal => ?_) fun {t} pos notFormal => ?_
  · cases t <;> first | rfl | cases composed
  · exact (isFormal_withChildren formals t cs).trans notFormal
  · exact (isFormal_withPos formals t pos).trans notFormal

end Ty

/-- Something is buried in a type if a type with parts of its own stands at the limit, outside of the formals. -/
theorem AliasDecl.buries_iff {a : AliasDecl} {t : Ty} {depth : Nat} (within : depth ≤ maxSubstitutionDepth) :
    a.Buries t depth ↔ ∃ x ∈ t.nodesAt (!·.isFormal a.formals) (maxSubstitutionDepth - depth),
      x.isFormal a.formals = false ∧ x.children ≠ [] := by
  constructor
  · intro buries
    induction buries with
    | @here t depth notFormal notLeaf deep =>
      rw [Nat.le_antisymm within deep, Nat.sub_self]
      exact ⟨t, List.mem_singleton_self t, Ty.isFormal_eq_false_iff.2 notFormal, notLeaf⟩
    | @inside t c depth notFormal member _ ih =>
      have notFormal := Ty.isFormal_eq_false_iff.2 notFormal
      -- below the limit what is buried may stand anywhere, but the way to it leads through a type at the limit
      rcases Nat.eq_or_lt_of_le within with atLimit | above
      · rw [atLimit, Nat.sub_self]
        exact ⟨t, List.mem_singleton_self t, notFormal, List.ne_nil_of_mem member⟩
      · obtain ⟨x, deep, found⟩ := ih above
        refine ⟨x, ?_, found⟩
        rw [show maxSubstitutionDepth - depth = maxSubstitutionDepth - (depth + 1) + 1 by omega, Ty.mem_nodesAt_succ]
        exact ⟨by simp [notFormal], c, member, deep⟩
  · rintro ⟨x, member, notFormal, notLeaf⟩
    obtain ⟨left, counted⟩ : ∃ left, maxSubstitutionDepth - depth = left := ⟨_, rfl⟩
    rw [counted] at member
    induction left generalizing t depth with
    | zero =>
      rw [List.mem_singleton.1 member] at notFormal notLeaf
      exact .here (Ty.isFormal_eq_false_iff.1 notFormal) notLeaf (by omega)
    | succ left ih =>
      obtain ⟨entered, c, atChild, member⟩ := Ty.mem_nodesAt_succ.1 member
      refine .inside (Ty.isFormal_eq_false_iff.1 (by simpa using entered)) atChild (ih ?_ member ?_)
      · omega
      · omega

variable {formals : List String} {values : List Ty}

/-- No formal is left in a type, whether or not something of it is cut off. -/
theorem substitute_formalFree (sameNumber : values.length = formals.length)
    (given : ∀ v ∈ values, v.Everywhere (·.isFormal formals = false)) (t : Ty) (pos : Position) :
    (substitute t formals values pos).1.Everywhere (·.isFormal formals = false) := by
  refine (Ty.formalFree_inherited formals).substituteAt given (fun x _ => ?_) 0
  by_cases notFormal : x.isFormal formals = false
  · exact .inl notFormal
  · obtain ⟨name, named, member⟩ : ∃ name, x.formalName? = some name ∧ name ∈ formals := by
      simpa [Ty.isFormal, Option.any_eq_true] using notFormal
    exact .inr (substitute?_isSome sameNumber named member)

/-- Nothing is cut off exactly if what stands at the limit, outside of the formals, are formals and types without parts. -/
theorem substitute_uncut_iff (sameNumber : values.length = formals.length) (t : Ty) (pos : Position) :
    (substituteAt formals values pos t 0).2 = false ↔
      ∀ x ∈ t.nodesAt (!·.isFormal formals) maxSubstitutionDepth, x.isFormal formals = true ∨ x.children = [] := by
  let a : AliasDecl := ⟨"", t, formals, false, []⟩
  have cut : (substituteAt formals values pos t 0).2 = true ↔ a.Buries t 0 :=
    AliasDecl.substituteAt_cut_iff (a := a) sameNumber t 0
  rw [← Bool.not_eq_true, cut, AliasDecl.buries_iff (Nat.zero_le _)]
  simp only [not_exists, not_and, not_not, Nat.sub_zero]
  refine forall₂_congr fun x _ => ?_
  cases x.isFormal formals <;> simp

/-- A substitution puts the values in the places of the formals, all at once. If the values mention no formal, none is
left. As long as no type with parts, outside of the formals, stands at the limit, the result is that of the
substitution without a limit; otherwise one error is reported, whatever was cut off. -/
theorem substitute_exact (sameNumber : values.length = formals.length) (t : Ty) (pos : Position) :
    ((∀ v ∈ values, v.Everywhere (·.isFormal formals = false)) →
      (substitute t formals values pos).1.Everywhere (·.isFormal formals = false)) ∧
    ((∀ x ∈ t.nodesAt (!·.isFormal formals) maxSubstitutionDepth, x.isFormal formals = true ∨ x.children = []) →
      substitute t formals values pos = (replaceFormals formals values pos t, [])) ∧
    ((¬ ∀ x ∈ t.nodesAt (!·.isFormal formals) maxSubstitutionDepth, x.isFormal formals = true ∨ x.children = []) →
      (substitute t formals values pos).2 = [⟨pos, .cutOff⟩]) := by
  refine ⟨fun given => substitute_formalFree sameNumber given t pos, ?_, ?_⟩
  · intro shallow
    have uncut := (substitute_uncut_iff sameNumber t pos).2 shallow
    simp [substitute, uncut, substituteAt_uncut uncut]
  · intro deep
    have cut : (substituteAt formals values pos t 0).2 = true := by
      rw [← Bool.not_eq_false]
      exact fun uncut => deep ((substitute_uncut_iff sameNumber t pos).1 uncut)
    simp [substitute, cut]

open Resolver in
set_option maxRecDepth 8000 in
/-- A `T` in 128 boxes stands at the limit and is replaced; in one box more it is cut off. -/
theorem substitute_exact_boxes :
    substitute (Boxes (.named (.of "T" [])) 128) ["T"] [.noneType .unknown] ⟨3, 0⟩ =
      (replaceFormals ["T"] [.noneType .unknown] ⟨3, 0⟩ (Boxes (.named (.of "T" [])) 128), []) ∧
    (substitute (Boxes (.named (.of "T" [])) 129) ["T"] [.noneType .unknown] ⟨3, 0⟩).2 = [⟨⟨3, 0⟩, .cutOff⟩] :=
  ⟨(substitute_exact rfl _ _).2.1 (by decide +kernel), (substitute_exact rfl _ _).2.2 (by decide +kernel)⟩

end TypeResolution
