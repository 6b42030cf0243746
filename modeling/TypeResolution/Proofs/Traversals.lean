import TypeResolution.Proofs.EqualForms
import TypeResolution.Ty.Traversal

namespace TypeResolution

namespace Ty

universe u

/-- The types are the same but for their children. -/
inductive SameFrame : Ty → Ty → Prop
  | leaf (t : Ty) (leaf : t.children = []) : SameFrame t t
  | inst (i : Instance) (args : List Ty) : SameFrame (.inst i) (.inst { i with args := args })
  | tuple (shape : TupleShape) (items : List Ty) : SameFrame (.tuple shape) (.tuple { shape with items := items })
  | record (shape : RecordShape) (fields : List (String × Ty))
    (keys : fields.map Prod.fst = shape.fields.map Prod.fst) :
    SameFrame (.record shape) (.record { shape with fields := fields })
  | callable (s : Signature) (args : List Ty) (ret : Ty) :
    SameFrame (.callable s) (.callable { s with args := args, ret := ret })
  | union (ms ns : List Ty) (pos : Position) : SameFrame (.union ms pos) (.union ns pos)
  | classObject (item item' : Ty) (pos : Position) : SameFrame (.classObject item pos) (.classObject item' pos)
  | star (item item' : Ty) (pos : Position) : SameFrame (.star item pos) (.star item' pos)
  | forward (fullname : Option String) (args args' : List Ty) (pos : Position) :
    SameFrame (.forward fullname args pos) (.forward fullname args' pos)
  | named (r : Reference) (args : List Ty) : SameFrame (.named r) (.named { r with args := args })
  | bracketed (items items' : List Ty) (pos : Position) : SameFrame (.bracketed items pos) (.bracketed items' pos)
  | argument (item item' : Ty) (name form : Option String) (pos : Position) :
    SameFrame (.argument item name form pos) (.argument item' name form pos)

theorem sameFrame_withChildren {t : Ty} {cs : List Ty} (sameLength : cs.length = t.children.length) :
    SameFrame t (t.withChildren cs) := by
  cases t with
  | inst i => exact .inst i cs
  | tuple shape => exact .tuple shape cs
  | record shape =>
    have sameCount : cs.length = shape.fields.length := by simpa [children] using sameLength
    exact .record shape _ (zipWith_map_fst shape.fields cs sameCount)
  | callable s => exact .callable s _ _
  | union ms pos => exact .union ms cs pos
  | classObject item pos => exact .classObject item _ pos
  | star item pos => exact .star item _ pos
  | forward fullname args pos => exact .forward fullname args cs pos
  | named r => exact .named r cs
  | bracketed items pos => exact .bracketed items cs pos
  | argument item name form pos => exact .argument item _ name form pos
  | any | noneType | never | deleted | typeVar | literal | ellipsis | scalar => exact .leaf _ rfl

theorem SameFrame.eq_withChildren {t u : Ty} (frame : SameFrame t u) : u = t.withChildren u.children := by
  cases frame with
  | leaf => exact (withChildren_children t).symm
  | record shape fields keys => simp only [withChildren, children, zipWith_keys keys]
  | callable s args ret => simp [withChildren, children]
  | _ => rfl

/-- The frame and the children make a type. -/
theorem eq_withChildren_iff {t u : Ty} {cs : List Ty} (sameLength : cs.length = t.children.length) :
    u = t.withChildren cs ↔ SameFrame t u ∧ u.children = cs := by
  constructor
  · rintro rfl
    exact ⟨sameFrame_withChildren sameLength, children_withChildren t cs sameLength⟩
  · rintro ⟨frame, rfl⟩
    exact frame.eq_withChildren

section

variable {m : Type → Type u} [Monad m] [LawfulMonad m] {α : Type}

theorem mapM_fields (f : Ty → m Ty) (fields : List (String × Ty)) :
    (fields.mapM fun field => do return (field.1, ← f field.2)) =
      fields.zipWith (fun field c => (field.1, c)) <$> (fields.map Prod.snd).mapM f := by
  induction fields with
  | nil => simp
  | cons field fields ih =>
    rw [List.mapM_cons, ih, List.map_cons, List.mapM_cons]
    simp

/-- All children are shown to the function, each once and in order, before they are put in place. -/
theorem updateChildrenM_eq (f : Ty → m Ty) (t : Ty) : t.updateChildrenM f = t.withChildren <$> t.children.mapM f := by
  cases t with
  | inst | tuple | union | forward | named | bracketed => exact bind_pure_comp _ _
  | record shape =>
    refine (bind_pure_comp _ _).trans ?_
    rw [mapM_fields, Functor.map_map]
    rfl
  | callable s => simp [updateChildrenM, withChildren, children]
  | classObject item | star item | argument item => simp [updateChildrenM, withChildren, children]
  | any | noneType | never | deleted | typeVar | literal | ellipsis | scalar =>
    simp [updateChildrenM, withChildren, children]

theorem mapChildrenM_eq (f : Ty → m Ty) (t : Ty) : t.mapChildrenM f = t.rebuild <$> t.children.mapM f := by
  by_cases isUnion : t.isUnion = true
  · cases t with
    | union ms pos => exact bind_pure_comp _ _
    | _ => cases isUnion
  · have same : t.mapChildrenM f = t.updateChildrenM f := by
      cases t with
      | union => exact absurd rfl isUnion
      | _ => rfl
    have sameForm : t.rebuild = t.withChildren := funext (rebuild_of_not_union (Bool.eq_false_iff.2 isUnion))
    rw [same, updateChildrenM_eq, sameForm]

theorem walkQuery_eq (query : Ty → m α) (combine : List α → m α) (t : Ty) :
    t.walkQuery query combine = t.children.mapM query >>= combine := by
  cases t with
  | any | typeVar => simp [walkQuery, children]
  | _ => rfl

/-- The whole walk: the children are walked in turn, and then the type around what was made of them is shown. -/
theorem walkM_eq (f : Ty → m Ty) (t : Ty) : t.walkM f = t.updateChildrenM (walkM f) >>= f := by
  rw [walkM, fold_eq, ← walkM, List.mapM_map, updateChildrenM_eq]
  simp

/-- A query without rules of its own is one fold. -/
theorem walkQuery_fold (query : Ty → m α) (combine : List α → m α) :
    (∀ t, t.walkQuery query combine = query t) ↔ query = fold fun _ parts => parts.mapM id >>= combine := by
  constructor
  · intro default
    funext t
    induction t using inductionOn with
    | step t ih =>
      have parts : t.children.map query = t.children.map (fold fun _ parts => parts.mapM id >>= combine) :=
        List.map_congr_left ih
      rw [fold_eq, ← parts, List.mapM_map, Function.id_comp, ← walkQuery_eq, default t]
  · rintro rfl t
    rw [fold_eq, walkQuery_eq, List.mapM_map, Function.id_comp]

theorem updateChildren_eq (f : Ty → Ty) (t : Ty) : t.updateChildren f = t.withChildren (t.children.map f) := by
  rw [updateChildren, updateChildrenM_eq, List.mapM_pure, map_pure, Id.run_pure]

theorem mapChildren_eq (f : Ty → Ty) (t : Ty) : t.mapChildren f = t.rebuild (t.children.map f) := by
  rw [mapChildren, mapChildrenM_eq, List.mapM_pure, map_pure, Id.run_pure]

/-- All traversals of a type go through its children, from left to right. If they are replaced in place, the type becomes
the one of the same form that has the new children and is the same in everything else. The rebuilt type is that one as well,
but of a union it is the union of the new members, made anew. A query without a rule of its own for the form asks about the
children and combines the answers; without any rules it is a fold of the type. -/
theorem traversals_agree (t : Ty) :
    (∀ f u, u = t.updateChildren f ↔ SameFrame t u ∧ u.children = t.children.map f) ∧
    (∀ f, t.isUnion = false → t.mapChildren f = t.updateChildren f) ∧
    (∀ f ms pos, t = .union ms pos → t.mapChildren f = makeUnion (ms.map f) pos) ∧
    (∀ cs u, cs.length = t.children.length → (u = t.withChildren cs ↔ SameFrame t u ∧ u.children = cs)) ∧
    (∀ f : Ty → m Ty, t.updateChildrenM f = t.withChildren <$> t.children.mapM f) ∧
    (∀ f : Ty → m Ty, t.isUnion = false → t.mapChildrenM f = t.updateChildrenM f) ∧
    (∀ (f : Ty → m Ty) ms pos, t = .union ms pos → t.mapChildrenM f = (makeUnion · pos) <$> ms.mapM f) ∧
    (∀ (query : Ty → m α) combine, t.walkQuery query combine = t.children.mapM query >>= combine) ∧
    (∀ (query : Ty → m α) combine, (∀ u, u.walkQuery query combine = query u) ↔
      query = fold fun _ parts => parts.mapM id >>= combine) := by
  have sameForm (notUnion : t.isUnion = false) : t.rebuild = t.withChildren := funext (rebuild_of_not_union notUnion)
  refine ⟨fun f u => ?updated, fun f notUnion => ?mapped, ?mappedUnion, fun cs u => eq_withChildren_iff,
    (updateChildrenM_eq · t), fun f notUnion => ?mappedInTurn, ?mappedUnionInTurn, (walkQuery_eq · · t), walkQuery_fold⟩
  case updated =>
    rw [updateChildren_eq]
    exact eq_withChildren_iff (List.length_map f)
  case mapped => rw [mapChildren_eq, updateChildren_eq, sameForm notUnion]
  case mappedUnion =>
    rintro f ms pos rfl
    exact mapChildren_eq f _
  case mappedInTurn => rw [mapChildrenM_eq, updateChildrenM_eq, sameForm notUnion]
  case mappedUnionInTurn =>
    rintro f ms pos rfl
    exact mapChildrenM_eq f _

/-- Each child is met once, the result of a callable after its arguments. -/
theorem traversals_agree_callable :
    StateT.run (m := Id) (updateChildrenM (fun c => do modify (· ++ [c]); return error)
        (.callable (.of [.ellipsis .unknown] [.positional] [none] (.noneType .unknown)))) [] =
      (.callable (.of [error] [.positional] [none] error), [.ellipsis .unknown, .noneType .unknown]) := by
  rw [(traversals_agree (m := StateM (List Ty)) (α := Unit) _).2.2.2.2.1]
  rfl

end

end Ty

end TypeResolution
