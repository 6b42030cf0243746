import TypeResolution.Ty.Basic

namespace TypeResolution

universe u

namespace Ty

/-- The types directly inside a type. Fallbacks, the bounds of type variables and known values are
no children: they are complete when the type is made. -/
def children : Ty → List Ty
  | inst i => i.args
  | tuple t => t.items
  | record r => r.fields.map Prod.snd
  | callable s => s.args ++ [s.ret]
  | union members _ => members
  | classObject item _ | star item _ | argument item _ _ _ => [item]
  | forward _ args _ => args
  | named r => r.args
  | bracketed items _ => items
  | any .. | noneType _ | never .. | deleted .. | typeVar .. | literal _ | ellipsis _ | scalar .. => []

/-- The same form around other children, of which there must be as many. -/
def withChildren (t : Ty) (cs : List Ty) : Ty :=
  match t with
  | inst i => .inst { i with args := cs }
  | tuple t => .tuple { t with items := cs }
  | record r => .record { r with fields := r.fields.zipWith (fun field c => (field.1, c)) cs }
  | callable s => .callable { s with args := cs.dropLast, ret := cs.getLast?.getD s.ret }
  | union _ pos => .union cs pos
  | classObject item pos => .classObject (cs.head?.getD item) pos
  | star item pos => .star (cs.head?.getD item) pos
  | argument item name form pos => .argument (cs.head?.getD item) name form pos
  | forward fullname _ pos => .forward fullname cs pos
  | named r => .named (r.withArgs cs)
  | bracketed _ pos => .bracketed cs pos
  | any .. | noneType _ | never .. | deleted .. | typeVar .. | literal _ | ellipsis _ | scalar .. => t

theorem zipWith_map_snd (fields : List (String × Ty)) (cs : List Ty) (sameLength : cs.length = fields.length) :
    (fields.zipWith (fun field c => (field.1, c)) cs).map Prod.snd = cs := by
  induction cs generalizing fields with
  | nil => simp
  | cons c cs ih =>
    cases fields with
    | nil => simp at sameLength
    | cons field fields => simp [ih fields (by simpa using sameLength)]

theorem zipWith_map_fst (fields : List (String × Ty)) (cs : List Ty) (sameLength : cs.length = fields.length) :
    (fields.zipWith (fun field c => (field.1, c)) cs).map Prod.fst = fields.map Prod.fst := by
  induction cs generalizing fields with
  | nil => simp [List.length_eq_zero_iff.1 sameLength.symm]
  | cons c cs ih =>
    cases fields with
    | nil => simp at sameLength
    | cons field fields => simp [ih fields (by simpa using sameLength)]

/-- The keys and the values make the fields. -/
theorem zipWith_keys {fields fields' : List (String × Ty)} (keys : fields'.map Prod.fst = fields.map Prod.fst) :
    fields.zipWith (fun field c => (field.1, c)) (fields'.map Prod.snd) = fields' := by
  induction fields' generalizing fields with
  | nil => simp
  | cons field' fields' ih =>
    match fields, keys with
    | field :: fields, keys =>
      obtain ⟨here, rest⟩ := List.cons.inj keys
      simp [ih rest, ← here]

theorem children_withChildren (t : Ty) (cs : List Ty) (sameLength : cs.length = t.children.length) :
    (t.withChildren cs).children = cs := by
  cases t with
  | record r => exact zipWith_map_snd r.fields cs (by simpa [children] using sameLength)
  | callable s =>
    have notEmpty : cs ≠ [] := by
      rintro rfl
      simp [children] at sameLength
    simp [withChildren, children, List.getLast?_eq_some_getLast notEmpty, List.dropLast_concat_getLast]
  | classObject | star | argument =>
    match cs, sameLength with
    | [c], _ => rfl
  | any | noneType | never | deleted | typeVar | literal | ellipsis | scalar =>
    simp only [children, List.length_nil, List.length_eq_zero_iff] at sameLength
    simp [withChildren, children, sameLength]
  | _ => rfl

mutual
/-- Folds a type from its leaves: `f` is given a type and what was made of its children. -/
def fold {α : Type u} (f : Ty → List α → α) : Ty → α
  | .inst ⟨head, args, invalid, lastKnown, pos⟩ =>
    f (.inst ⟨head, args, invalid, lastKnown, pos⟩) (foldList f args)
  | .tuple ⟨items, fallback, implicit, pos⟩ =>
    f (.tuple ⟨items, fallback, implicit, pos⟩) (foldList f items)
  | .record ⟨fields, required, fallback, pos⟩ =>
    f (.record ⟨fields, required, fallback, pos⟩) (foldFields f fields)
  | .callable ⟨args, kinds, names, ret, fallback, bindings, anyArgs, pos⟩ =>
    f (.callable ⟨args, kinds, names, ret, fallback, bindings, anyArgs, pos⟩)
      (foldList f args ++ [fold f ret])
  | .union members pos => f (.union members pos) (foldList f members)
  | .classObject item pos => f (.classObject item pos) [fold f item]
  | .star item pos => f (.star item pos) [fold f item]
  | .argument item name form pos => f (.argument item name form pos) [fold f item]
  | .forward fullname args pos => f (.forward fullname args pos) (foldList f args)
  | .named ⟨name, args, optional, emptyTuple, quoted, quotedClass, pos⟩ =>
    f (.named ⟨name, args, optional, emptyTuple, quoted, quotedClass, pos⟩) (foldList f args)
  | .bracketed items pos => f (.bracketed items pos) (foldList f items)
  | .any origin missing pos => f (.any origin missing pos) []
  | .noneType pos => f (.noneType pos) []
  | .never noReturn pos => f (.never noReturn pos) []
  | .deleted source pos => f (.deleted source pos) []
  | .typeVar binding pos => f (.typeVar binding pos) []
  | .literal lit => f (.literal lit) []
  | .ellipsis pos => f (.ellipsis pos) []
  | .scalar value className note pos => f (.scalar value className note pos) []
termination_by structural t => t

def foldList {α : Type u} (f : Ty → List α → α) : List Ty → List α
  | [] => []
  | t :: ts => fold f t :: foldList f ts
termination_by structural ts => ts

def foldFields {α : Type u} (f : Ty → List α → α) : List (String × Ty) → List α
  | [] => []
  | (_, t) :: fields => fold f t :: foldFields f fields
termination_by structural fields => fields
end

theorem foldList_eq {α : Type u} (f : Ty → List α → α) (ts : List Ty) :
    foldList f ts = ts.map (fold f) := by
  induction ts with
  | nil => rfl
  | cons t ts ih => simp [foldList, ih]

theorem foldFields_eq {α : Type u} (f : Ty → List α → α) (fields : List (String × Ty)) :
    foldFields f fields = fields.map fun field => fold f field.2 := by
  induction fields with
  | nil => rfl
  | cons field fields ih => simp [foldFields, ih]

theorem fold_eq {α : Type u} (f : Ty → List α → α) (t : Ty) :
    fold f t = f t (t.children.map (fold f)) := by
  cases t with
  | inst i => cases i; simp [fold, children, foldList_eq]
  | tuple t => cases t; simp [fold, children, foldList_eq]
  | record r => cases r; simp [fold, children, foldFields_eq, Function.comp_def]
  | callable s => cases s; simp [fold, children, foldList_eq]
  | named r => cases r; simp [fold, children, foldList_eq]
  | _ => simp [fold, children, foldList_eq]

mutual
/-- What holds of a type whenever it holds of the children holds of all types. -/
theorem inductionOn {P : Ty → Prop} (step : ∀ t, (∀ c ∈ t.children, P c) → P t) : ∀ t, P t
  | .inst ⟨_, args, _, _, _⟩ => step _ (inductionOnList step args)
  | .tuple ⟨items, _, _, _⟩ => step _ (inductionOnList step items)
  | .record ⟨fields, _, _, _⟩ => step _ (inductionOnFields step fields)
  | .callable ⟨args, _, _, ret, _, _, _, _⟩ => step _ (by
      have inArgs := inductionOnList step args
      have atRet := inductionOn step ret
      intro c member
      rcases List.mem_append.1 member with member | member
      · exact inArgs c member
      · exact List.mem_singleton.1 member ▸ atRet)
  | .union members _ => step _ (inductionOnList step members)
  | .classObject item pos => step (.classObject item pos) (by
      have atItem := inductionOn step item
      intro c member
      exact List.mem_singleton.1 member ▸ atItem)
  | .star item pos => step (.star item pos) (by
      have atItem := inductionOn step item
      intro c member
      exact List.mem_singleton.1 member ▸ atItem)
  | .argument item name form pos => step (.argument item name form pos) (by
      have atItem := inductionOn step item
      intro c member
      exact List.mem_singleton.1 member ▸ atItem)
  | .forward _ args _ => step _ (inductionOnList step args)
  | .named ⟨_, args, _, _, _, _, _⟩ => step _ (inductionOnList step args)
  | .bracketed items _ => step _ (inductionOnList step items)
  | .any .. | .noneType _ | .never .. | .deleted .. | .typeVar .. | .literal _ | .ellipsis _ | .scalar .. =>
    step _ (fun _ member => nomatch member)
termination_by structural t => t

theorem inductionOnList {P : Ty → Prop} (step : ∀ t, (∀ c ∈ t.children, P c) → P t) :
    ∀ ts : List Ty, ∀ t ∈ ts, P t
  | [] => fun _ member => nomatch member
  | t :: ts => by
    have atHead := inductionOn step t
    have inTail := inductionOnList step ts
    intro c member
    rcases List.mem_cons.1 member with rfl | member
    · exact atHead
    · exact inTail c member
termination_by structural ts => ts

theorem inductionOnFields {P : Ty → Prop} (step : ∀ t, (∀ c ∈ t.children, P c) → P t) :
    ∀ fields : List (String × Ty), ∀ t ∈ fields.map Prod.snd, P t
  | [] => fun _ member => nomatch member
  | (_, t) :: fields => by
    have atHead := inductionOn step t
    have inTail := inductionOnFields step fields
    intro c member
    rcases List.mem_cons.1 member with rfl | member
    · exact atHead
    · exact inTail c member
termination_by structural fields => fields
end

end Ty

end TypeResolution
