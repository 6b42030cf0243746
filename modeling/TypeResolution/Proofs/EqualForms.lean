import TypeResolution.Proofs.SameTypes

namespace TypeResolution

namespace Ty

/-- What equal types share holds everywhere in one if it does in the other. -/
theorem Everywhere.of_equal {P : Ty → Prop} (shared : ∀ a b : Ty, a ≈ b → P a → P b) {a b : Ty} (equal : a ≈ b)
    (all : a.Everywhere P) : b.Everywhere P := by
  induction b using inductionOn generalizing a with
  | step b ih =>
    refine everywhere_iff.2 ⟨shared a b equal all.root, fun d member => ?_⟩
    obtain ⟨c, atSource, equal⟩ := child_of_beq equal member
    exact ih d member equal (all.child atSource)

theorem withChildren_children (t : Ty) : t.withChildren t.children = t := by
  cases t with
  | record shape =>
    cases shape
    simp only [withChildren, children, zipWith_keys rfl]
  | callable s => cases s; simp [withChildren, children]
  | inst i => cases i; rfl
  | tuple shape => cases shape; rfl
  | named ref => cases ref; rfl
  | _ => rfl

theorem withPos_equal (t : Ty) (pos : Position) : t.withPos pos ≈ t := by
  have same : t.beq t = true := Setoid.refl t
  cases t with
  | inst i => cases i; exact same
  | tuple shape => cases shape; exact same
  | record shape => cases shape; exact same
  | callable s => cases s; exact same
  | literal l => cases l; exact same
  | named ref => cases ref; exact same
  | _ => exact same

theorem withPos_congr {a b : Ty} (equal : a ≈ b) (p q : Position) : a.withPos p ≈ b.withPos q :=
  Setoid.trans (a.withPos_equal p) (Setoid.trans equal (Setoid.symm (b.withPos_equal q)))

/-- The same form around equal children. -/
theorem withChildren_congr (t : Ty) {cs ds : List Ty} (related : List.Forall₂ (· ≈ ·) cs ds)
    (sameLength : cs.length = t.children.length) : t.withChildren cs ≈ t.withChildren ds := by
  have same := Setoid.refl t
  refine Matches.beq ?_
  cases t with
  | inst i =>
    have known := (Instance.beq_iff.1 (show i.beq i = true from same)).2.2
    exact .inst (Instance.beq_iff.2 ⟨rfl, related, known⟩)
  | tuple shape =>
    cases matches_of_beq same with
    | tuple _ fallback => exact .tuple related fallback
  | record shape =>
    cases matches_of_beq same with
    | record _ _ _ _ fallback =>
      have fields (fs : List (String × Ty)) (cs ds : List Ty) (related : List.Forall₂ (· ≈ ·) cs ds) :
          List.Forall₂ (fun x y : String × Ty => x.1 = y.1 ∧ x.2 ≈ y.2) (fs.zipWith (fun field c => (field.1, c)) cs)
            (fs.zipWith (fun field c => (field.1, c)) ds) := by
        induction related generalizing fs with
        | nil => cases fs <;> exact .nil
        | cons here _ ih =>
          cases fs with
          | nil => exact .nil
          | cons f fs => exact .cons ⟨rfl, here⟩ (ih fs)
      exact matches_of_beq (record_congr (fields shape.fields cs ds related) shape.required fallback shape.pos shape.pos)
  | callable s =>
    have inArgs : List.Forall₂ (fun x y => x.beq y = true) cs.dropLast ds.dropLast := by
      rw [List.dropLast_eq_take, List.dropLast_eq_take, related.length_eq]
      exact List.forall₂_take _ related
    have atRet : (cs.getLast?.getD s.ret).beq (ds.getLast?.getD s.ret) = true := by
      have last := List.rel_reverse related
      simp only [List.getLast?_eq_head?_reverse]
      generalize cs.reverse = xs, ds.reverse = ys at last
      cases last with
      | nil => exact Setoid.refl s.ret
      | cons here _ => exact here
    exact .callable inArgs rfl rfl atRet rfl
  | union ms pos =>
    have both := SameTypes.of_forall₂ related
    refine .union related.length_eq both.left fun y member => ?_
    obtain ⟨x, atSource, equal⟩ := both.right y member
    exact ⟨x, atSource, Setoid.symm equal⟩
  | classObject item | star item | argument item =>
    match cs, ds, related, sameLength with
    | [c], [d], .cons here _, _ => constructor; exact here
  | forward => exact .forward related
  | named ref => exact .named rfl related rfl rfl rfl rfl
  | bracketed => exact .bracketed related
  | _ => exact matches_of_beq same

theorem withChildren_withChildren (t : Ty) (cs ds : List Ty) (sameLength : cs.length = ds.length) :
    (t.withChildren cs).withChildren ds = t.withChildren ds := by
  cases t with
  | record shape =>
    have same (fields : List (String × Ty)) (cs ds : List Ty) (sameLength : cs.length = ds.length) :
        (fields.zipWith (fun field c => (field.1, c)) cs).zipWith (fun field c => (field.1, c)) ds =
          fields.zipWith (fun field c => (field.1, c)) ds := by
      induction fields generalizing cs ds with
      | nil => rfl
      | cons field fields ih =>
        match cs, ds, sameLength with
        | [], [], _ => rfl
        | c :: cs, d :: ds, sameLength => simp [ih cs ds (by simpa using sameLength)]
    simp only [withChildren, same _ cs ds sameLength]
  | callable | classObject | star | argument =>
    cases ds with
    | nil =>
      rw [List.length_eq_zero_iff.1 sameLength]
      rfl
    | cons => simp [withChildren, List.getLast?_cons]
  | _ => rfl

theorem map_congr {f : Ty → Ty} {xs ys : List Ty} (related : List.Forall₂ (· ≈ ·) xs ys)
    (turned : ∀ x ∈ xs, ∀ y ∈ ys, x ≈ y → f x ≈ f y) : List.Forall₂ (· ≈ ·) (xs.map f) (ys.map f) := by
  induction related with
  | nil => exact .nil
  | @cons x y xs ys here _ ih =>
    refine .cons (turned x List.mem_cons_self y List.mem_cons_self here) (ih fun u atSource v atTarget => ?_)
    exact turned u (List.mem_cons_of_mem x atSource) v (List.mem_cons_of_mem y atTarget)

/-- Equal types stay equal when equal children are put in the place of equal ones. -/
theorem withChildren_map_congr {a b : Ty} (equal : a ≈ b) {f : Ty → Ty}
    (turned : ∀ c ∈ a.children, ∀ d ∈ b.children, c ≈ d → f c ≈ f d) :
    a.withChildren (a.children.map f) ≈ b.withChildren (b.children.map f) := by
  have fieldsOf (fields : List (String × Ty)) :
      fields.zipWith (fun field c => (field.1, c)) ((fields.map Prod.snd).map f) =
        fields.map fun field => (field.1, f field.2) := by
    induction fields with
    | nil => rfl
    | cons field fields ih => simpa using ih
  refine Matches.beq ?_
  cases matches_of_beq equal with
  | @inst i j same =>
    obtain ⟨head, args, known⟩ := Instance.beq_iff.1 same
    exact .inst (Instance.beq_iff.2 ⟨head, map_congr args turned, known⟩)
  | tuple items fallback => exact .tuple (map_congr items turned) fallback
  | @record shape shape' sameLength within among required fallback =>
    simp only [withChildren, children, fieldsOf]
    refine .record (by simpa using sameLength) ?_ ?_ required fallback
    · intro x member
      obtain ⟨x, atSource, rfl⟩ := List.mem_map.1 member
      obtain ⟨y, atTarget, key, equal⟩ := within x atSource
      exact ⟨_, List.mem_map_of_mem atTarget, key,
        turned x.2 (List.mem_map_of_mem atSource) y.2 (List.mem_map_of_mem atTarget) equal⟩
    · intro y member
      obtain ⟨y, atTarget, rfl⟩ := List.mem_map.1 member
      obtain ⟨x, atSource, key, equal⟩ := among y atTarget
      exact ⟨_, List.mem_map_of_mem atSource, key,
        turned x.2 (List.mem_map_of_mem atSource) y.2 (List.mem_map_of_mem atTarget) equal⟩
  | @callable s s' args kinds names ret anyArgs =>
    have made := map_congr args fun x atSource y atTarget =>
      turned x (List.mem_append_left _ atSource) y (List.mem_append_left _ atTarget)
    have atRet := turned s.ret (List.mem_append_right _ (List.mem_singleton_self _)) s'.ret
      (List.mem_append_right _ (List.mem_singleton_self _)) ret
    simp only [withChildren, children, List.map_append, List.map_cons, List.map_nil, List.dropLast_concat,
      List.getLast?_append, List.getLast?_singleton, Option.some_or, Option.getD_some]
    exact .callable made kinds names atRet anyArgs
  | union sameLength within among =>
    refine .union (by simpa [children] using sameLength) ?_ ?_
    · intro x member
      obtain ⟨x, atSource, rfl⟩ := List.mem_map.1 member
      obtain ⟨y, atTarget, equal⟩ := within x atSource
      exact ⟨_, List.mem_map_of_mem atTarget, turned x atSource y atTarget equal⟩
    · intro y member
      obtain ⟨y, atTarget, rfl⟩ := List.mem_map.1 member
      obtain ⟨x, atSource, equal⟩ := among y atTarget
      exact ⟨_, List.mem_map_of_mem atSource, turned x atSource y atTarget equal⟩
  | classObject item => exact .classObject (turned _ (List.mem_singleton_self _) _ (List.mem_singleton_self _) item)
  | star item => exact .star (turned _ (List.mem_singleton_self _) _ (List.mem_singleton_self _) item)
  | argument item => exact .argument (turned _ (List.mem_singleton_self _) _ (List.mem_singleton_self _) item)
  | forward args => exact .forward (map_congr args turned)
  | named name args optional emptyTuple quoted quotedClass =>
    exact .named name (map_congr args turned) optional emptyTuple quoted quotedClass
  | bracketed items => exact .bracketed (map_congr items turned)
  | any | noneType | never | deleted | typeVar | literal | ellipsis | scalar => exact matches_of_beq equal

theorem isUnion_withChildren (t : Ty) (cs : List Ty) : (t.withChildren cs).isUnion = t.isUnion := by
  cases t <;> rfl

/-- The same form made anew around equal children. -/
theorem rebuild_congr (t : Ty) {cs ds : List Ty} (related : List.Forall₂ (· ≈ ·) cs ds)
    (sameLength : cs.length = t.children.length) : t.rebuild cs ≈ t.rebuild ds := by
  cases t using Ty.unionCases with
  | union _ pos => exact makeUnion_congr related pos pos
  | other t notUnion =>
    rw [rebuild_of_not_union notUnion, rebuild_of_not_union notUnion]
    exact t.withChildren_congr related sameLength

/-- Equal types stay equal when they are made anew around what equal children are turned into. -/
theorem rebuild_map_congr {a b : Ty} (equal : a ≈ b) {f : Ty → Ty}
    (turned : ∀ c ∈ a.children, ∀ d ∈ b.children, c ≈ d → f c ≈ f d) :
    a.rebuild (a.children.map f) ≈ b.rebuild (b.children.map f) := by
  by_cases isUnion : a.isUnion = true
  · cases matches_of_beq equal with
    | @union xs ys _ _ _ within among =>
      have both : SameTypes xs ys := by
        refine ⟨within, fun y member => ?_⟩
        obtain ⟨x, atSource, equal⟩ := among y member
        exact ⟨x, atSource, Setoid.symm (show x ≈ y from equal)⟩
      exact makeUnion_equal ((both.map turned).flatMap fun _ _ _ _ equal => members_of_equal equal) _ _
    | _ => cases isUnion
  · have notUnion := Bool.eq_false_iff.2 isUnion
    rw [rebuild_of_not_union notUnion, rebuild_of_not_union ((isUnion_of_equal equal).symm.trans notUnion)]
    exact withChildren_map_congr equal turned

theorem rebuild_flatUnion (t : Ty) (cs : List Ty) : (t.rebuild cs).FlatUnion := by
  cases t using Ty.unionCases with
  | union => exact makeUnion_flatUnion _ _
  | other t notUnion =>
    rw [rebuild_of_not_union notUnion]
    exact flatUnion_of_not_union ((t.isUnion_withChildren cs).trans notUnion)

/-! What a union is turned into member by member -/

section Images

variable {f : Ty → Ty}

theorem FlatUnion.members_ne_nil {t : Ty} (flat : t.FlatUnion) : t.members ≠ [] := by
  cases t using Ty.unionCases with
  | union ms pos =>
    have several := flat.several
    rw [FlatUnion.members_union flat]
    rintro rfl
    exact absurd several (by decide)
  | other t notUnion =>
    rw [members_of_not_union notUnion]
    exact List.cons_ne_nil _ _

theorem flatMap_members_ne_nil {ms : List Ty} (notEmpty : ms ≠ []) (flat : ∀ m ∈ ms, (f m).FlatUnion) :
    (ms.flatMap fun m => (f m).members) ≠ [] := by
  obtain ⟨m, member⟩ := List.exists_mem_of_ne_nil ms notEmpty
  intro none
  exact (flat m member).members_ne_nil (List.flatMap_eq_nil_iff.1 none m member)

theorem makeUnion_of_none {ts : List Ty} (none : ts.flatMap members = []) (pos : Position) :
    makeUnion ts pos = .never false pos := by
  unfold makeUnion
  rw [none]
  rfl

/-- A union of what members are turned into has the members of each. -/
theorem members_makeUnion_map {ms : List Ty} (form : UnionForm ms) (flat : ∀ m ∈ ms, (f m).FlatUnion) (pos : Position) :
    SameTypes (makeUnion (ms.map f) pos).members (ms.flatMap fun m => (f m).members) := by
  have notEmpty : ms ≠ [] := by
    rintro rfl
    exact absurd form.several (by decide)
  have images : (ms.map f).flatMap members ≠ [] := by
    rw [List.flatMap_map]
    exact flatMap_members_ne_nil notEmpty flat
  have same := members_makeUnion images pos
  rwa [List.flatMap_map] at same

/-- What respects equality and turns types member by member turns a union into the union of what it makes of the items. -/
theorem map_makeUnion {ts : List Ty} {pos : Position} (never : f (.never false pos) ≈ .never false pos)
    (flat : ∀ t : Ty, t.FlatUnion → (f t).FlatUnion)
    (opens : ∀ t ∈ makeUnion ts pos :: ts, SameTypes (f t).members (t.members.flatMap fun m => (f m).members))
    (turned : ∀ x ∈ (makeUnion ts pos).members, ∀ y ∈ ts.flatMap members, x ≈ y → f x ≈ f y) :
    f (makeUnion ts pos) ≈ makeUnion (ts.map f) pos := by
  have inside : SameTypes ((ts.map f).flatMap members) ((ts.flatMap members).flatMap fun m => (f m).members) := by
    rw [List.flatMap_map, List.flatMap_assoc]
    refine .flatMap_of_forall₂ (List.forall₂_same.2 fun t member => ?_)
    exact opens t (List.mem_cons_of_mem _ member)
  by_cases notEmpty : ts.flatMap members = []
  · rw [notEmpty] at inside
    rwa [makeUnion_of_none notEmpty, makeUnion_of_none inside.symm.eq_nil]
  · have images : ∀ m ∈ ts.flatMap members, (f m).FlatUnion := by
      intro m member
      obtain ⟨t, _, atMember⟩ := List.mem_flatMap.1 member
      exact flat m (flatUnion_of_not_union (not_union_of_mem_members t m atMember))
    have notEmpty' : (ts.map f).flatMap members ≠ [] := by
      intro none
      rw [none] at inside
      exact flatMap_members_ne_nil notEmpty images inside.eq_nil
    have united := (members_makeUnion notEmpty pos).flatMap fun x atSource y atTarget equal =>
      members_of_equal (turned x atSource y atTarget equal)
    refine (flat _ (makeUnion_flatUnion ts pos)).equal_of_members (makeUnion_flatUnion _ _) ?_
    exact (opens _ List.mem_cons_self).trans (united.trans (inside.symm.trans (members_makeUnion notEmpty' pos).symm))

end Images

end Ty

end TypeResolution
