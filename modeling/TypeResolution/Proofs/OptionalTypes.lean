import TypeResolution.Proofs.CanonicalUnions

namespace TypeResolution

section FirstOccurrences

variable {α : Type} [BEq α] {p : α → Bool}

/-- Equal elements are sorted out together, so it does not matter which of them is the first. -/
theorem filter_addDistinct (alike : ∀ x y, (x == y) = true → p x = p y) (kept : List α) (x : α) :
    (addDistinct kept x).filter p = if p x then addDistinct (kept.filter p) x else kept.filter p := by
  cases holds : p x with
  | false =>
    unfold addDistinct
    split
    · rfl
    · simp [holds]
  | true =>
    have there : (kept.filter p).any (· == x) = kept.any (· == x) := by
      have same (y : α) : (p y && y == x) = (y == x) := by
        cases equal : y == x with
        | false => simp
        | true => simp [alike y x equal, holds]
      simp only [List.any_filter, same]
    simp only [addDistinct, there, if_true]
    split
    · rfl
    · simp [holds]

theorem filter_firstOccurrences (alike : ∀ x y, (x == y) = true → p x = p y) (xs : List α) :
    (firstOccurrences xs).filter p = firstOccurrences (xs.filter p) := by
  induction xs using List.reverseRecOn with
  | nil => rfl
  | append_singleton xs x ih =>
    rw [firstOccurrences_append_singleton, filter_addDistinct alike, ih, List.filter_append]
    cases holds : p x with
    | false => simp [holds]
    | true => simp [holds, firstOccurrences_append_singleton]

end FirstOccurrences

namespace Ty

theorem isNone_of_equal (x y : Ty) (equal : (x == y) = true) : x.isNone = y.isNone := by
  cases matches_of_beq equal <;> rfl

theorem unequal_none {m : Ty} (notNone : m.isNone = false) (pos : Position) : (m == .noneType pos) = false := by
  refine Bool.eq_false_iff.2 fun equal => ?_
  rw [isNone_of_equal m _ equal] at notNone
  cases notNone

theorem firstOccurrences_of_none {ts : List Ty} (some : ts ≠ []) (all : ∀ t ∈ ts, t.isNone = true) :
    ∃ pos, firstOccurrences ts = [.noneType pos] := by
  cases ts with
  | nil => exact absurd rfl some
  | cons t ts =>
    obtain ⟨pos, rfl⟩ := isNone_iff.1 (all t List.mem_cons_self)
    refine ⟨pos, firstOccurrences_of_equal fun u member => ?_⟩
    obtain ⟨at_, rfl⟩ := isNone_iff.1 (all u (List.mem_cons_of_mem _ member))
    exact Matches.noneType.beq

theorem filter_members (ts : List Ty) :
    ((ts.filter (!·.isNone)).flatMap members).filter (!·.isNone) = (ts.flatMap members).filter (!·.isNone) := by
  induction ts with
  | nil => rfl
  | cons t ts ih =>
    cases isNone : t.isNone with
    | false => simp [isNone, ih]
    | true =>
      obtain ⟨pos, rfl⟩ := isNone_iff.1 isNone
      have single : (Ty.noneType pos).members = [.noneType pos] := members_of_not_union rfl
      simp [isNone, single, ih]

/-- If the type is a union, no `None` stands in a union that is one of its members. -/
def NoneOutermost (t : Ty) : Prop :=
  ∀ ms pos, t = .union ms pos → ∀ u ∈ ms, u.isUnion = true → ∀ m ∈ u.members, m.isNone = false

/-- An optional type is made of the other members of the type and, at the end, of `None`; a `None` that stands in a
union inside of the type is still among them. -/
theorem makeOptional_eq {t : Ty} (notNone : t.isNone = false) :
    ∃ items, t.makeOptional = makeUnion (items ++ [.noneType .unknown]) t.pos ∧
      (items.flatMap members).filter (!·.isNone) = t.members.filter (!·.isNone) ∧
      (t.NoneOutermost → ∀ m ∈ items.flatMap members, m.isNone = false) := by
  cases t using Ty.unionCases with
  | union ms pos =>
    refine ⟨ms.filter (!·.isNone), rfl, ?_, fun outermost m member => ?_⟩
    · rw [filter_members, members, membersOfAll_eq]
    · obtain ⟨u, atMember, inside⟩ := List.mem_flatMap.1 member
      obtain ⟨written, notNone⟩ := List.mem_filter.1 atMember
      cases isUnion : u.isUnion with
      | true => exact outermost ms pos rfl u written isUnion m inside
      | false =>
        rw [members_of_not_union isUnion, List.mem_singleton] at inside
        simpa [inside] using notNone
  | other t notUnion =>
    have single : t.members = [t] := members_of_not_union notUnion
    refine ⟨[t], ?_, by simp [single], fun _ m member => ?_⟩
    · unfold makeOptional
      split
      · cases notNone
      · cases notUnion
      · rfl
    · rw [List.flatMap_singleton, single, List.mem_singleton] at member
      rwa [member]

/-- What is made of some members and `None`: the one or the other `None` is kept, of the others the first occurrences. -/
theorem firstOccurrences_withNone (ts : List Ty) :
    (∃ pos, (firstOccurrences (ts ++ [.noneType .unknown])).filter (·.isNone) = [.noneType pos]) ∧
    (firstOccurrences (ts ++ [.noneType .unknown])).filter (!·.isNone) =
      firstOccurrences (ts.filter (!·.isNone)) := by
  have alike (x y : Ty) (equal : (x == y) = true) : (!x.isNone) = !y.isNone := by rw [isNone_of_equal x y equal]
  constructor
  · rw [filter_firstOccurrences isNone_of_equal]
    refine firstOccurrences_of_none ?_ fun t member => (List.mem_filter.1 member).2
    exact List.ne_nil_of_mem (List.mem_filter.2 ⟨List.mem_append_right ts (List.mem_singleton_self _), rfl⟩)
  · rw [filter_firstOccurrences alike, List.filter_append]
    simp [isNone]

/-- Of `None` and of unions of it nothing but `None` is made. -/
theorem makeOptional_of_none {t : Ty} (all : ∀ m ∈ t.members, m.isNone = true) : ∃ pos, t.makeOptional = .noneType pos := by
  cases isNone : t.isNone with
  | true =>
    obtain ⟨pos, rfl⟩ := isNone_iff.1 isNone
    exact ⟨pos, rfl⟩
  | false =>
    obtain ⟨items, made, others, _⟩ := makeOptional_eq isNone
    have none : (items.flatMap members).filter (!·.isNone) = [] := by
      rw [others, List.filter_eq_nil_iff]
      simpa using all
    have allNone : ∀ m ∈ items.flatMap members ++ [Ty.noneType .unknown], m.isNone = true := by
      intro m member
      rcases List.mem_append.1 member with member | member
      · simpa using List.filter_eq_nil_iff.1 none m member
      · rw [List.mem_singleton.1 member, Ty.isNone]
    obtain ⟨pos, kept⟩ := firstOccurrences_of_none (by simp) allNone
    refine ⟨pos, ?_⟩
    rw [made, makeUnion, List.flatMap_append]
    simp only [List.flatMap_singleton, members, kept]

/-- A type with another member becomes a union of its other members and of one `None`. -/
theorem makeOptional_of_member {t m : Ty} (member : m ∈ t.members) (notNone : m.isNone = false) :
    ∃ ms, t.makeOptional = .union ms t.pos ∧ UnionForm ms ∧ ms.countP (·.isNone) = 1 ∧
      ms.filter (!·.isNone) = freshElements (t.members.filter (!·.isNone)) ∧
      (t.NoneOutermost → ms.getLast? = some (.noneType .unknown)) := by
  have single : t.isNone = false := by
    by_contra isNone
    obtain ⟨pos, rfl⟩ := isNone_iff.1 (Bool.eq_true_of_not_eq_false isNone)
    rw [members_of_not_union rfl, List.mem_singleton] at member
    rw [member] at notNone
    cases notNone
  obtain ⟨items, made, others, last⟩ := makeOptional_eq single
  have opened : (items ++ [Ty.noneType .unknown]).flatMap members = items.flatMap members ++ [.noneType .unknown] := by
    simp [members]
  have first : m ∈ items.flatMap members := by
    have other : m ∈ t.members.filter (!·.isNone) := List.mem_filter.2 ⟨member, by simp [notNone]⟩
    rw [← others] at other
    exact (List.mem_filter.1 other).1
  have atMember : m ∈ (items ++ [Ty.noneType .unknown]).flatMap members := by simp [opened, first]
  have atNone : .noneType .unknown ∈ (items ++ [Ty.noneType .unknown]).flatMap members := by simp [opened]
  obtain ⟨union, form⟩ := makeUnion_of_unequal atMember atNone (unequal_none notNone .unknown) t.pos
  rw [opened, ← firstOccurrences_eq] at union form
  obtain ⟨⟨pos, one⟩, rest⟩ := firstOccurrences_withNone (items.flatMap members)
  refine ⟨_, made.trans union, form, ?_, ?_, fun outermost => ?_⟩
  · rw [List.countP_eq_length_filter, one, List.length_singleton]
  · rw [rest, others, firstOccurrences_eq]
  · have absent : (firstOccurrences (items.flatMap members)).any (· == .noneType .unknown) = false := by
      rw [any_firstOccurrences, List.any_eq_false]
      exact fun u inside => Bool.eq_false_iff.1 (unequal_none (last outermost u inside) .unknown)
    rw [firstOccurrences_append_singleton, addDistinct, absent]
    simp

theorem makeOptional_again (t : Ty) : t.makeOptional.makeOptional ≈ t.makeOptional := by
  have again := members_makeOptional t.makeOptional
  refine (makeOptional_flatUnion _).equal_of_members (makeOptional_flatUnion t) (again.trans ?_)
  -- the `None` that is added is one of the members already
  obtain ⟨u, there, equal⟩ := (members_makeOptional t).right (.noneType .unknown) (by simp)
  refine ⟨fun x member => ?_, .of_subset fun x member => List.mem_append_left _ member⟩
  rcases List.mem_append.1 member with member | member
  · exact ⟨x, member, Setoid.refl x⟩
  · rw [List.mem_singleton.1 member]
    exact ⟨u, there, equal⟩

/-- Making an optional type adds `None` once: to `None` and to unions of it nothing is added, to a type with another member
what comes out is a union in the form in which unions are made, of one `None` and of the first occurrences of the other
members. The `None` is at its end, unless one stands in a union inside of the type. A second time nothing is changed. -/
theorem makeOptional_oneNone (t : Ty) :
    ((∀ m ∈ t.members, m.isNone = true) → ∃ pos, t.makeOptional = .noneType pos) ∧
    ((∃ m ∈ t.members, m.isNone = false) →
      ∃ ms, t.makeOptional = .union ms t.pos ∧ UnionForm ms ∧ ms.countP (·.isNone) = 1 ∧
        ms.filter (!·.isNone) = freshElements (t.members.filter (!·.isNone)) ∧
        (t.NoneOutermost → ms.getLast? = some (.noneType .unknown))) ∧
    (t.makeOptional.makeOptional == t.makeOptional) = true := by
  refine ⟨makeOptional_of_none, ?_, makeOptional_again t⟩
  rintro ⟨m, member, notNone⟩
  exact makeOptional_of_member member notNone

/-- A union of `int`, of a union of `None` and `int`, of nothing and of `None`. -/
def noneWithin : Ty :=
  .union [.named (.of "int" []), .union [.noneType ⟨3, 0⟩, .named (.of "int" [])] .unknown, .union [] .unknown,
    .noneType ⟨4, 0⟩] .unknown

theorem makeOptional_oneNone_within :
    (∃ ms, noneWithin.makeOptional = .union ms .unknown ∧ ms.countP (·.isNone) = 1 ∧
      ms.filter (!·.isNone) = [.named (.of "int" [])]) ∧
    (noneWithin.makeOptional.makeOptional == noneWithin.makeOptional) = true := by
  obtain ⟨_, several, again⟩ := makeOptional_oneNone noneWithin
  obtain ⟨ms, made, _, one, others, _⟩ := several ⟨.named (.of "int" []), .head _, rfl⟩
  exact ⟨⟨ms, made, one, others.trans rfl⟩, again⟩

end Ty

end TypeResolution
