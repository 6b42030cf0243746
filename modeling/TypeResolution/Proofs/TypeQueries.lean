import TypeResolution.Proofs.Addresses
import TypeResolution.Proofs.CanonicalUnions
import TypeResolution.Ty.Query

namespace TypeResolution

section FirstOccurrences

variable {α : Type} [BEq α] [EquivBEq α]

/-- It is no matter whether equal elements are left out before the others are added. -/
theorem foldl_addDistinct_firstOccurrences (kept xs : List α) :
    (firstOccurrences xs).foldl addDistinct kept = xs.foldl addDistinct kept := by
  induction xs using List.reverseRecOn with
  | nil => rfl
  | append_singleton xs x ih =>
    rw [firstOccurrences_append_singleton, List.foldl_append, List.foldl_cons, List.foldl_nil, addDistinct]
    split
    · rename_i there
      rw [any_firstOccurrences, List.any_eq_true] at there
      obtain ⟨y, member, equal⟩ := there
      have known : ∃ k ∈ xs.foldl addDistinct kept, (k == y) = true := kept_of_mem_foldl (.inr member)
      obtain ⟨k, atKept, same⟩ := known
      have added : (xs.foldl addDistinct kept).any (· == x) = true :=
        List.any_eq_true.2 ⟨k, atKept, BEq.trans same equal⟩
      rw [ih, addDistinct, if_pos added]
    · rw [List.foldl_append, ih]
      rfl

/-- Equal elements may be left out part by part. -/
theorem firstOccurrences_flatMap {β : Type} (f : β → List α) (bs : List β) :
    firstOccurrences (bs.flatMap fun b => firstOccurrences (f b)) = firstOccurrences (bs.flatMap f) := by
  have added (kept : List α) : (bs.flatMap fun b => firstOccurrences (f b)).foldl addDistinct kept =
      (bs.flatMap f).foldl addDistinct kept := by
    induction bs generalizing kept with
    | nil => rfl
    | cons b bs ih =>
      rw [List.flatMap_cons, List.flatMap_cons, List.foldl_append, List.foldl_append, ih,
        foldl_addDistinct_firstOccurrences]
  exact added []

/-- The entries such that there is none that is equal and has a lesser address. -/
def firstEntries (entries : List (List Nat × α)) : List (List Nat × α) :=
  entries.filter fun entry => entries.all fun other => decide (other.1 < entry.1 → (other.2 == entry.2) = false)

omit [EquivBEq α] in
theorem mem_firstEntries {entries : List (List Nat × α)} {entry : List Nat × α} :
    entry ∈ firstEntries entries ↔
      entry ∈ entries ∧ ∀ other ∈ entries, other.1 < entry.1 → (other.2 == entry.2) = false := by
  simp only [firstEntries, List.mem_filter, List.all_eq_true, decide_eq_true_eq]

omit [EquivBEq α] in
theorem firstEntries_append_singleton {entries : List (List Nat × α)} {last : List Nat × α}
    (atEnd : ∀ entry ∈ entries, entry.1 < last.1) :
    firstEntries (entries ++ [last]) =
      firstEntries entries ++ if (entries.map Prod.snd).any (· == last.2) then [] else [last] := by
  have earlier : (entries.filter fun entry => (entries ++ [last]).all fun other =>
      decide (other.1 < entry.1 → (other.2 == entry.2) = false)) = firstEntries entries := by
    refine List.filter_congr fun entry member => ?_
    have notBefore : ¬ last.1 < entry.1 := List.lt_asymm (atEnd entry member)
    simp [notBefore]
  have new : ((entries ++ [last]).all fun other => decide (other.1 < last.1 → (other.2 == last.2) = false)) =
      !(entries.map Prod.snd).any (· == last.2) := by
    have notBefore : ¬ last.1 < last.1 := List.lt_irrefl last.1
    rw [Bool.eq_iff_iff, Bool.not_eq_true', List.any_eq_false]
    simp only [List.all_eq_true, List.mem_append, List.mem_singleton, List.mem_map, decide_eq_true_eq, Bool.not_eq_true]
    constructor
    · rintro fresh _ ⟨entry, member, rfl⟩
      exact fresh entry (.inl member) (atEnd entry member)
    · rintro fresh entry (member | rfl) less
      · exact fresh entry.2 ⟨entry, member, rfl⟩
      · exact absurd less notBefore
  rw [firstEntries, List.filter_append, earlier, List.filter_singleton, new]
  cases (entries.map Prod.snd).any (· == last.2) <;> rfl

/-- From entries in the order of their addresses the first of equal ones are kept. -/
theorem firstOccurrences_entries {entries : List (List Nat × α)} (sorted : entries.Pairwise fun a b => a.1 < b.1) :
    firstOccurrences (entries.map Prod.snd) = (firstEntries entries).map Prod.snd := by
  induction entries using List.reverseRecOn with
  | nil => rfl
  | append_singleton entries last ih =>
    obtain ⟨sorted, _, apart⟩ := List.pairwise_append.1 sorted
    rw [firstEntries_append_singleton fun entry member => apart entry member last (List.mem_singleton_self _),
      List.map_append, List.map_append, List.map_singleton, firstOccurrences_append_singleton, addDistinct,
      any_firstOccurrences, ih sorted]
    split <;> simp

end FirstOccurrences

namespace Ty

variable {t x : Ty} {address : List Nat}

/-- The list consists of what stands at those addresses in a type that are picked, once for each address and from left to
right. -/
def Lists (xs : List Ty) (t : Ty) (picked : List Nat → Ty → Prop) : Prop :=
  ∃ entries : List (List Nat × Ty), xs = entries.map Prod.snd ∧ (entries.Pairwise fun a b => a.1 < b.1) ∧
    ∀ address x, (address, x) ∈ entries ↔ t.at? address = some x ∧ picked address x

/-- At the address stands a reference to a type variable, and none to the same variable, which its number and its full name
tell, stands further to the left. -/
def FirstOfVariable (t : Ty) (address : List Nat) (x : Ty) : Prop :=
  ∃ binding pos, x = .typeVar binding pos ∧ ∀ earlier < address, ∀ binding' pos',
    t.at? earlier = some (.typeVar binding' pos') → ¬ (binding'.id = binding.id ∧ binding'.fullname = binding.fullname)

/-- There is an `Any` of this origin such that the way down to it passes through no record. -/
def ReachesAny (t : Ty) (origin : AnyOrigin) : Prop :=
  ∃ address missing pos, t.at? address = some (.any origin missing pos) ∧
    ∀ y, OnTheWay t address y → ∀ shape, y ≠ .record shape

/-- Every type below a type, in the order in which they are asked about, with their addresses. -/
def innerNodes : Ty → List (List Nat × Ty) :=
  fold fun t parts => numbered parts ++ numbered (t.children.map fun c => [([], c)])

theorem innerNodes_eq (t : Ty) :
    t.innerNodes = numbered (t.children.map innerNodes) ++ numbered (t.children.map fun c => [([], c)]) :=
  fold_eq _ t

theorem mem_innerNodes : (address, x) ∈ t.innerNodes ↔ address ≠ [] ∧ t.at? address = some x := by
  induction t using inductionOn generalizing address with
  | step t ih =>
    rw [innerNodes_eq, List.mem_append]
    cases address with
    | nil => simp [nil_not_mem_numbered]
    | cons i address =>
      simp only [cons_mem_numbered, at?_cons_eq_some_iff, List.getElem?_map, Option.map_eq_some_iff]
      constructor
      · rintro (⟨_, ⟨c, atChild, rfl⟩, member⟩ | ⟨_, ⟨c, atChild, rfl⟩, member⟩)
        · exact ⟨List.cons_ne_nil _ _, c, atChild, ((ih c (List.mem_of_getElem? atChild)).1 member).2⟩
        · obtain ⟨rfl, rfl⟩ := Prod.mk.inj (List.mem_singleton.1 member)
          exact ⟨List.cons_ne_nil _ _, x, atChild, rfl⟩
      · rintro ⟨_, c, atChild, atX⟩
        cases address with
        | nil => exact .inr ⟨_, ⟨c, atChild, rfl⟩, by rw [List.mem_singleton, Option.some.inj atX]⟩
        | cons j rest =>
          exact .inl ⟨_, ⟨c, atChild, rfl⟩, (ih c (List.mem_of_getElem? atChild)).2 ⟨List.cons_ne_nil _ _, atX⟩⟩

/-- Nothing is followed by what stands at the same place or below it. -/
theorem innerNodes_ordered (t : Ty) : t.innerNodes.Pairwise fun a b => ¬ a.1 <+: b.1 := by
  have within (i : Nat) (a b : List Nat) (apart : ¬ a <+: b) : ¬ i :: a <+: i :: b :=
    fun leads => apart (List.cons_prefix_cons.1 leads).2
  have across (i j : Nat) (a b : List Nat) (less : i < j) : ¬ i :: a <+: j :: b :=
    fun leads => Nat.ne_of_lt less (List.cons_prefix_cons.1 leads).1
  induction t using inductionOn with
  | step t ih =>
    rw [innerNodes_eq, List.pairwise_append]
    refine ⟨numbered_pairwise within across fun entries member => ?_,
      numbered_pairwise within across fun entries member => ?_, ?_⟩
    · obtain ⟨c, atChild, rfl⟩ := List.mem_map.1 member
      exact ih c atChild
    · obtain ⟨c, _, rfl⟩ := List.mem_map.1 member
      exact List.pairwise_singleton _ _
    · rintro ⟨a, x⟩ inside ⟨b, y⟩ atChild leads
      obtain ⟨i, a, _, rfl, atPart, inside⟩ := mem_numbered.1 inside
      obtain ⟨j, b, _, rfl, atPart', atChild⟩ := mem_numbered.1 atChild
      rw [List.getElem?_map] at atPart atPart'
      obtain ⟨c, _, rfl⟩ := Option.map_eq_some_iff.1 atPart
      obtain ⟨c', _, rfl⟩ := Option.map_eq_some_iff.1 atPart'
      obtain ⟨rfl, _⟩ := Prod.mk.inj (List.mem_singleton.1 atChild)
      exact (mem_innerNodes.1 inside).1 (List.prefix_nil.1 (List.cons_prefix_cons.1 leads).2)

theorem innerTypes_eq_nodes (t : Ty) : t.innerTypes = t.innerNodes.map Prod.snd := by
  induction t using inductionOn with
  | step t ih =>
    rw [innerTypes, fold_eq, ← innerTypes, innerNodes_eq, List.map_append, map_snd_numbered, map_snd_numbered,
      List.flatMap_map, List.flatMap_map, ← List.flatMap_def]
    congr 1
    · exact List.flatMap_congr ih
    · exact (List.flatMap_singleton' t.children).symm

/-- The types in a type for which `p` holds, with their addresses. -/
def picked (p : Ty → Bool) (t : Ty) : List (List Nat × Ty) := t.listed (Option.guard p) fun _ => false

theorem mem_picked {p : Ty → Bool} : (address, x) ∈ t.picked p ↔ t.at? address = some x ∧ p x = true := by
  simp [picked, mem_listed, Option.guard_eq_some_iff]

theorem map_snd_picked (p : Ty → Bool) (t : Ty) :
    (t.picked p).map Prod.snd = (Option.guard p t).toList ++ t.children.flatMap fun c => (c.picked p).map Prod.snd :=
  map_snd_listed t

theorem anyTypes_eq_picked (t : Ty) : t.anyTypes = (t.picked isAny).map Prod.snd := by
  induction t using inductionOn with
  | step t ih =>
    have parts : (t.children.map anyTypes).flatten = t.children.flatMap fun c => (c.picked isAny).map Prod.snd := by
      rw [← List.flatMap_def, List.flatMap_congr ih]
    rw [anyTypes, fold_eq, ← anyTypes, map_snd_picked, parts]
    cases isAny : t.isAny with
    | true => simp [isAny, Option.guard, children_of_isAny isAny]
    | false => simp [isAny, Option.guard]

/-- Whether a type is a reference to a type variable. -/
def isVariable : Ty → Bool
  | typeVar .. => true
  | _ => false

theorem typeVars_eq_picked (t : Ty) : t.typeVars = firstOccurrences ((t.picked isVariable).map Prod.snd) := by
  induction t using inductionOn with
  | step t ih =>
    have parts : firstOccurrences (t.children.map typeVars).flatten =
        firstOccurrences (t.children.flatMap fun c => (c.picked isVariable).map Prod.snd) := by
      rw [← List.flatMap_def, List.flatMap_congr ih, firstOccurrences_flatMap]
    rw [typeVars, fold_eq, ← typeVars, map_snd_picked]
    cases t with
    | typeVar => rfl
    | _ => exact parts

/-- Whether a type is a record. -/
def isRecord : Ty → Bool
  | record _ => true
  | _ => false

theorem hasAny_eq_listed (origin : AnyOrigin) (t : Ty) :
    t.hasAny origin = ((t.listed (Option.guard (·.origin? == some origin)) isRecord).map Prod.snd).any fun _ => true := by
  induction t using inductionOn with
  | step t ih =>
    have parts : (t.children.map (hasAny origin)).any id = (t.children.flatMap fun c =>
        (c.listed (Option.guard (·.origin? == some origin)) isRecord).map Prod.snd).any fun _ => true := by
      rw [List.any_map, List.any_flatMap, Bool.eq_iff_iff, List.any_eq_true, List.any_eq_true]
      exact exists_congr fun c => and_congr_right fun member => by rw [Function.comp_apply, id, ih c member]
    rw [hasAny, fold_eq, ← hasAny, map_snd_listed]
    cases t with
    | any o missing pos => cases same : o == origin <;> simp [Option.guard, origin?, isRecord, children, same]
    | record shape => rfl
    | _ => exact parts

theorem isRecord_eq_false_iff : x.isRecord = false ↔ ∀ shape, x ≠ .record shape := by
  cases x <;> simp [isRecord]

theorem origin?_eq_some_iff {origin : AnyOrigin} : x.origin? = some origin ↔ ∃ missing pos, x = .any origin missing pos := by
  cases x <;> simp [origin?]

theorem hasAny_iff {origin : AnyOrigin} : t.hasAny origin = true ↔ t.ReachesAny origin := by
  rw [hasAny_eq_listed, List.any_map, List.any_eq_true]
  constructor
  · rintro ⟨⟨address, x⟩, member, _⟩
    obtain ⟨⟨y, atY, found⟩, reached⟩ := mem_listed.1 member
    obtain ⟨rfl, same⟩ := Option.guard_eq_some_iff.1 found
    obtain ⟨missing, pos, rfl⟩ := origin?_eq_some_iff.1 (eq_of_beq same)
    exact ⟨address, missing, pos, atY, fun z way => isRecord_eq_false_iff.1 (reached z way)⟩
  · rintro ⟨address, missing, pos, atAny, reached⟩
    have found : Option.guard (·.origin? == some origin) (any origin missing pos) = some (any origin missing pos) :=
      Option.guard_eq_some_iff.2 ⟨rfl, beq_self_eq_true _⟩
    exact ⟨(address, _), mem_listed.2 ⟨⟨_, atAny, found⟩, fun z way => isRecord_eq_false_iff.2 (reached z way)⟩, rfl⟩

theorem isVariable_iff : x.isVariable = true ↔ ∃ binding pos, x = .typeVar binding pos := by
  cases x <;> simp [isVariable]

theorem variable_unequal_iff {a b : TypeVarBinding} {pos pos' : Position} :
    (typeVar a pos == typeVar b pos') = false ↔ ¬ (a.id = b.id ∧ a.fullname = b.fullname) := by
  have equal : (typeVar a pos == typeVar b pos') = (a.id == b.id && a.fullname == b.fullname) := rfl
  rw [equal, Bool.and_eq_false_iff, beq_eq_false_iff_ne, beq_eq_false_iff_ne, not_and_or]

theorem typeVars_listed (t : Ty) : Lists t.typeVars t t.FirstOfVariable := by
  refine ⟨_, (typeVars_eq_picked t).trans (firstOccurrences_entries (listed_sorted t)), (listed_sorted t).filter _, ?_⟩
  intro address x
  rw [mem_firstEntries]
  constructor
  · rintro ⟨member, fresh⟩
    obtain ⟨atX, isVariable⟩ := mem_picked.1 member
    obtain ⟨binding, pos, rfl⟩ := isVariable_iff.1 isVariable
    exact ⟨atX, binding, pos, rfl, fun earlier less binding' pos' atOther =>
      variable_unequal_iff.1 (fresh (earlier, _) (mem_picked.2 ⟨atOther, rfl⟩) less)⟩
  · rintro ⟨atX, binding, pos, rfl, first⟩
    refine ⟨mem_picked.2 ⟨atX, rfl⟩, fun ⟨earlier, y⟩ member less => ?_⟩
    obtain ⟨atY, isVariable⟩ := mem_picked.1 member
    obtain ⟨binding', pos', rfl⟩ := isVariable_iff.1 isVariable
    exact variable_unequal_iff.2 (first earlier less binding' pos' atY)

/-- The queries of a type agree with what stands inside it. All `Any` are listed from left to right, and so is the first
reference to each type variable. Every type inside is listed once for each of its places, after all types below that place.
An explicit `Any`, or one that stands for an import, is found if it can be reached without passing through a record. -/
theorem queries_exact (t : Ty) :
    Lists t.anyTypes t (fun _ x => x.isAny = true) ∧
    (∃ entries : List (List Nat × Ty), t.innerTypes = entries.map Prod.snd ∧ (entries.map Prod.fst).Nodup ∧
      (∀ address x, (address, x) ∈ entries ↔ address ≠ [] ∧ t.at? address = some x) ∧
      entries.Pairwise fun a b => ¬ a.1 <+: b.1) ∧
    Lists t.typeVars t t.FirstOfVariable ∧
    (t.hasExplicitAny = true ↔ t.ReachesAny .explicit) ∧
    (t.hasUnimportedAny = true ↔ t.ReachesAny .unimportedName) := by
  refine ⟨?anys, ?inner, typeVars_listed t, hasAny_iff, hasAny_iff⟩
  case anys => exact ⟨_, anyTypes_eq_picked t, listed_sorted t, fun address x => mem_picked⟩
  case inner =>
    have distinct : t.innerNodes.Pairwise fun a b => a.1 ≠ b.1 :=
      (innerNodes_ordered t).imp fun {a b} apart (same : a.1 = b.1) => apart (same ▸ List.prefix_rfl)
    exact ⟨t.innerNodes, innerTypes_eq_nodes t, List.pairwise_map.2 distinct, fun address x => mem_innerNodes,
      innerNodes_ordered t⟩

end Ty

end TypeResolution
