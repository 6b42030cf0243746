import TypeResolution.Proofs.LightTypes

namespace TypeResolution

namespace Ty

/-- `P` holds of a type, and of all that one comes to when unions and instances are opened. -/
inductive Opened (P : Ty → Prop) : Ty → Prop
  | of {t : Ty} : P t → (t.isUnion || t.isInstance → ∀ c ∈ t.children, Opened P c) → Opened P t

namespace Opened

variable {P Q : Ty → Prop} {t : Ty}

theorem root (opened : t.Opened P) : P t := by
  cases opened with
  | of here _ => exact here

theorem part (opened : t.Opened P) (opens : t.isUnion || t.isInstance) : ∀ c ∈ t.children, c.Opened P := by
  cases opened with
  | of _ parts => exact parts opens

theorem of_other (here : P t) (closed : (t.isUnion || t.isInstance) = false) : t.Opened P := by
  refine .of here fun opens => ?_
  rw [closed] at opens
  cases opens

/-- What a type has in common with its parts holds of all that one comes to. -/
theorem of_parts {S : Ty → Prop} (weaken : ∀ {t}, S t → P t) (down : ∀ {t}, S t → ∀ c ∈ t.children, S c) (holds : S t) :
    t.Opened P := by
  induction t using inductionOn with
  | step t ih => exact .of (weaken holds) fun _ c member => ih c member (down holds c member)

theorem inherited (weaken : ∀ {t}, Q t → P t) (composed : ∀ {t : Ty}, t.isComposed → Q t)
    (rebuilt : ∀ {t : Ty} (cs : List Ty), t.isUnion = false → Q t → Q (t.withChildren cs))
    (moved : ∀ {t : Ty} (pos : Position), P t → P (t.withPos pos)) : Inherited Q (Opened P) where
  composed := composed
  rebuilt := rebuilt
  node atRoot parts := .of (weaken atRoot) fun _ => parts
  part opens opened member := opened.part opens _ member
  move {t} pos opened := by
    refine .of (moved pos opened.root) fun opens c member => ?_
    rw [children_withPos] at member
    refine opened.part ?_ c member
    cases t <;> exact opens

end Opened

/-- How many unions stand one in the other at the root of a type. -/
def unionHeight : Ty → Nat := fold fun t parts => if t.isUnion then parts.foldr max 0 + 1 else 0

theorem unionHeight_of_not_union {t : Ty} (notUnion : t.isUnion = false) : t.unionHeight = 0 := by
  rw [unionHeight, fold_eq, notUnion]
  rfl

theorem unionHeight_union (ms : List Ty) (pos : Position) :
    (Ty.union ms pos).unionHeight = (ms.map unionHeight).foldr max 0 + 1 := by
  rw [unionHeight, fold_eq]
  rfl

theorem unionHeight_member_lt {ms : List Ty} {m : Ty} (member : m ∈ ms) (pos : Position) :
    m.unionHeight < (Ty.union ms pos).unionHeight := by
  rw [unionHeight_union]
  refine Nat.lt_succ_of_le ?_
  induction ms with
  | nil => cases member
  | cons m' ms ih =>
    rw [List.map_cons, List.foldr_cons]
    rcases List.mem_cons.1 member with rfl | member
    · exact Nat.le_max_left _ _
    · exact Nat.le_trans (ih member) (Nat.le_max_right _ _)

theorem unionHeight_le {ms : List Ty} {n : Nat} (each : ∀ m ∈ ms, m.unionHeight ≤ n) (pos : Position) :
    (Ty.union ms pos).unionHeight ≤ n + 1 := by
  rw [unionHeight_union]
  refine Nat.succ_le_succ ?_
  induction ms with
  | nil => exact Nat.zero_le n
  | cons m ms ih =>
    obtain ⟨here, rest⟩ := List.forall_mem_cons.1 each
    exact Nat.max_le.2 ⟨here, ih rest⟩

theorem unionHeight_le_weight (t : Ty) : t.unionHeight ≤ t.weight := by
  induction t using inductionOn with
  | step t ih =>
    cases t using unionCases with
    | union ms pos =>
      have heavier : (Ty.union ms pos).weight = weightAll ms + 1 := rfl
      rw [heavier]
      exact unionHeight_le (fun m member => (ih m member).trans (weight_le_weightAll member)) pos
    | other t notUnion =>
      rw [unionHeight_of_not_union notUnion]
      exact Nat.zero_le _

end Ty

namespace Resolver

variable {r : Resolver} {heaviest : ℕ∞} {limit : Nat}

/-- What stands in a literal form, and as an instance weighs less than `limit`. -/
structure Within (r : Resolver) (heaviest : ℕ∞) (limit : Nat) (t : Ty) : Prop extends r.InLiteral heaviest t where
  light : ∀ i, t = .inst i → t.weight < limit

/-- The expression of a literal is within its own weight. -/
theorem within_of_inLiteral {ref : Reference} (inLiteral : (Ty.named ref).Everywhere (r.InLiteral heaviest)) :
    (Ty.named ref).Everywhere (r.Within heaviest (Ty.named ref).weight) := by
  have inside (limit : Nat) {t : Ty} (light : t.weight < limit) (inLiteral : t.Everywhere (r.InLiteral heaviest)) :
      t.Everywhere (r.Within heaviest limit) := by
    induction t using Ty.inductionOn with
    | step t ih =>
      refine Ty.everywhere_iff.2 ⟨⟨inLiteral.root, fun _ _ => light⟩, fun c member => ?_⟩
      have lighter := Ty.weight_child_lt member
      exact ih c member (by omega) (inLiteral.child member)
  exact Ty.everywhere_iff.2
    ⟨⟨inLiteral.root, nofun⟩, fun c member => inside _ (Ty.weight_child_lt member) (inLiteral.child member)⟩

/-- A type is no reference, or one that names no type, or one that satisfies `R`. -/
def NameAllows (r : Resolver) (R : Reference → Prop) : Ty → Prop
  | .named ref => r.NamesNoType ref ∨ R ref
  | _ => True

theorem nameAllows_of_not_named {R : Reference → Prop} {t : Ty} (notNamed : ∀ ref, t ≠ .named ref) : r.NameAllows R t := by
  cases t <;> first | trivial | exact absurd rfl (notNamed _)

theorem nameAllows_withPos {R : Reference → Prop} (moved : ∀ ref pos, R ref → R { ref with pos := pos }) {t : Ty}
    (pos : Position) (allows : r.NameAllows R t) : r.NameAllows R (t.withPos pos) := by
  cases t with
  | named ref =>
    rcases allows with ⟨plain, noType⟩ | here
    · exact .inl ⟨plain, noType⟩
    · exact .inr (moved ref pos here)
  | _ => trivial

/-- When all that one comes to by opening a result satisfies `P`, where nothing but names and unions may fail to. Of
tuples, records and callables nothing is asked that concerns their parts, so that the bases of classes may hold anything. -/
theorem rule_opened {In : Scope → Ty → Prop} {Q P : Ty → Prop} (inherited : Ty.Inherited Q (Ty.Opened P))
    (other : ∀ {t : Ty}, (∀ ref, t ≠ .named ref) → t.isUnion = false → P t)
    (noType : ∀ {s ref args}, In s (.named ref) → args.length = ref.args.length → r.NamesNoType (ref.withArgs args) →
      P (.named (ref.withArgs args))) (reads : r.Reads In)
    (plain : ∀ {s ref}, In s (.named ref) → ref.optional = false)
    (targets : ∀ {decl}, r.table.Holds (.aliasDef decl) → decl.TargetAllows Q)
    (keepSettled : ∀ {s t}, t.isSettled → In s t → t.Opened P) : r.Rule In fun _ _ t => t.Opened P where
  reads := reads
  widen _ _ _ opened := opened
  keepSettled := keepSettled
  keepForward _ _ _ _ := .of_other (other nofun rfl) rfl
  keepVariable {_ _ ref _ _} given found notForm defined _ _ := by
    have bare : ref.optional = false := plain given
    have kept : P (.named (ref.withArgs ref.args)) := noType given rfl ⟨bare, _, _, found, notForm, defined, rfl⟩
    cases ref
    exact .of_other kept rfl
  makeAny _ _ _ := inherited.any rfl
  makeNone _ := inherited.leaf rfl rfl
  makeNever _ := inherited.leaf rfl rfl
  makeLiteral _ := inherited.leaf rfl rfl
  makeVariable _ _ := .of_other (other nofun rfl) rfl
  makeUnion pos all := inherited.ofMembers.makeUnion all pos
  makeOptional opened := inherited.ofMembers.makeOptional opened
  makeClassObject pos opened := inherited.ofMembers.makeClassObject opened pos
  makeStar _ _ := .of_other (other nofun rfl) rfl
  makeTuple _ _ _ _ := .of_other (other nofun rfl) rfl
  makeRecord _ _ _ _ := .of_other (other nofun rfl) rfl
  makeTupleBase _ _ _ _ _ _ := .of_other (other nofun rfl) rfl
  makeRecordBase _ _ _ _ _ _ := .of_other (other nofun rfl) rfl
  makeCallable _ _ _ _ := .of_other (other nofun rfl) rfl
  makeForward _ _ _ _ _ := .of_other (other nofun rfl) rfl
  makeName {_ _ ref _ _ args} given found notForm defined isNoType _ sameNumber _ := by
    have bare : ref.optional = false := plain given
    exact .of_other (noType given sameNumber ⟨bare, _, _, found, notForm, defined, isNoType⟩) rfl
  makeTupleInstance _ _ opened := by
    refine inherited.compose rfl fun t member => ?_
    rw [List.mem_singleton.1 member]
    exact opened
  makeInstance _ _ _ _ all := inherited.repaired all
  makeAlias uses _ _ all :=
    inherited.repairedRoot _ (inherited.expansion (AliasDecl.expand_expansion _ _ _ _ _) (targets uses.holds) all)

theorem unionHeight_everywhere {t : Ty} (light : t.weight ≤ heaviest) :
    t.Everywhere fun x => x.unionHeight ≤ heaviest := by
  intro x reached
  have lighter : x.weight ≤ t.weight := by
    induction reached with
    | here => exact Nat.le_refl _
    | child member _ ih =>
      have above := Ty.weight_child_lt member
      exact (ih ((Nat.cast_le.2 above.le).trans light)).trans above.le
  exact (Nat.cast_le.2 ((Ty.unionHeight_le_weight x).trans lighter)).trans light

/-- Unions that are made are flat, so that of unions in unions there are no more than are written. -/
theorem rule_unionHeight (table : r.LightTable heaviest) (positive : 1 ≤ heaviest) :
    r.Rule (fun _ t => t.Everywhere fun x => x.unionHeight ≤ heaviest) fun _ _ t =>
      t.Everywhere fun x => x.unionHeight ≤ heaviest := by
  have other {t : Ty} (notUnion : t.isUnion = false) : (t.unionHeight : ℕ∞) ≤ heaviest := by
    rw [Ty.unionHeight_of_not_union notUnion]
    exact zero_le
  have nodes : Ty.OfNodes fun x => (x.unionHeight : ℕ∞) ≤ heaviest := {
    inst _ _ _ := other rfl
    union {ms} pos form := by
      have low : (Ty.union ms pos).unionHeight ≤ 0 + 1 :=
        Ty.unionHeight_le (fun m member => (Ty.unionHeight_of_not_union (form.flat m member)).le) pos
      exact (Nat.cast_le.2 low).trans positive
    move pos low := low
    other _ notUnion := other notUnion }
  have ofWeight {t : Ty} {d : Definition} (holds : r.table.Holds d) (light : t.weight ≤ d.weight) :
      t.Everywhere fun x => (x.unionHeight : ℕ∞) ≤ heaviest :=
    unionHeight_everywhere
      ((Nat.cast_le.2 (light.trans (SymbolTable.weight_le_of_holds holds))).trans table.weight)
  refine .ofNodes nodes (.everywhere (fun t isAny => other (by cases t <;> first | rfl | cases isAny)) (fun _ _ => other rfl)
    (fun holds _ atBase t member => ofWeight holds ?_) fun holds _ atBase field member => ofWeight holds ?_)
    (fun _ all => all) (fun all _ t member => all.child member) (fun all _ _ _ t member => all.child member)
    (fun _ _ made => ?_) (fun pos _ _ _ made => ?_) fun {_ decl ref _ t} uses _ _ made expanded => ?_
  · exact (ClassDecl.weight_tupleBase_le atBase member).trans (Nat.le_succ _)
  · exact (ClassDecl.weight_recordBase_le atBase member).trans (Nat.le_succ _)
  · exact Ty.everywhere_iff.2 ⟨other rfl, fun t member => List.mem_singleton.1 member ▸ made⟩
  · exact Ty.everywhere_iff.2 ⟨other rfl, repaired_args_everywhere nodes made⟩
  · have target : decl.target.Everywhere fun x => (x.unionHeight : ℕ∞) ≤ heaviest :=
      ofWeight uses.holds (Nat.le_succ _)
    have all := expanded.everywhere nodes (fun _ _ _ _ => other rfl) target made
    cases t with
    | inst i => exact Ty.everywhere_iff.2 ⟨other rfl, repaired_args_everywhere nodes fun c member => all.child member⟩
    | _ => exact all

/-- The references that are found when a type is read as literals name no type or weigh less than `limit`. -/
structure LighterName (r : Resolver) (heaviest : ℕ∞) (limit : Nat) (t : Ty) : Prop where
  allows : r.NameAllows (fun ref => (Ty.named ref).weight < limit ∧ (Ty.named ref).Everywhere (r.InLiteral heaviest)) t
  bare : r.BareName heaviest t

abbrev Lighter (r : Resolver) (heaviest : ℕ∞) (limit : Nat) : Ty → Prop := Ty.Opened (r.LighterName heaviest limit)

theorem lighterName_of_not_named {t : Ty} (notNamed : ∀ ref, t ≠ .named ref) : r.LighterName heaviest limit t := by
  refine ⟨nameAllows_of_not_named notNamed, ?_⟩
  cases t <;> first | trivial | exact absurd rfl (notNamed _)

theorem bareName_withPos {t : Ty} (pos : Position) (bare : r.BareName heaviest t) : r.BareName heaviest (t.withPos pos) := by
  cases t with
  | named ref => exact fun limited noType => bare limited ⟨noType.plain, noType.noType⟩
  | _ => trivial

theorem lighter_of_inLiteral {t : Ty} (light : t.weight < limit) (inLiteral : t.Everywhere (r.InLiteral heaviest)) :
    r.Lighter heaviest limit t := by
  refine .of_parts (S := fun t => t.weight < limit ∧ t.Everywhere (r.InLiteral heaviest)) (fun {t} here => ⟨?_, here.2.root.bare⟩)
    (fun here c member => ⟨Nat.lt_trans (Ty.weight_child_lt member) here.1, here.2.child member⟩) ⟨light, inLiteral⟩
  cases t with
  | named ref => exact .inr here
  | _ => trivial

theorem lighter_inherited (r : Resolver) (heaviest : ℕ∞) (limit : Nat) :
    Ty.Inherited (fun t => ∀ ref, t ≠ .named ref) (r.Lighter heaviest limit) := by
  refine Ty.Opened.inherited lighterName_of_not_named (fun {t} composed => ?_) (fun {t} cs _ notNamed => ?_)
    fun {t} pos here => ⟨nameAllows_withPos ?_ pos here.allows, bareName_withPos pos here.bare⟩
  · rintro ref rfl
    cases composed
  · intro ref same
    cases t <;> first | exact notNamed _ rfl | cases same
  · rintro ⟨name, args, optional, emptyTuple, quoted, quotedClass, at_⟩ pos ⟨light, inLiteral⟩
    have atRoot := inLiteral.root
    exact ⟨light, Ty.everywhere_iff.2
      ⟨⟨atRoot.notOptional, bareName_withPos pos atRoot.bare⟩, fun c member => inLiteral.child member⟩⟩

/-- A name within a literal is as light as the literal. -/
theorem light_of_lighter (positive : 1 ≤ heaviest) (small : limit ≤ heaviest) {ref : Reference}
    (lighter : r.Lighter heaviest limit (.named ref)) (fits : (Ty.named ref).Throughout (r.LiteralFits heaviest)) :
    r.Light heaviest (.named ref) := by
  refine ⟨fits, ?_⟩
  rcases lighter.root.allows with noType | ⟨less, _⟩
  · by_cases limited : heaviest = ⊤
    · rw [limited]
      exact le_top
    · have bare : ref.args = [] := lighter.root.bare limited noType
      have alone : (Ty.named ref).weight = 1 := by
        cases ref
        cases bare
        rfl
      rw [alone]
      exact positive
  · exact (Nat.cast_le.2 less.le).trans small

/-- What is read within a literal resolves to what can be read there. -/
theorem rule_lighter (limit : Nat) (table : r.LightTable heaviest) :
    r.Rule (fun _ t => t.Everywhere (r.Within heaviest limit)) fun _ _ t => r.Lighter heaviest limit t := by
  have notNamedIs {t : Ty} (notNamed : ∀ ref, t ≠ .named ref) (light : ∀ i, t = .inst i → t.weight < limit) :
      r.Within heaviest limit t := by
    have lighter : r.LighterName heaviest limit t := lighterName_of_not_named notNamed
    refine ⟨⟨?_, lighter.bare⟩, light⟩
    cases t <;> first | trivial | exact absurd rfl (notNamed _)
  refine rule_opened (lighter_inherited r heaviest limit) (fun notNamed _ => lighterName_of_not_named notNamed)
    (fun {_ ref args} given sameNumber noType => ⟨.inl noType, fun limited _ => ?_⟩)
    (.everywhere (fun t isAny => notNamedIs ?_ ?_) fun _ _ => notNamedIs nofun nofun) (fun within => within.root.notOptional)
    (fun holds x reached => (table.fits.target holds x reached).imp_left fun allowed => allowed.1) ?_
  · have bare : ref.args = [] := given.root.bare limited ⟨noType.plain, noType.noType⟩
    have none : args = [] := List.eq_nil_of_length_eq_zero (by rw [sameNumber, bare, List.length_nil])
    cases ref
    exact none
  · rintro ref rfl
    cases isAny
  · rintro i rfl
    cases isAny
  · intro _ t settled within
    refine .of (lighterName_of_not_named ?_) fun opens c member => ?_
    · rintro ref rfl
      cases settled
    · cases t with
      | inst i =>
        have lighter := Ty.weight_child_lt member
        have light := within.root.light i rfl
        exact lighter_of_inLiteral (by omega) ((within.child member).imp fun _ inside => inside.toInLiteral)
      | union => cases settled
      | _ => cases opens

end Resolver

end TypeResolution
