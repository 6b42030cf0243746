import TypeResolution.Proofs.LiteralMembers
import TypeResolution.Proofs.OptionalSpellings
import TypeResolution.Proofs.SettledVariables
import TypeResolution.Proofs.Termination

namespace TypeResolution

open Resolve

namespace Ty

/-- A type is no union of nothing. -/
def NotEmptyUnion : Ty → Prop
  | .union ms _ => ms ≠ []
  | _ => True

/-- A type is neither a reference with the suffix `?` nor a union of nothing. -/
def Legible (t : Ty) : Prop := t.NotOptional ∧ t.NotEmptyUnion

/-- A type is neither a reference nor a union of nothing. -/
structure Plain (t : Ty) : Prop where
  notNamed (ref : Reference) : t ≠ .named ref
  notEmpty : t.NotEmptyUnion

theorem notEmptyUnion_of_not_union {t : Ty} (notUnion : t.isUnion = false) : t.NotEmptyUnion := by
  cases t <;> trivial

theorem legible_of_any {t : Ty} (isAny : t.isAny) : t.Legible := by
  cases t <;> first | exact ⟨trivial, trivial⟩ | cases isAny

theorem isLiteral_of_equal {t u : Ty} (equal : t ≈ u) (literal : u.IsLiteral) : t.IsLiteral := by
  have sameForm := form_of_beq equal
  rcases isLiteral_cases literal with ⟨l, rfl⟩ | ⟨pos, rfl⟩
  · cases t <;> first | trivial | cases sameForm
  · cases t <;> first | trivial | cases sameForm

theorem not_union_of_isLiteral {t : Ty} (literal : t.IsLiteral) : t.isUnion = false := by
  rcases isLiteral_cases literal with ⟨_, rfl⟩ | ⟨_, rfl⟩ <;> rfl

theorem flatMap_members_of_literals {ts : List Ty} (literals : ∀ t ∈ ts, t.IsLiteral) : ts.flatMap members = ts :=
  flatMap_members_of_not_union fun t member => not_union_of_isLiteral (literals t member)

/-- A union of literals, one at least, has no other members. -/
theorem isLiteral_of_mem_makeUnion {ts : List Ty} (some_ : ts ≠ []) (literals : ∀ t ∈ ts, t.IsLiteral) {pos : Position}
    {m : Ty} (member : m ∈ (makeUnion ts pos).members) : m.IsLiteral := by
  have flat := flatMap_members_of_literals literals
  obtain ⟨t, atItem, equal⟩ := (members_makeUnion (by rwa [flat]) pos).left m member
  rw [flat] at atItem
  exact isLiteral_of_equal equal (literals t atItem)

/-- A union may be made in portions, none of them empty. -/
theorem makeUnion_flatten {parts : List (List Ty)} (notEmpty : ∀ ts ∈ parts, ts.flatMap members ≠ []) (p q : Position) :
    makeUnion parts.flatten p ≈ makeUnion (parts.map (makeUnion · q)) p := by
  refine makeUnion_equal ?_ p p
  rw [List.flatten_eq_flatMap, List.flatMap_assoc, List.flatMap_map]
  refine SameTypes.flatMap_of_forall₂ (List.forall₂_same.2 fun ts member => ?_)
  exact (members_makeUnion (notEmpty ts member) q).symm

end Ty

namespace Resolve

variable {α : Type} {m m' : Resolve α} {s : Scope} {a : α}

/-- In the scope `s`, `m` gives `a`, whatever it reports. -/
abbrev Gives (m : Resolve α) (s : Scope) (a : α) : Prop := Yields (fun _ => True) m s a

theorem gives_iff : Gives m s a ↔ (outcome m s).map Prod.fst = some a := by
  unfold Gives Yields outcome
  cases m (.start s) with
  | none => simp
  | some made => simp [Prod.ext_iff]

theorem gives_congr (same : outcome m s = outcome m' s) : Gives m s a ↔ Gives m' s a := by
  rw [gives_iff, gives_iff, same]

theorem gives_map_iff {β : Type} {f : α → β} {b : β} :
    Gives (m >>= fun a => Pure.pure (f a)) s b ↔ ∃ a, Gives m s a ∧ b = f a := by
  constructor
  · rintro ⟨q, ran, _⟩
    obtain ⟨⟨a, q'⟩, ranFirst, made⟩ := Option.bind_eq_some_iff.1 ran
    cases made
    exact ⟨a, ⟨q, ranFirst, fun _ _ => trivial⟩, rfl⟩
  · rintro ⟨a, ⟨q, ran, _⟩, rfl⟩
    refine ⟨q, ?_, fun _ _ => trivial⟩
    change (m (.start s)).bind _ = _
    rw [ran]
    rfl

theorem collectWhile_singleton {β γ : Type} (f : γ → Resolve (Option (List β))) (x : γ) : collectWhile f [x] = f x := by
  have nothingMore : collectMore (collectWhile f []) = Pure.pure := by
    funext found
    cases found with
    | none => rfl
    | some found =>
      change (Pure.pure (some (found ++ [])) : Resolve (Option (List β))) = _
      rw [List.append_nil]
  rw [collectWhile_cons, nothingMore, bind_pure]

/-- Something is collected, at least that there is nothing, if something is given for each element. -/
theorem gives_collectWhile {β γ : Type} {f : γ → Resolve (Option (List β))} [∀ x, Steady (f x)] {xs : List γ}
    (each : ∀ x ∈ xs, ∃ found, Gives (f x) s found) : ∃ found, Gives (collectWhile f xs) s found := by
  induction xs with
  | nil => exact ⟨some [], .start s, rfl, fun _ _ => trivial⟩
  | cons x xs ih =>
    obtain ⟨head, q, ranHead, _⟩ := each x List.mem_cons_self
    obtain ⟨tail, q', ranTail, _⟩ := ih fun y member => each y (List.mem_cons_of_mem x member)
    simp only [Gives, Yields, collectWhile_cons, run_bind, ranHead, Option.bind_some]
    cases head with
    | none => exact ⟨none, _, rfl, fun _ _ => trivial⟩
    | some head =>
      refine ⟨tail.map (head ++ ·), q.join q', ?_, fun _ _ => trivial⟩
      have ranMore : collectMore (collectWhile f xs) (some head) (.start s) = some (tail.map (head ++ ·), q') := by
        change (collectWhile f xs (.start s)).bind _ = _
        rw [ranTail]
        rfl
      rw [ranMore]
      rfl

/-- What is collected is not empty if nothing that is given is. -/
theorem yields_notEmpty {β : Type} {f : α → Resolve (Option (List β))} [∀ x, Steady (f x)] {allowed : Problem → Prop}
    {xs : List α} (some_ : xs ≠ []) (each : ∀ x ∈ xs, ∀ found, Yields allowed (f x) s (some found) → found ≠ [])
    {found : List β} (yields : Yields allowed (collectWhile f xs) s (some found)) : found ≠ [] := by
  cases xs with
  | nil => exact absurd rfl some_
  | cons x xs =>
    rw [collectWhile_cons] at yields
    obtain ⟨head, atHead, next⟩ := yields.bind
    cases head with
    | none => cases next.pure
    | some head =>
      obtain ⟨tail, _, made⟩ := next.map
      obtain ⟨tail, _, rfl⟩ := Option.map_eq_some_iff.1 made.symm
      exact List.append_ne_nil_of_left_ne_nil (each x List.mem_cons_self head atHead) tail

end Resolve

namespace Resolver

variable {r : Resolver} {s : Scope}

/-- The expression is resolved to `a` in the scope `s`, once the recursion may go deep enough. -/
def ResolvesTo (r : Resolver) (s : Scope) (t a : Ty) : Prop := ∃ bound, Gives ((r.recursion bound).expr t .top) s a

theorem resolvesTo_of_resolve {t : Ty} {result : Resolution} {q : Progress}
    (ran : r.resolve t (.start s) = some (result, q)) : r.ResolvesTo s t result.type :=
  ⟨_, yields_of_resolve ran fun _ _ => trivial⟩

/-- What is given with some recursion is given with more. -/
theorem gives_more (noHooks : r.hooks = .empty) {t a : Ty} {bound bound' : Nat} (less : bound ≤ bound')
    (gives : Gives ((r.recursion bound).expr t .top) s a) : Gives ((r.recursion bound').expr t .top) s a := by
  obtain ⟨q, ran, _⟩ := gives
  obtain ⟨_, ran', _⟩ := (follows_recursion Leeway.exact noHooks less).expr rfl t s a q ran fun _ _ => trivial
  exact ⟨_, ran', fun _ _ => trivial⟩

theorem ResolvesTo.unique (noHooks : r.hooks = .empty) {t a b : Ty} (first : r.ResolvesTo s t a)
    (second : r.ResolvesTo s t b) : a = b := by
  obtain ⟨bound, first⟩ := first
  obtain ⟨bound', second⟩ := second
  have atMax := gives_iff.1 (gives_more noHooks (Nat.le_max_left bound bound') first)
  have atMax' := gives_iff.1 (gives_more noHooks (Nat.le_max_right bound bound') second)
  exact Option.some_inj.1 (atMax.symm.trans atMax')

/-- Where the resolution of an expression ends, it is resolved to something. -/
theorem resolvesTo_of_safe (noHooks : r.hooks = .empty) (table : r.SafeTable) {t : Ty} (safe : r.Safe t) :
    ∃ a, r.ResolvesTo s t a := by
  have near : maxNesting < Nesting.top.level + (maxNesting + 1) := by decide
  have ends := exprs_end noHooks table.light le_top (maxNesting + 1) near (light_of_safe safe)
  obtain ⟨bound, a, q, ran⟩ := (ends (.start s)).ends
  exact ⟨a, bound, q, ran bound (Nat.le_refl bound), fun _ _ => trivial⟩

section Numbers

variable {again : Recursion} [again.Steady] {level : Nesting} (i j : Nat) (pos : Position)

theorem noLiteral_anyNumber (problem problem' : Problem) :
    (Sameness.silent s).same (noLiteral pos problem) (noLiteral pos problem') := rfl

theorem literalsOf_anyNumber
    (each : ∀ t, (Sameness.silent s).same (again.literals i t pos level) (again.literals j t pos level)) (t : Ty) :
    (Sameness.silent s).same (r.literalsOf again i t pos level) (r.literalsOf again j t pos level) := by
  unfold literalsOf
  split
  · split
    · exact (Sameness.silent s).refl _
    · exact noLiteral_anyNumber pos _ _
  · exact (Sameness.silent s).refl _
  · dsimp only
    split <;> exact noLiteral_anyNumber pos _ _
  · exact (Sameness.silent s).refl _
  · exact (Sameness.silent s).refl _
  · exact (Sameness.silent s).refl _
  · exact Sameness.collectWhile each _
  · exact noLiteral_anyNumber pos _ _

/-- The number of a parameter counts for its reports alone. -/
theorem literals_anyNumber (bound : Nat) (t : Ty) (level : Nesting) :
    (Sameness.silent s).same ((r.recursion bound).literals i t pos level)
      ((r.recursion bound).literals j t pos level) := by
  induction bound generalizing t level with
  | zero => exact (Sameness.silent s).refl _
  | succ bound ih =>
    have inside (u : Ty) : (Sameness.silent s).same (r.literalsOf (r.recursion bound) i u pos level)
        (r.literalsOf (r.recursion bound) j u pos level) := literalsOf_anyNumber i j pos (fun t => ih t level) u
    change (Sameness.silent s).same (r.literals (r.recursion bound) i t pos level)
      (r.literals (r.recursion bound) j t pos level)
    unfold literals
    split
    · rename_i ref
      split
      · exact (Sameness.silent s).refl _
      · exact Sameness.after ((r.recursion bound).literalName ref level.deeper) inside
    · exact inside _

/-- Parameters are read in the same way whatever numbers they have. -/
theorem collectWhile_anyNumber {f : Nat → Ty → Resolve (Option (List Ty))} [∀ i t, Steady (f i t)]
    (each : ∀ i j t, (Sameness.silent s).same (f i t) (f j t)) (ts : List Ty) (start : Nat) :
    (Sameness.silent s).same (collectWhile (fun (t, index) => f index t) (ts.zipIdx start)) (collectWhile (f 1) ts) := by
  induction ts generalizing start with
  | nil => exact (Sameness.silent s).refl _
  | cons t ts ih =>
    rw [List.zipIdx_cons, collectWhile_cons, collectWhile_cons]
    refine (Sameness.silent s).bind (each start 1 t) fun found => ?_
    cases found with
    | none => exact (Sameness.silent s).refl _
    | some found => exact Sameness.andThen (ih (start + 1)) _

end Numbers

/-- What one comes to in a type that is read as literals: no empty union, and only references that name no type or are
legible with all that they are written with. -/
abbrev ReadsOut (r : Resolver) : Ty → Prop :=
  Ty.Opened fun t => r.NameAllows (fun ref => (Ty.named ref).Everywhere Ty.Legible) t ∧ t.NotEmptyUnion

theorem readsOut_of_legible {t : Ty} (legible : t.Everywhere Ty.Legible) : r.ReadsOut t := by
  refine .of_parts (S := Ty.Everywhere Ty.Legible) (fun {t} here => ⟨?_, here.root.2⟩) (fun here _ => here.child) legible
  cases t with
  | named ref => exact .inr here
  | _ => trivial

theorem readsOut_inherited (r : Resolver) : Ty.Inherited Ty.Plain r.ReadsOut := by
  refine Ty.Opened.inherited (fun here => ⟨nameAllows_of_not_named here.notNamed, here.notEmpty⟩) (fun {t} composed => ?_)
    (fun {t} cs notUnion here => ?_) (fun {t} pos here => ⟨nameAllows_withPos ?_ pos here.1, ?_⟩)
  · constructor
    · rintro ref rfl
      cases composed
    · cases t with
      | union ms =>
        rintro rfl
        cases composed
      | _ => trivial
  · refine ⟨?_, Ty.notEmptyUnion_of_not_union ((Ty.isUnion_withChildren t cs).trans notUnion)⟩
    intro ref same
    cases t <;> first | exact here.notNamed _ rfl | cases same
  · intro ref pos legible
    exact Ty.everywhere_iff.2 ⟨legible.root, fun c member => legible.child member⟩
  · have notEmpty := here.2
    cases t <;> exact notEmpty

/-- What is legible resolves to what can be read out. -/
theorem rule_readsOut (targets : ∀ {decl}, r.table.Holds (.aliasDef decl) → decl.TargetAllows Ty.Plain) :
    r.Rule (fun _ t => t.Everywhere Ty.Legible) fun _ _ t => r.ReadsOut t := by
  exact rule_opened (readsOut_inherited r)
    (fun notNamed notUnion => ⟨nameAllows_of_not_named notNamed, Ty.notEmptyUnion_of_not_union notUnion⟩)
    (fun _ _ noType => ⟨.inl noType, trivial⟩) (.everywhere (fun _ => Ty.legible_of_any) fun _ _ => ⟨trivial, trivial⟩)
    (fun legible => legible.root.1) targets fun _ => readsOut_of_legible

section Parameters

variable (noHooks : r.hooks = .empty) (targets : ∀ {decl}, r.table.Holds (.aliasDef decl) → decl.TargetAllows Ty.Plain)
  {index : Nat} {pos : Position} {level : Nesting}

theorem literalOf_notEmpty {allowed : Problem → Prop} {value : LiteralValue} {className : String} {found : List Ty}
    (yields : Yields allowed (r.literalOf value className pos) s (some found)) : found ≠ [] := by
  rw [literalOf_eq] at yields
  obtain ⟨_, _, made⟩ := yields.map
  obtain ⟨_, _, rfl⟩ := Option.map_eq_some_iff.1 made.symm
  exact List.cons_ne_nil _ _

theorem literalsOf_notEmpty {allowed : Problem → Prop} {again : Recursion} [again.Steady] {t : Ty} {found : List Ty}
    (notEmpty : t.NotEmptyUnion)
    (members : ∀ ms at_, t = .union ms at_ → ∀ m ∈ ms, ∀ found,
      Yields allowed (again.literals index m pos level) s (some found) → found ≠ [])
    (yields : Yields allowed (r.literalsOf again index t pos level) s (some found)) : found ≠ [] := by
  unfold literalsOf at yields
  split at yields
  · split at yields
    · cases yields.pure
    · cases (yields_noLiteral yields).2
  · exact literalOf_notEmpty yields
  · dsimp only at yields
    split at yields <;> cases (yields_noLiteral yields).2
  · cases yields.pure
    exact List.cons_ne_nil _ _
  · cases yields.pure
    exact List.cons_ne_nil _ _
  · cases yields.pure
    exact List.cons_ne_nil _ _
  · exact yields_notEmpty notEmpty (members _ _ rfl) yields
  · cases (yields_noLiteral yields).2

include noHooks targets

/-- Each parameter that stands for literals stands for one at least. -/
theorem literals_notEmpty {allowed : Problem → Prop} (bound : Nat) {t : Ty} (opened : r.ReadsOut t) {found : List Ty}
    (yields : Yields allowed ((r.recursion bound).literals index t pos level) s (some found)) : found ≠ [] := by
  induction bound generalizing t level found with
  | zero => exact yields.stuck.elim
  | succ bound ih =>
    have inside {u : Ty} (opened : r.ReadsOut u) {level : Nesting} {found : List Ty}
        (yields : Yields allowed (r.literalsOf (r.recursion bound) index u pos level) s (some found)) : found ≠ [] := by
      refine literalsOf_notEmpty opened.root.2 (fun ms at_ isUnion m member found => ?_) yields
      subst isUnion
      exact ih (opened.part rfl m member)
    have yields : Yields allowed (r.literals (r.recursion bound) index t pos level) s (some found) := yields
    by_cases isNamed : ∃ ref, t = .named ref
    · obtain ⟨ref, rfl⟩ := isNamed
      cases quoted : ref.quoted with
      | some value =>
        simp only [literals, quoted] at yields
        exact literalOf_notEmpty yields
      | none =>
        simp only [literals, quoted] at yields
        obtain ⟨u, ⟨q, ran, reported⟩, next⟩ := yields.bind
        cases bound with
        | zero => cases ran
        | succ bound =>
          have ran : r.reference (r.recursion bound) ref level.deeper true (.start s) = some (u, q) := ran
          have rule := rule_readsOut targets
          -- A name of what is no type may be left by an earlier resolution, with parts that are not legible: it stands for
          -- no union, whatever they are. Any other name is legible, so that its type can be read out in turn.
          rcases opened.root.1 with noType | legible
          · have single := (reference_single noHooks rule noType bound _ true _ u q ran).2
            refine literalsOf_notEmpty (Ty.notEmptyUnion_of_not_union single) (fun ms at_ isUnion => ?_) next
            subst isUnion
            cases single
          · have made := (reference_ensures rule (recursion_obeys rule noHooks bound) noHooks ref _ true _ u q ran).2.2
            exact inside (made legible) next
    · rw [literals_of_not_named fun ref same => isNamed ⟨ref, same⟩] at yields
      exact inside opened yields

theorem literals_isLiteral {allowed : Problem → Prop} (bound : Nat) {t : Ty} {found : List Ty}
    (yields : Yields allowed ((r.recursion bound).literals index t pos level) s (some found)) :
    ∀ t ∈ found, t.IsLiteral := by
  obtain ⟨q, ran, _⟩ := yields
  have obeys := recursion_obeys (rule_readsOut targets) noHooks bound
  exact (obeys.literals index t pos level (.start s) _ q ran).2.2 found rfl

end Parameters

/-- What `Literal` comes to when it is known which literals its parameters stand for. -/
def literalUnion (pos : Position) (found : Option (List Ty)) : Ty := (found.map (.makeUnion · pos)).getD (.anyAt .error pos)

section Form

variable (noHooks : r.hooks = .empty) {lit : Reference} (named : r.namedForm? s lit.name = some .literal)
  (bare : lit.optional = false)

include noHooks named bare

/-- `Literal` is the union of what its parameters are read as one after the other, whichever numbers they have. -/
theorem gives_literal_iff {args : List Ty} (some_ : args ≠ []) (bound : Nat) {a : Ty} :
    Gives ((r.recursion (bound + 1)).expr (.named (lit.withArgs args)) .top) s a ↔
      ∃ found, Gives (collectWhile (fun t => (r.recursion (bound + 1)).literals 1 t lit.pos .top) args) s found ∧
        a = literalUnion lit.pos found := by
  have atForm : (r.recursion (bound + 1)).expr (.named (lit.withArgs args)) .top (.start s) =
      r.literalForm (r.recursion bound) (lit.withArgs args) .top (.start s) := by
    have namedApplied : r.namedForm? s (lit.withArgs args).name = some .literal := named
    have bareApplied : (lit.withArgs args).optional = false := bare
    exact reference_of_namedForm noHooks bareApplied namedApplied .top false
  have notEmpty : ¬ (lit.withArgs args).args.isEmpty = true := by simpa [Reference.withArgs] using some_
  have anyNumber := collectWhile_anyNumber (s := s)
    (fun i j t => literals_anyNumber (r := r) i j lit.pos (bound + 1) t .top) args 1
  have collected : (Sameness.silent s).same (r.literalForm (r.recursion bound) (lit.withArgs args) .top)
      (collectWhile (fun t => (r.recursion (bound + 1)).literals 1 t lit.pos .top) args >>= fun found =>
        pure (literalUnion lit.pos found)) := by
    rw [literalForm_eq, if_neg notEmpty]
    exact Sameness.andThen anyNumber _
  rw [gives_congr (congrArg (Option.map _) atForm), gives_congr collected, gives_map_iff]

theorem gives_literalOfOne_iff (t : Ty) (bound : Nat) {a : Ty} :
    Gives ((r.recursion (bound + 1)).expr (.named (lit.withArgs [t])) .top) s a ↔
      ∃ found, Gives ((r.recursion (bound + 1)).literals 1 t lit.pos .top) s found ∧ a = literalUnion lit.pos found := by
  rw [gives_literal_iff noHooks named bare (List.cons_ne_nil t []), collectWhile_singleton]

variable (targets : ∀ {decl}, r.table.Holds (.aliasDef decl) → decl.TargetAllows Ty.Plain) {args : List Ty}
  (some_ : args ≠ []) (legible : ∀ a ∈ args, a.Everywhere Ty.Legible)

include targets some_ legible

/-- What `Literal` is resolved to with all of its parameters comes of what it is resolved to with each of them alone. -/
theorem literal_cases {whole : Ty} (resolves : r.ResolvesTo s (.named (lit.withArgs args)) whole) :
    (whole = .anyAt .error lit.pos ∧ ∃ a ∈ args, r.ResolvesTo s (.named (lit.withArgs [a])) (.anyAt .error lit.pos)) ∨
      ∃ parts, List.Forall₂ (fun a part => r.ResolvesTo s (.named (lit.withArgs [a])) part) args parts ∧
        whole ≈ .makeUnion parts lit.pos ∧ ∀ t ∈ whole :: parts, ∀ m ∈ t.members, m.IsLiteral := by
  obtain ⟨bound, gives⟩ := resolves
  cases bound with
  | zero => exact gives.stuck.elim
  | succ bound =>
    obtain ⟨found, collected, rfl⟩ := (gives_literal_iff noHooks named bare some_ bound).1 gives
    have alone {a : Ty} {found : Option (List Ty)}
        (gives : Gives ((r.recursion (bound + 1)).literals 1 a lit.pos .top) s found) :
        r.ResolvesTo s (.named (lit.withArgs [a])) (literalUnion lit.pos found) :=
      ⟨bound + 1, (gives_literalOfOne_iff noHooks named bare a bound).2 ⟨found, gives, rfl⟩⟩
    cases yields_collectWhile collected with
    | stopped member none => exact .inl ⟨rfl, _, member, alone none⟩
    | @all fs each =>
      have notEmpty (f : List Ty) (atPart : f ∈ fs) : f ≠ [] := by
        obtain ⟨a, member, gives⟩ := forall₂_source each atPart
        exact literals_notEmpty noHooks targets (bound + 1) (readsOut_of_legible (legible a member)) gives
      have literals (f : List Ty) (atPart : f ∈ fs) : ∀ t ∈ f, t.IsLiteral := by
        obtain ⟨a, _, gives⟩ := forall₂_source each atPart
        exact literals_isLiteral noHooks targets (bound + 1) gives
      have someFound : fs.flatten ≠ [] := by
        obtain ⟨a, member⟩ := List.exists_mem_of_ne_nil args some_
        obtain ⟨f, atPart, _⟩ := forall₂_source each.flip member
        exact fun none => notEmpty f atPart (List.flatten_eq_nil_iff.1 none f atPart)
      refine .inr ⟨fs.map (.makeUnion · lit.pos), ?_, ?_, fun t member m inside => ?_⟩
      · exact List.forall₂_map_right_iff.2 (each.imp fun _ _ gives => alone gives)
      · refine Ty.makeUnion_flatten (fun f atPart => ?_) lit.pos lit.pos
        rw [Ty.flatMap_members_of_literals (literals f atPart)]
        exact notEmpty f atPart
      · rcases List.mem_cons.1 member with rfl | member
        · refine Ty.isLiteral_of_mem_makeUnion someFound (fun t member => ?_) inside
          obtain ⟨f, atPart, member⟩ := List.mem_flatten.1 member
          exact literals f atPart t member
        · obtain ⟨f, atPart, rfl⟩ := List.mem_map.1 member
          exact Ty.isLiteral_of_mem_makeUnion (notEmpty f atPart) (literals f atPart) inside

omit targets legible in
/-- `Literal` comes to an end with all of its parameters if it does with each of them alone. -/
theorem literal_resolves (each : ∀ a ∈ args, ∃ part, r.ResolvesTo s (.named (lit.withArgs [a])) part) :
    ∃ whole, r.ResolvesTo s (.named (lit.withArgs args)) whole := by
  -- The parameters come to their ends within bounds of their own; all of them do within the highest of these.
  obtain ⟨bound, atBound⟩ : ∃ bound, ∀ a ∈ args, ∃ part,
      Gives ((r.recursion bound).expr (.named (lit.withArgs [a])) .top) s part := by
    clear some_
    induction args with
    | nil => exact ⟨0, nofun⟩
    | cons a args ih =>
      obtain ⟨part, bound, gives⟩ := each a List.mem_cons_self
      obtain ⟨bound', others⟩ := ih fun b member => each b (List.mem_cons_of_mem a member)
      refine ⟨max bound bound', fun b member => ?_⟩
      rcases List.mem_cons.1 member with rfl | member
      · exact ⟨part, gives_more noHooks (Nat.le_max_left bound bound') gives⟩
      · exact (others b member).imp fun _ => gives_more noHooks (Nat.le_max_right bound bound')
  have atNext (a : Ty) (member : a ∈ args) :
      ∃ found, Gives ((r.recursion (bound + 1)).literals 1 a lit.pos .top) s found := by
    obtain ⟨part, gives⟩ := atBound a member
    have gives := gives_more noHooks (Nat.le_succ bound) gives
    obtain ⟨found, gives, _⟩ := (gives_literalOfOne_iff noHooks named bare a bound).1 gives
    exact ⟨found, gives⟩
  obtain ⟨found, collected⟩ := gives_collectWhile atNext
  exact ⟨_, bound + 1, (gives_literal_iff noHooks named bare some_ bound).2 ⟨found, collected, rfl⟩⟩

/-- `Literal` distributes over its parameters: where it comes to an end, it is resolved to an error exactly if it is with
one of its parameters alone, and otherwise to the union of what it is resolved to with each of them alone, a union of
literals and `None`. It does come to an end if it does with each parameter alone, and if the table and the parameters hold
nothing whose resolution may not end. -/
theorem literal_distributes :
    (∀ whole, r.ResolvesTo s (.named (lit.withArgs args)) whole →
      (whole = .anyAt .error lit.pos ↔ ∃ a ∈ args, r.ResolvesTo s (.named (lit.withArgs [a])) (.anyAt .error lit.pos)) ∧
      (whole ≠ .anyAt .error lit.pos →
        ∃ parts, List.Forall₂ (fun a part => r.ResolvesTo s (.named (lit.withArgs [a])) part) args parts ∧
          whole ≈ .makeUnion parts lit.pos ∧ ∀ m ∈ whole.members, m.IsLiteral)) ∧
    ((∀ a ∈ args, ∃ part, r.ResolvesTo s (.named (lit.withArgs [a])) part) →
      ∃ whole, r.ResolvesTo s (.named (lit.withArgs args)) whole) ∧
    (r.SafeTable → (∀ a ∈ args, r.Safe a) → ∃ whole, r.ResolvesTo s (.named (lit.withArgs args)) whole) := by
  refine ⟨fun whole resolves => ?_, literal_resolves noHooks named bare some_, fun table safe => ?_⟩
  · have noError (part : Ty) (literals : ∀ m ∈ part.members, m.IsLiteral) : part ≠ .anyAt .error lit.pos := by
      rintro rfl
      exact literals _ (List.mem_singleton_self _)
    rcases literal_cases noHooks named bare targets some_ legible resolves with
      ⟨isError, failing⟩ | ⟨parts, each, equal, literals⟩
    · exact ⟨iff_of_true isError failing, fun other => absurd isError other⟩
    · have notError := noError whole (literals whole List.mem_cons_self)
      refine ⟨iff_of_false notError ?_, fun _ => ⟨parts, each, equal, literals whole List.mem_cons_self⟩⟩
      rintro ⟨a, member, failing⟩
      obtain ⟨part, atPart, alone⟩ := forall₂_source each.flip member
      exact noError part (literals part (List.mem_cons_of_mem whole atPart)) (ResolvesTo.unique noHooks alone failing)
  · refine resolvesTo_of_safe noHooks table (.of (fun _ a member => ?_) fun a member => safe a ?_)
    · exact (legible a member).imp fun _ => And.left
    · simpa [Ty.parts, Ty.declared, Ty.children, Reference.withArgs] using member

end Form

/-- A module with an alias `Level` for `Literal[1, None]`. -/
def withLevel : Resolver :=
  let one : Ty := .literal ⟨.int 1, .of (.plain "builtins.int") [] .unknown, .unknown⟩
  let level : AliasDecl := ⟨"m.Level", .union [one, .noneType .unknown] .unknown, [], false, []⟩
  ⟨(SymbolTable.withPrelude "m").define (.aliasDef level), .empty, .default, .default⟩

theorem plainTargets_withLevel {decl : AliasDecl} (holds : withLevel.table.Holds (.aliasDef decl)) :
    decl.TargetAllows Ty.Plain := by
  rcases SymbolTable.holds_define holds with same | holds
  · cases same
    refine Ty.everywhere_iff.2 ⟨.inl ⟨nofun, List.cons_ne_nil _ _⟩, fun c member => ?_⟩
    rcases List.mem_cons.1 member with rfl | member
    · exact Ty.everywhere_of_leaf rfl (.inl ⟨nofun, trivial⟩)
    · rw [List.mem_singleton.1 member]
      exact Ty.everywhere_of_leaf rfl (.inl ⟨nofun, trivial⟩)
  · obtain ⟨_, _, _, rfl⟩ := Prelude.aliasDef_mem (SymbolTable.holds_withPrelude holds)
    exact Ty.everywhere_of_leaf rfl (.inl ⟨nofun, trivial⟩)

/-- `Literal[Level, 'a']` is the union of `Literal[Level]`, which is what `Level` stands for, and of `Literal['a']`. -/
theorem literal_distributes_level :
    let level : Ty := .named (.of "Level" [])
    let text : Ty := .scalar (some (.str "a")) "builtins.str" none .unknown
    let literal (args : List Ty) : Ty := .named ((Reference.of "typing.Literal" []).withArgs args)
    ∃ whole parts, withLevel.ResolvesTo .root (literal [level, text]) whole ∧
      List.Forall₂ (fun a part => withLevel.ResolvesTo .root (literal [a]) part) [level, text] parts ∧
      whole ≈ .makeUnion parts .unknown ∧ ∀ m ∈ whole.members, m.IsLiteral := by
  intro level text literal
  have ends : (withLevel.resolve (literal [level, text]) (.start .root)).any (·.1.type.isUnion) := rfl
  obtain ⟨⟨result, q⟩, ran, isUnion⟩ := (Option.any_eq_true _ _).1 ends
  have legible (a : Ty) (member : a ∈ [level, text]) : a.Everywhere Ty.Legible := by
    rcases List.mem_cons.1 member with rfl | member
    · exact Ty.everywhere_of_leaf rfl ⟨rfl, trivial⟩
    · rw [List.mem_singleton.1 member]
      exact Ty.everywhere_of_leaf rfl ⟨trivial, trivial⟩
  have isForm : withLevel.namedForm? .root (Reference.of "typing.Literal" []).name = some .literal := rfl
  have resolves := resolvesTo_of_resolve ran
  obtain ⟨_, distributes⟩ :=
    (literal_distributes rfl isForm rfl plainTargets_withLevel (List.cons_ne_nil _ _) legible).1 _ resolves
  obtain ⟨parts, each, equal, literals⟩ := distributes fun isError => by
    rw [isError] at isUnion
    cases isUnion
  exact ⟨result.type, parts, resolves, each, equal, literals⟩

end Resolver

end TypeResolution
