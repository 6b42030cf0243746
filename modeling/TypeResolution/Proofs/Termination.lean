import Mathlib.Data.Finset.Card
import TypeResolution.Proofs.FormsEnd
import TypeResolution.Proofs.LiteralNames
import TypeResolution.Proofs.Prelude

namespace TypeResolution

open Resolve

namespace Resolver

variable {r : Resolver}

/-- The full names of the type variables of the table. -/
def typeVarNames (r : Resolver) : Finset String :=
  (r.table.symbols.values.filterMap fun symbol =>
    match symbol.definition with
    | some (.typeVarDef decl) => some decl.fullname
    | _ => none).toFinset

/-- Those type variables of the table that a scope does not bind. -/
def unbound (r : Resolver) (s : Scope) : Finset String := r.typeVarNames.filter fun name => s.find? name = none

theorem mem_typeVarNames {decl : TypeVarDecl} (holds : r.table.Holds (.typeVarDef decl)) :
    decl.fullname ∈ r.typeVarNames := by
  obtain ⟨fullname, symbol, found, defined⟩ := holds
  obtain ⟨entry, atName, rfl⟩ := Option.map_eq_some_iff.1 found
  refine List.mem_toFinset.2 (List.mem_filterMap.2 ⟨entry.2, ?_, ?_⟩)
  · exact List.mem_map_of_mem (List.mem_of_find?_eq_some atName)
  · rw [defined]

theorem unbound_subset {s scope : Scope} (inside : scope.BindsAllOf s) : r.unbound scope ⊆ r.unbound s := by
  intro name member
  obtain ⟨known, free⟩ := Finset.mem_filter.1 member
  refine Finset.mem_filter.2 ⟨known, ?_⟩
  by_contra bound
  have inScope := inside name (Option.isSome_iff_ne_none.2 bound)
  rw [free] at inScope
  cases inScope

theorem unbound_innerScope_le (s : Scope) (signature : Signature) :
    (r.unbound (r.innerScope s signature)).card ≤ (r.unbound s).card :=
  Finset.card_le_card (unbound_subset (r.innerScope_bindsAllOf s signature))

/-- A signature declares its variables, or else it binds one more variable of the table than there were bound. -/
theorem declared_or_unbound_lt {s : Scope} {signature : Signature} {binding : TypeVarBinding}
    (member : binding ∈ r.innerBindings s signature) :
    binding ∈ signature.bindings ∨ (r.unbound (r.innerScope s signature)).card < (r.unbound s).card := by
  have inside := r.innerScope_bindsAllOf s signature
  unfold innerBindings at member
  unfold innerScope at inside ⊢
  split at member
  · exact .inl member
  · rename_i notAlias
    rw [if_neg notAlias] at inside ⊢
    unfold Scope.bindSignature at member inside ⊢
    split at member
    · rename_i undeclared
      rw [if_pos undeclared] at inside ⊢
      right
      obtain ⟨⟨used, decl⟩, atUse, s', rfl⟩ := Scope.mem_bindings_bindUses member
      have use := freeUse_of_mem_inferTypeVariables atUse
      have free : s.find? decl.fullname = none := by
        rw [← Scope.find?_functionFrame]
        exact use.free
      have known := mem_typeVarNames (r := r) (SymbolTable.holds_of_lookupTypeVar? use.named)
      have bound := Scope.find?_of_mem_bindUses member
      refine Finset.card_lt_card ((Finset.ssubset_iff_of_subset (unbound_subset inside)).2 ⟨decl.fullname, ?_, ?_⟩)
      · exact Finset.mem_filter.2 ⟨known, free⟩
      · intro still
        have missing := (Finset.mem_filter.1 still).2
        exact Option.isSome_iff_ne_none.1 bound missing
    · exact .inl member

/-- The name of what is no type does not resolve to a union. -/
theorem reference_single (noHooks : r.hooks = .empty) {In : Scope → Ty → Prop} {Out : Progress → Progress → Ty → Prop}
    (rule : r.Rule In Out) {ref : Reference} (names : r.NamesNoType ref) (n : Nat) (level : Nesting) (inLiteral : Bool)
    (p : Progress) : r.Ensures p (r.reference (r.recursion n) ref level inLiteral) fun a _ => a.isUnion = false := by
  obtain ⟨plain, symbol, d, found, notForm, defined, isNoType⟩ := names
  have rejected (problem : Problem) (notes : List Problem) (q : Progress) :
      r.Ensures q (noType (r.recursion n) ref level problem notes) fun a _ => a.isUnion = false := by
    refine (args_ensures rule (recursion_obeys rule noHooks n) ref.args level q).bind fun args q' _ _ => ?_
    exact (Ensures.report _ _).bind fun _ _ _ _ => (Ensures.reportAll _).bind fun _ _ _ _ => .pure rfl
  suffices single : r.Ensures p (r.plainReference (r.recursion n) ref level inLiteral) fun a _ => a.isUnion = false by
    refine single.bind fun a q _ single => .pure ?_
    rw [plain]
    exact single
  have bySymbol : r.plainReference (r.recursion n) ref level inLiteral =
      r.symbolType (r.recursion n) d symbol.fullname ref level inLiteral := by
    unfold plainReference
    rw [found]
    dsimp only
    rw [defined]
    cases d <;> first | rfl | cases isNoType
  rw [bySymbol, symbolType_eq noHooks, notForm]
  refine Ensures.bind (P := fun _ _ => True) ?_ fun _ q _ _ => Ensures.scope.bind fun s q' _ _ => ?_
  · split
    · exact (Ensures.report _ _).mono fun _ _ _ _ => trivial
    · exact .pure trivial
  cases d with
  | classDef | aliasDef | pendingDef => cases isNoType
  | moduleDef _ | functionDef _ | decoratorDef _ => exact rejected _ _ q'
  | variableDef decl =>
    change r.Ensures q' (variableType (r.recursion n) decl symbol.fullname ref level inLiteral) _
    unfold variableType
    split
    · exact .pure rfl
    · split
      · exact .pure rfl
      · exact .failAt rfl
    · exact rejected _ _ q'
  | typeVarDef decl =>
    refine Ensures.scope.bind fun s q _ _ => ?_
    split
    · split
      · exact .failAt rfl
      · split
        · exact (Ensures.report _ _).bind fun _ _ _ _ => .pure rfl
        · exact .pure rfl
    · split
      · exact .pure rfl
      · exact rejected _ _ q

section Levels

variable {heaviest depth : ℕ∞} (noHooks : r.hooks = .empty) (table : r.LightTable heaviest)

include noHooks table

/-- What a name within a literal resolves to is read by names that weigh less than it, and its unions do not stand deeper one
in the other than heavy types have room for. -/
theorem literalName_result (positive : 1 ≤ heaviest) {ref : Reference}
    (inLiteral : (Ty.named ref).Everywhere (r.InLiteral heaviest)) (light : r.Light heaviest (.named ref)) {n : Nat}
    {level : Nesting} {p q : Progress} {resolved : Ty} (ran : (r.recursion n).literalName ref level p = some (resolved, q)) :
    r.Lighter heaviest (Ty.named ref).weight resolved ∧ resolved.Throughout (r.LiteralFits heaviest) ∧
      resolved.unionHeight ≤ heaviest := by
  cases n with
  | zero => cases ran
  | succ n =>
    change r.reference (r.recursion n) ref level true p = some (resolved, q) at ran
    have made {In : Scope → Ty → Prop} {Out : Progress → Progress → Ty → Prop} (rule : r.Rule In Out)
        (given : In p.scope (.named ref)) : Out p q resolved :=
      (reference_ensures rule (recursion_obeys rule noHooks n) noHooks ref level true p resolved q ran).2.2 given
    exact ⟨made (rule_lighter _ table) (within_of_inLiteral inLiteral), made (rule_fits table) light.fits,
      (made (rule_unionHeight table positive) (unionHeight_everywhere light.weight)).root⟩

theorem noTypeName_single {ref : Reference} (noType : r.NamesNoType ref) {n : Nat} {level : Nesting} {p q : Progress}
    {resolved : Ty} (ran : (r.recursion n).literalName ref level p = some (resolved, q)) : resolved.isUnion = false := by
  cases n with
  | zero => cases ran
  | succ n => exact (reference_single noHooks (rule_fits table) noType n level true p resolved q ran).2

/-- A name within a literal can be resolved where expressions can be resolved at deeper levels, and the parameters of the
literal form that it may be can be read. -/
theorem literalName_ends {ref : Reference} (light : r.Light heaviest (.named ref)) {level : Nesting}
    (deeper : ∀ above : Nesting, level.level < above.level → ∀ t, r.Light heaviest t → r.ExprEnds depth t above)
    (nested : r.isLiteralForm ref → ∀ arg ∈ ref.args, r.LiteralsEnd depth arg level.deeper) (p : Progress) :
    EndsWithin (depth + 1) (fun n => (r.recursion n).literalName ref level.deeper) p := by
  have below : level.level < level.deeper.level := Nat.lt_succ_self _
  have below' : level.level < level.deeper.deeper.level := Nat.lt_succ_of_lt below
  refine .of_succ (reference_ends noHooks table light (deeper _ below') (fun s read binding member => ?_) nested true)
  have bound := table.innerBindings (by simp [formSignature?_bindings read]) member
  exact ⟨fun v atValue => deeper _ below' v (bound.1 v atValue), fun p _ => deeper _ below _ bound.2 p⟩

/-- How deep the recursion goes to read a type within a literal, where expressions in it take it to `depth`: each name is
lighter than the one before, and what it is resolved to is read through unions that stand one in the other. -/
def literalDepth (heaviest depth : ℕ∞) (limit : Nat) (height : ℕ∞) : ℕ∞ := depth + 1 + limit * (heaviest + 1) + height

omit noHooks table in
theorem literalDepth_mono {limit : Nat} {height height' : ℕ∞} (low : height ≤ height') :
    literalDepth heaviest depth limit height ≤ literalDepth heaviest depth limit height' := by
  unfold literalDepth
  gcongr

omit noHooks table in
theorem le_literalDepth (limit : Nat) (height : ℕ∞) : depth + 1 ≤ literalDepth heaviest depth limit height := by
  unfold literalDepth
  rw [add_assoc]
  exact le_self_add

omit noHooks table in
theorem literalDepth_lt {limit weight : Nat} (less : weight < limit) (height : ℕ∞) :
    literalDepth heaviest depth weight heaviest + 1 ≤ literalDepth heaviest depth limit height := by
  unfold literalDepth
  calc depth + 1 + weight * (heaviest + 1) + heaviest + 1
      = depth + 1 + (weight + 1 : Nat) * (heaviest + 1) := by
        rw [Nat.cast_add, Nat.cast_one, add_mul, one_mul, ← add_assoc, ← add_assoc]
    _ ≤ depth + 1 + limit * (heaviest + 1) := by gcongr; exact less
    _ ≤ depth + 1 + limit * (heaviest + 1) + height := le_self_add

/-- Where expressions can be resolved at deeper levels, what is read within a literal comes to an end, by the weight of
the names in it. -/
theorem literals_end (positive : 1 ≤ heaviest) (start : Nat)
    (deeper : ∀ level : Nesting, start < level.level → ∀ t, r.Light heaviest t → r.ExprEnds depth t level) (limit : Nat)
    (small : limit ≤ heaviest) {t : Ty} (lighter : r.Lighter heaviest limit t)
    (fits : t.Throughout (r.LiteralFits heaviest)) {level : Nesting} (above : start ≤ level.level) :
    r.LiteralsEnd (literalDepth heaviest depth limit t.unionHeight) t level := by
  induction limit using Nat.strongRecOn generalizing t level with
  | ind limit ihLimit =>
  induction t using Ty.inductionOn generalizing level with
  | step t ih =>
    intro index pos p
    unfold literals
    split
    · rename_i ref
      have light := light_of_lighter positive small lighter fits
      have further : ∀ above : Nesting, level.level < above.level → ∀ t, r.Light heaviest t → r.ExprEnds depth t above :=
        fun above' below => deeper above' (Nat.lt_of_le_of_lt above below)
      split
      · exact literalOf_ends _ _ _ p
      rcases lighter.root.allows with noType | ⟨less, inLiteral⟩
      · have noForm : ¬ r.isLiteralForm ref := by
          obtain ⟨_, symbol, d, found, notForm, _⟩ := noType
          rw [isLiteralForm_eq_false found notForm]
          exact Bool.false_ne_true
        have named := literalName_ends noHooks table light further (fun isForm => absurd isForm noForm) p
        refine (named.mono (le_literalDepth _ _)).bind fun n resolved q ran => literalsOf_ends (fun ms at_ isUnion => ?_) q
        have single := noTypeName_single noHooks table noType ran
        rw [isUnion] at single
        cases single
      · have smaller : ((Ty.named ref).weight : ℕ∞) ≤ heaviest := light.weight
        have inside {u : Ty} (low : u.unionHeight ≤ heaviest) (lighter : r.Lighter heaviest (Ty.named ref).weight u)
            (fits : u.Throughout (r.LiteralFits heaviest)) {level : Nesting} (above : start ≤ level.level) :
            r.LiteralsEnd (literalDepth heaviest depth (Ty.named ref).weight heaviest) u level :=
          fun index pos p => (ihLimit _ less smaller lighter fits above index pos p).mono (literalDepth_mono low)
        have named := literalName_ends noHooks table light
          (fun above' below t light p => (further above' below t light p).mono (le_self_add.trans (le_literalDepth _ _)))
          (fun isForm arg member => inside ((unionHeight_everywhere (light.child member).weight).root)
            (lighter_of_inLiteral (Ty.weight_child_lt member) (inLiteral.child member)) (fits.child member)
            (Nat.le_succ_of_le above)) p
        refine (named.mono (literalDepth_lt less _)).bind fun n resolved q ran =>
          literalsOf_ends (fun ms at_ isUnion m member q => ?_) q
        obtain ⟨lighter, fits, low⟩ := literalName_result noHooks table positive inLiteral light ran
        subst isUnion
        have lower : (m.unionHeight : ℕ∞) ≤ heaviest :=
          (Nat.cast_le.2 (Ty.unionHeight_member_lt member at_).le).trans low
        exact (EndsWithin.of_succ (inside lower (lighter.part rfl m member) (fits.child member) above index pos q)).mono
          (literalDepth_lt less _)
    · refine literalsOf_ends (fun ms at_ isUnion m member q => ?_) p
      subst isUnion
      have inside := ih m member (lighter.part rfl m member) (fits.child member) above index pos q
      refine (EndsWithin.of_succ inside).mono ?_
      unfold literalDepth
      rw [add_assoc]
      gcongr
      exact_mod_cast Ty.unionHeight_member_lt member at_

/-- How deep the recursion goes at one level of nesting, where the next level takes it to `depth`: into the bounds of
variables, each time with one more variable of the table bound or with a lighter type, and in the end into a literal. -/
def levelDepth (heaviest depth : ℕ∞) (free weight : Nat) : ℕ∞ :=
  literalDepth heaviest depth 0 0 + heaviest * (heaviest + 1) + heaviest + free * (heaviest + 1) + weight

/-- How deep the recursion goes through so many levels of nesting. -/
def reach (r : Resolver) (heaviest : ℕ∞) : Nat → ℕ∞
  | 0 => 1
  | levels + 1 => levelDepth heaviest (r.reach heaviest levels) (r.typeVarNames.card + 1) 0 + heaviest + 1

omit noHooks table in
theorem levelDepth_succ (free weight : Nat) :
    levelDepth heaviest depth free (weight + 1) = levelDepth heaviest depth free weight + 1 := by
  unfold levelDepth
  rw [Nat.cast_add, Nat.cast_one, ← add_assoc]

omit noHooks table in
theorem levelDepth_lt (free weight : Nat) {lighter : Nat} (light : lighter ≤ heaviest) :
    levelDepth heaviest depth free (lighter + 1) ≤ levelDepth heaviest depth (free + 1) weight := by
  unfold levelDepth
  calc literalDepth heaviest depth 0 0 + heaviest * (heaviest + 1) + heaviest + free * (heaviest + 1) + (lighter + 1 : Nat)
      ≤ literalDepth heaviest depth 0 0 + heaviest * (heaviest + 1) + heaviest + free * (heaviest + 1) + (heaviest + 1) := by
        push_cast
        gcongr
    _ = literalDepth heaviest depth 0 0 + heaviest * (heaviest + 1) + heaviest + (free + 1 : Nat) * (heaviest + 1) := by
        simp only [Nat.cast_add, Nat.cast_one, add_mul, one_mul, add_assoc]
    _ ≤ _ := le_self_add

omit noHooks table in
theorem literalDepth_le_levelDepth {limit height : Nat} (small : limit ≤ heaviest) (low : height ≤ heaviest)
    (free weight : Nat) : literalDepth heaviest depth limit height ≤ levelDepth heaviest depth free weight := by
  unfold levelDepth literalDepth
  calc depth + 1 + limit * (heaviest + 1) + height ≤ depth + 1 + heaviest * (heaviest + 1) + heaviest := by gcongr
    _ = depth + 1 + (0 : Nat) * (heaviest + 1) + 0 + heaviest * (heaviest + 1) + heaviest := by simp
    _ ≤ _ := le_self_add.trans le_self_add

/-- Resolution goes into deeper levels, of which there are so many; at one level into the bounds of variables, each
time with one more variable of the table bound; and in one scope into the bounds that a type declares itself. -/
theorem exprs_end (positive : 1 ≤ heaviest) (levels : Nat) {level : Nesting} (near : maxNesting < level.level + levels)
    {t : Ty} (light : r.Light heaviest t) : r.ExprEnds (r.reach heaviest levels) t level := by
  induction levels generalizing level t with
  | zero =>
    intro p
    have failed : EndsWithin 0 (fun n => (r.recursion (n + 1)).expr t level) p := by
      change EndsWithin 0 (fun n => r.expr (r.recursion n) t level) p
      unfold expr
      split
      · exact .failAt _ _
      · omega
    have ended : EndsWithin (0 + 1) (fun n => (r.recursion n).expr t level) p := .of_succ failed
    rwa [zero_add] at ended
  | succ levels ihLevel =>
    generalize atLevels : r.reach heaviest levels = depth at ihLevel
    have deeper (above : Nesting) (below : level.level < above.level) (t : Ty) (light : r.Light heaviest t) :
        r.ExprEnds depth t above := ihLevel (by omega) light
    have less (free weight : Nat) : depth ≤ levelDepth heaviest depth free weight :=
      le_self_add.trans ((le_literalDepth 0 0).trans (literalDepth_le_levelDepth zero_le zero_le free weight))
    have within (free : Nat) (weight : Nat) : ∀ p : Progress, (r.unbound p.scope).card < free → ∀ t : Ty,
        t.weight < weight → r.Light heaviest t →
          EndsWithin (levelDepth heaviest depth free weight) (fun n => (r.recursion n).expr t level) p := by
      induction free generalizing weight with
      | zero =>
        intro p few
        omega
      | succ free ihFree =>
        induction weight with
        | zero =>
          intro p _ t lighter
          omega
        | succ weight ihWeight =>
          intro p few t lighter light
          rw [levelDepth_succ]
          refine expr_ends noHooks table light (fun t light p => (deeper _ (Nat.lt_succ_self _) t light p).mono (less _ _)) ?_ ?_
          · intro s own binding member
            obtain ⟨values, upperBound⟩ := table.innerBindings
              (fun binding declares => ⟨fun _ => light.value (own binding declares), light.upperBound (own binding declares)⟩) member
            refine ⟨fun v atValue p => (deeper _ (Nat.lt_succ_self _) v (values v atValue) p).mono (less _ _), fun p' inside => ?_⟩
            have fewer := unbound_innerScope_le (r := r) p.scope s
            rw [← inside] at fewer
            rcases declared_or_unbound_lt member with declares | lost
            · have lighter := Ty.weight_upperBound_lt (own binding declares)
              exact ihWeight p' (by omega) _ (by omega) upperBound
            · rw [← inside] at lost
              exact (ihFree (binding.upperBound.weight + 1) p' (by omega) _ (Nat.lt_succ_self _) upperBound).mono
                (levelDepth_lt _ _ upperBound.weight)
          · rintro ref rfl isForm arg member index pos q
            have inLiteral : arg.Everywhere (r.InLiteral heaviest) := light.fits.root isForm arg member
            have small : ((arg.weight + 1 : Nat) : ℕ∞) ≤ heaviest :=
              (Nat.cast_le.2 (Nat.succ_le_of_lt (Ty.weight_child_lt member))).trans light.weight
            have low := (unionHeight_everywhere (light.child member).weight).root
            exact (literals_end noHooks table positive _ deeper _ small
              (lighter_of_inLiteral (Nat.lt_succ_self _) inLiteral) (light.fits.child member) (Nat.le_refl _) index pos q).mono
              (literalDepth_le_levelDepth small low _ _)
    intro p
    have few : (r.unbound p.scope).card < r.typeVarNames.card + 1 :=
      Nat.lt_succ_of_le (Finset.card_le_card (Finset.filter_subset _ _))
    refine (within _ _ p few t (Nat.lt_succ_self _) light).mono ?_
    rw [reach, atLevels]
    unfold levelDepth
    push_cast
    rw [← add_assoc, add_zero]
    gcongr
    exact light.weight

theorem signatures_end (positive : 1 ≤ heaviest) {signature : Signature} (light : r.Light heaviest (.callable signature))
    (level inner : Nesting) (p : Progress) :
    EndsWithin (r.reach heaviest (maxNesting + 1)) (fun n => r.signature (r.recursion n) signature level inner) p := by
  have each (level : Nesting) (t : Ty) (light : r.Light heaviest t) : r.ExprEnds (r.reach heaviest (maxNesting + 1)) t level :=
    exprs_end noHooks table positive (maxNesting + 1) (by omega) light
  refine signature_ends noHooks table (fun t member => each _ t (light.child member)) fun binding member => ?_
  have bound := table.innerBindings (fun _ declares => ⟨fun _ => light.value declares, light.upperBound declares⟩) member
  exact ⟨fun v atValue => each _ v (bound.1 v atValue), fun p _ => each _ _ bound.2 p⟩

end Levels

/-- Resolution comes to an end, for expressions, for signatures, and for the parameters of literals and the names in
them: once the recursion may go deep enough, how deep it may go changes nothing. -/
theorem resolution_ends (noHooks : r.hooks = .empty) (table : r.SafeTable) (level inner : Nesting) (p : Progress) :
    (∀ t, r.Safe t → Ends (fun n => (r.recursion n).expr t level) p) ∧
    (∀ s, r.Safe (.callable s) → Ends (fun n => r.signature (r.recursion n) s level inner) p) ∧
    (∀ t, r.Safe t → t.Everywhere Ty.NotOptional → ∀ index pos,
      Ends (fun n => (r.recursion n).literals index t pos level) p) ∧
    ∀ ref, r.Safe (.named ref) → (Ty.named ref).Everywhere Ty.NotOptional →
      Ends (fun n => (r.recursion n).literalName ref level) p := by
  have deeper (level : Nesting) (t : Ty) (light : r.Light ⊤ t) : r.ExprEnds ⊤ t level := fun p =>
    (exprs_end noHooks table.light le_top (maxNesting + 1) (by omega) light p).mono le_top
  have literals (t : Ty) (safe : r.Safe t) (plain : t.Everywhere Ty.NotOptional) (level : Nesting) :
      r.LiteralsEnd ⊤ t level := fun index pos p =>
    (literals_end noHooks table.light le_top 0 (fun _ _ => deeper _) _ le_top
      (lighter_of_inLiteral (Nat.lt_succ_self _) (inLiteral_of_notOptional plain)) (light_of_safe safe).fits
      (Nat.zero_le _) index pos p).mono le_top
  refine ⟨fun t safe => (deeper level t (light_of_safe safe) p).ends,
    fun s safe => (signatures_end noHooks table.light le_top (light_of_safe safe) level inner p).ends,
    fun t safe plain index pos => ?_, fun ref safe plain => ?_⟩
  · have read : EndsWithin ⊤ (fun n => (r.recursion (n + 1)).literals index t pos level) p :=
      literals t safe plain level index pos p
    exact (EndsWithin.of_succ read).ends
  · have nested (_ : r.isLiteralForm ref) (arg : Ty) (member : arg ∈ ref.args) : r.LiteralsEnd ⊤ arg level :=
      literals arg (safe.child member) (plain.child member) level
    have named : EndsWithin ⊤ (fun n => (r.recursion (n + 1)).literalName ref level) p :=
      reference_ends noHooks table.light (light_of_safe safe) (deeper _) (fun s read binding member => by
        have bound := table.light.innerBindings (by simp [formSignature?_bindings read]) member
        exact ⟨fun v atValue => deeper _ v (bound.1 v atValue), fun p _ => deeper _ _ bound.2 p⟩) nested true
    exact (EndsWithin.of_succ named).ends

/-- An expression that declares nothing and is nowhere written with `?` may be resolved in any table. -/
theorem safe_of_notOptional {t : Ty} (plain : t.Everywhere fun x => x.NotOptional ∧ x.declared = []) : r.Safe t := by
  induction t using Ty.inductionOn with
  | step t ih =>
    refine .of ?_ fun c member => ?_
    · cases t with
      | named ref => exact fun _ arg member => (plain.child member).imp fun _ both => both.1
      | _ => trivial
    · rw [Ty.parts, plain.root.2] at member
      have atChild : c ∈ t.children := by simpa using member
      exact ih c atChild (plain.child atChild)

end Resolver

/-- `Callable[[T], T]` -/
def ownCallable : Ty :=
  .named (.of "typing.Callable" [.bracketed [.named (.of "T" [])] .unknown, .named (.of "T" [])])

/-- A module in which the bound of `T` is `Callable[[T], T]`, and the class `Node` derives from the tuple of a `Node` and
such a callable. -/
def Resolver.withCycles : Resolver :=
  let bounded : TypeVarDecl := ⟨"m.T", [], ownCallable, .invariant⟩
  let node : ClassDecl :=
    ⟨.plain "m.Node", some ⟨[.named (.of "Node" []), ownCallable], .of (.plain "builtins.tuple") [] .unknown, false,
      .unknown⟩, none⟩
  ⟨((SymbolTable.withPrelude "m").define (.typeVarDef bounded)).define (.classDef node), .empty, .default, .default⟩

theorem ownCallable_plain : ownCallable.Everywhere fun x => x.NotOptional ∧ x.declared = [] := by
  have variable_ : (Ty.named (.of "T" [])).Everywhere fun x => x.NotOptional ∧ x.declared = [] :=
    Ty.everywhere_of_leaf rfl ⟨rfl, rfl⟩
  refine Ty.everywhere_iff.2 ⟨⟨rfl, rfl⟩, fun c member => ?_⟩
  rcases List.mem_cons.1 member with rfl | member
  · refine Ty.everywhere_iff.2 ⟨⟨trivial, rfl⟩, fun c member => ?_⟩
    rw [List.mem_singleton.1 member]
    exact variable_
  · rw [List.mem_singleton.1 member]
    exact variable_

theorem Resolver.safeTable_withCycles : withCycles.SafeTable where
  target holds := by
    rcases SymbolTable.holds_define holds with impossible | holds
    · cases impossible
    rcases SymbolTable.holds_define holds with impossible | holds
    · cases impossible
    obtain ⟨_, _, _, rfl⟩ := Prelude.aliasDef_mem (SymbolTable.holds_withPrelude holds)
    exact Ty.everywhere_of_leaf rfl (.inl ⟨nofun, nofun, nofun⟩)
  tupleBase holds atBase := by
    rcases SymbolTable.holds_define holds with same | holds
    · cases same
      cases atBase
      intro t member
      refine safe_of_notOptional ?_
      rcases List.mem_cons.1 member with rfl | member
      · exact Ty.everywhere_of_leaf rfl ⟨rfl, rfl⟩
      · rw [List.mem_singleton.1 member]
        exact ownCallable_plain
    rcases SymbolTable.holds_define holds with impossible | holds
    · cases impossible
    rw [(Prelude.noBases (SymbolTable.holds_withPrelude holds)).1] at atBase
    cases atBase
  recordBase holds atBase := by
    rcases SymbolTable.holds_define holds with same | holds
    · cases same
      cases atBase
    rcases SymbolTable.holds_define holds with impossible | holds
    · cases impossible
    rw [(Prelude.noBases (SymbolTable.holds_withPrelude holds)).2] at atBase
    cases atBase
  values holds := by
    rcases SymbolTable.holds_define holds with impossible | holds
    · cases impossible
    rcases SymbolTable.holds_define holds with same | holds
    · cases same
      simp
    · exact absurd (SymbolTable.holds_withPrelude holds) Prelude.typeVarDef_not_mem
  upperBound holds := by
    rcases SymbolTable.holds_define holds with impossible | holds
    · cases impossible
    rcases SymbolTable.holds_define holds with same | holds
    · cases same
      exact safe_of_notOptional ownCallable_plain
    · exact absurd (SymbolTable.holds_withPrelude holds) Prelude.typeVarDef_not_mem

theorem Resolver.resolution_ends_cycle :
    Ends (fun n => (withCycles.recursion n).expr (.named (.of "Node" [])) .top) (.start .root) :=
  (resolution_ends rfl safeTable_withCycles .top .top (.start .root)).1 _
    (safe_of_notOptional (Ty.everywhere_of_leaf rfl ⟨rfl, rfl⟩))

end TypeResolution
