import TypeResolution.Proofs.AliasBodyRun

namespace TypeResolution

open Resolve

namespace Resolver

variable {r : Resolver} {after : SymbolTable} {s₀ s : Scope} {ends : Prop} {spare n m : Nat} {level : Nesting}

/-- Both runs come to the same literals. -/
def SameLiterals (found found' : Option (List Ty)) : Prop := (∀ t ∈ found.getD [], t.IsLiteral) ∧ found = found'

/-- What can stand for a literal: a type without names, or an expression whose name, if it is one, has no variables in it. -/
def LiteralBody (r : Resolver) (after : SymbolTable) (t : Ty) : Prop :=
  t.Everywhere (Ty.OpenIn []) ∨ t.isSyntactic ∧ ∀ ref, t = .named ref → ref.quoted = none → r.AliasBody after [] t

/-- What is resolved for an alias with so much recursion is mirrored by what is resolved, with any, when the arguments are
written in it. In literals nothing is written, and what they come to is the same. With enough recursion, and where the arguments
are quiet in their places with the spare recursion, there is a result. -/
structure MirrorsBodies (r : Resolver) (after : SymbolTable) (s₀ : Scope) (spare n : Nat) : Prop where
  expr {ends : Prop} {vars : List String} {values : List Ty} {change : Ty → Ty} {s : Scope} {t : Ty} {m : Nat} {level : Nesting} :
    (ends → n + spare ≤ m) → (ends → (r.withTable after).Fits s₀ spare vars change t level) →
    r.Writes after s₀ vars values change → s₀.LooksLike s → r.AliasBody after vars t →
    Mirrors ends s ((r.forAliases.recursion n).expr t level)
      (((r.withTable after).recursion m).expr (change t) level) (r.Becomes vars values)
  literalName {ends : Prop} {ref : Reference} {s : Scope} {m : Nat} (level : Nesting) : (ends → n + spare ≤ m) →
    s₀.LooksLike s → r.AliasBody after [] (.named ref) →
    Mirrors ends s ((r.forAliases.recursion n).literalName ref level)
      (((r.withTable after).recursion m).literalName ref level) (r.Becomes [] [])
  literals {ends : Prop} {t : Ty} {s : Scope} {m : Nat} (index : Nat) (pos : Position) (level : Nesting) :
    (ends → n + spare ≤ m) → s₀.LooksLike s → r.LiteralBody after t →
    Mirrors ends s ((r.forAliases.recursion n).literals index t pos level)
      (((r.withTable after).recursion m).literals index t pos level) SameLiterals

section Literals

variable (same : r.table.SameClasses after)

include same

theorem mirrors_literalOf (value : LiteralValue) (className : String) (pos : Position) :
    Mirrors ends s (r.forAliases.literalOf value className pos) ((r.withTable after).literalOf value className pos)
      SameLiterals := by
  rw [literalOf_same same, literalOf_eq]
  refine (Mirrors.refl _).map fun found _ _ _ same => ?_
  subst same
  cases found with
  | none => exact ⟨List.forall_mem_nil _, rfl⟩
  | some fallback => exact ⟨List.forall_mem_singleton.2 trivial, rfl⟩

theorem mirrors_literalsOf {again again' : Recursion} [again.Steady] [again'.Steady] (index : Nat) {t : Ty} (pos : Position)
    (members : t.isUnion → ∀ c ∈ t.children,
      Mirrors ends s (again.literals index c pos level) (again'.literals index c pos level) SameLiterals) :
    Mirrors ends s (r.forAliases.literalsOf again index t pos level) ((r.withTable after).literalsOf again' index t pos level)
      SameLiterals := by
  unfold literalsOf
  split
  · split
    · exact .pure ⟨List.forall_mem_nil _, rfl⟩
    · exact .of_report (List.cons_ne_nil _ _)
  · exact mirrors_literalOf same _ _ _
  · dsimp only
    split
    · exact .of_report (List.cons_ne_nil _ _)
    · exact .of_report (List.cons_ne_nil _ _)
  · exact .pure ⟨List.forall_mem_singleton.2 trivial, rfl⟩
  · exact .pure ⟨List.forall_mem_singleton.2 trivial, rfl⟩
  · exact .pure ⟨List.forall_mem_singleton.2 trivial, rfl⟩
  · exact .collectWhile _ (members rfl)
  · exact .of_report (List.cons_ne_nil _ _)

theorem mirrors_literals (ih : r.MirrorsBodies after s₀ spare n) (enough : ends → n + spare ≤ m) (alike : s₀.LooksLike s)
    (index : Nat) {t : Ty} (pos : Position) (body : r.LiteralBody after t) :
    Mirrors ends s (r.forAliases.literals (r.forAliases.recursion n) index t pos level)
      ((r.withTable after).literals ((r.withTable after).recursion m) index t pos level) SameLiterals := by
  -- only a union is looked into once more, and one that resolution has made holds no expressions
  have below {t : Ty} (opens : t.isUnion → t.Everywhere (Ty.OpenIn [])) (level : Nesting) :
      Mirrors ends s (r.forAliases.literalsOf (r.forAliases.recursion n) index t pos level)
        ((r.withTable after).literalsOf ((r.withTable after).recursion m) index t pos level) SameLiterals :=
    mirrors_literalsOf same index pos fun isUnion c member =>
      ih.literals index pos level enough alike (.inl ((opens isUnion).child member))
  unfold literals
  split
  · rename_i ref
    split
    · exact mirrors_literalOf same _ _ _
    · rename_i unquoted
      have body : r.AliasBody after [] (.named ref) := by
        rcases body with opens | ⟨_, body⟩
        · cases opens.root
        · exact body ref rfl unquoted
      refine (ih.literalName level.deeper enough alike body).bind fun resolved resolved' _ _ becomes => ?_
      rw [becomes.same rfl]
      exact below (fun _ => becomes.made.opens) level
  · refine below (fun isUnion => body.resolve_right fun other => ?_) level
    cases t using Ty.unionCases with
    | union => cases other.1
    | other t single =>
      rw [single] at isUnion
      cases isUnion

/-- A form of literals, which holds no variables, is made of the same literals. -/
theorem mirrors_literalForm {ref : Reference} (ih : r.MirrorsBodies after s₀ spare n) (enough : ends → n + spare ≤ m)
    (alike : s₀.LooksLike s) (parts : ∀ t ∈ ref.args, r.LiteralBody after t) {vars : List String} {values : List Ty} :
    Mirrors ends s (r.forAliases.literalForm (r.forAliases.recursion n) ref level)
      ((r.withTable after).literalForm ((r.withTable after).recursion m) ref level) (r.Becomes vars values) := by
  rw [literalForm_eq, literalForm_eq]
  split
  · exact .of_fail
  · have each : ∀ numbered ∈ ref.args.zipIdx 1,
        Mirrors ends s (r.forAliases.literals (r.forAliases.recursion n) numbered.2 numbered.1 ref.pos level)
          ((r.withTable after).literals ((r.withTable after).recursion m) numbered.2 numbered.1 ref.pos level)
          SameLiterals := by
      intro numbered member
      exact mirrors_literals same ih enough alike numbered.2 ref.pos (parts _ (List.fst_mem_of_mem_zipIdx member))
    refine (Mirrors.collectWhile _ each).map fun found found' _ _ made => ?_
    obtain ⟨literals, rfl⟩ := made
    cases found with
    | none => exact .leaf rfl rfl rfl rfl
    | some found =>
      have leaf (t : Ty) (member : t ∈ found) : r.Becomes [] [] t t := by
        have literal := literals t member
        cases t with
        | noneType | literal => exact .leaf rfl rfl rfl rfl
        | _ => cases literal
      exact .closed ((Ty.WellMade.ofMembers []).makeUnion (fun t member => (leaf t member).made) ref.pos)
        (AliasDecl.noneFlexible_ofMembers.makeUnion (fun t member => (leaf t member).plain) ref.pos)

end Literals

section Forms

variable {ref : Reference} {vars : List String} {values : List Ty} {change : Ty → Ty} (ih : r.MirrorsBodies after s₀ spare n)
  (enough : ends → n + spare ≤ m) (fits : ends → (r.withTable after).Fits s₀ spare vars change (.named ref) level)
  (writes : r.Writes after s₀ vars values change) (alike : s₀.LooksLike s)

include ih enough fits writes alike

theorem mirrors_parts (parts : ∀ t ∈ ref.args, r.AliasBody after vars t) :
    Mirrors ends s ((r.forAliases.recursion n).args ref.args level)
      (((r.withTable after).recursion m).args (ref.args.map change) level)
      (List.Forall₂ (r.Becomes vars values)) :=
  mirrors_args _ fun t member => ih.expr enough (fun holds => (fits holds).args t member) writes alike (parts t member)

theorem mirrors_tupleForm (same : r.table.SameClasses after) (finished : r.table.Finished)
    (parts : ∀ t ∈ ref.args, r.AliasBody after vars t) :
    Mirrors ends s (r.forAliases.tupleForm (r.forAliases.recursion n) ref level)
      ((r.withTable after).tupleForm ((r.withTable after).recursion m) (ref.mapArgs change) level)
      (r.Becomes vars values) := by
  cases found : r.table.findClass? "builtins.tuple" with
  | none =>
    unfold tupleForm
    rw [show r.forAliases.table.findClass? "builtins.tuple" = none from found]
    dsimp only
    split
    · refine .of_raise ?_
      decide
    · exact .of_report (List.cons_ne_nil _ _)
  | some decl =>
    have atFirst : r.forAliases.table.findClass? "builtins.tuple" = some decl := found
    have atSecond : (r.withTable after).table.findClass? "builtins.tuple" = some decl := (same.findClass _).trans found
    have single {item item' : Ty} (becomes : r.Becomes vars values item item') :
        r.Becomes vars values (.inst (.of decl.head [item] ref.pos)) (.inst (.of decl.head [item'] ref.pos)) :=
      .inst (.cons becomes .nil) (finished.tuple found) (finished.right.tuple found) ref.pos
    by_cases dotted : ∃ item pos, ref.args = [item, .ellipsis pos]
    · obtain ⟨item, pos, written⟩ := dotted
      unfold tupleForm
      simp only [atFirst, atSecond, Reference.withArgs, written, List.map_cons, List.map_nil, writes.ellipsis]
      have member : item ∈ ref.args := by simp [written]
      have made := ih.expr enough (fun holds => (fits holds).args item member) writes alike (parts item member)
      exact made.map fun _ _ _ _ => single
    · have notDots : ∀ item pos, ref.args ≠ [item, .ellipsis pos] := fun item pos same => dotted ⟨item, pos, same⟩
      by_cases bare : ref.args = [] ∧ ref.emptyTuple = false
      · unfold tupleForm
        simp only [atFirst, atSecond, Reference.withArgs, bare.1, bare.2, List.map_nil]
        refine (Mirrors.refl (r.forAliases.omittedArguments ref)).map fun filler filler' quiet _ same => ?_
        subst same
        refine single ?_
        rw [yields_omittedArguments quiet.yields]
        exact .any (omittedAny_isAny _ _ _ _)
      · have written (none_ : ref.args = []) : ref.emptyTuple = true := by
          rw [← Bool.not_eq_false]
          exact fun notWritten => bare ⟨none_, notWritten⟩
        rw [tupleForm_items (r := r.forAliases) atFirst written notDots, tupleForm_items atSecond]
        · exact (mirrors_parts ih enough fits writes alike parts).map fun _ _ _ _ related => .tuple related _ _ _
        · exact fun none_ => written (List.map_eq_nil_iff.1 none_)
        · intro item pos changed
          obtain ⟨first, rest, atArgs, _, inRest⟩ := List.map_eq_cons_iff.1 changed
          obtain ⟨second, last, rfl, changedSecond, inLast⟩ := List.map_eq_cons_iff.1 inRest
          obtain rfl := List.map_eq_nil_iff.1 inLast
          have dots : second = .ellipsis pos := writes.eq_ellipsis (parts second (by simp [atArgs])) changedSecond
          exact notDots first pos (by rw [atArgs, dots])

omit ih enough fits alike in
/-- If nothing is reported of the arguments of `Callable`, they stand for the same signature when the arguments are written in
them, but for its arguments and its result. -/
theorem formSignature?_change (same : r.table.SameClasses after) (parts : ∀ t ∈ ref.args, r.AliasBody after vars t)
    (silent : r.forAliases.formReports ref = []) :
    (r.withTable after).formReports (ref.mapArgs change) = [] ∧
    (r.withTable after).formSignature? (ref.mapArgs change) = (r.forAliases.formSignature? ref).map fun signature =>
      { signature with args := signature.args.map change, ret := change signature.ret } := by
  unfold formReports at silent
  unfold formReports formSignature?
  rw [instanceOf?_same same, show (r.withTable after).disallowsOmitted = r.forAliases.disallowsOmitted from rfl]
  split at silent
  · rename_i atArgs
    have fixed := writes.any (omittedAny_isAny r.forAliases.disallowsOmitted ref.pos none ref.name)
    simp only [Reference.withArgs, atArgs, List.map_nil, Option.map_some]
    exact ⟨silent, by simp [Signature.ofAnyArgs, fixed]⟩
  · rename_i items pos ret atArgs
    have bodies : ∀ t ∈ items, r.AliasBody after vars t := by
      have whole := parts (.bracketed items pos) (by simp [atArgs])
      cases whole with
      | bracketed bodies => exact bodies
    have read := Parameter.ofItems_map (fun t member => writes.ofItem_change (bodies t member)) pos
    simp only [Reference.withArgs, atArgs, List.map_cons, List.map_nil, writes.bracketed]
    rw [show Parameter.ofItems (r.withTable after).table _ pos = _ from read, show r.forAliases.table = r.table from rfl]
    refine ⟨silent, ?_⟩
    simp [Signature.ofParameters, Signature.of, Parameter.mapType, Function.comp_def]
  · rename_i pos ret atArgs
    have fixed := writes.any (t := .anyAt .explicit .unknown) rfl
    simp only [Reference.withArgs, atArgs, List.map_cons, List.map_nil, writes.ellipsis, Option.map_some]
    exact ⟨trivial, by simp [Signature.ofAnyArgs, fixed]⟩
  · cases silent
  · cases silent

theorem mirrors_callableForm (same : r.table.SameClasses after) (parts : ∀ t ∈ ref.args, r.AliasBody after vars t) :
    Mirrors ends s (r.forAliases.callableForm (r.forAliases.recursion n) ref level)
      ((r.withTable after).callableForm ((r.withTable after).recursion m) (ref.mapArgs change) level)
      (r.Becomes vars values) := by
  rw [callableForm_eq, callableForm_eq]
  refine .reportThen (fun silent => (formSignature?_change writes same parts silent).1) fun silent => ?_
  rw [(formSignature?_change writes same parts silent).2]
  cases read : r.forAliases.formSignature? ref with
  | none => exact .pure (.leaf rfl rfl rfl rfl)
  | some signature =>
    have children : ∀ t ∈ (Ty.callable signature).children,
        t.isAny ∨ r.AliasBody after vars t ∧ (ends → (r.withTable after).Fits s₀ spare vars change t level.deeper) := by
      refine formSignature?_parts read (fun _ => .inl) (fun items pos whole t member => ?_)
        (fun item name form pos whole => ?_) fun t member => .inr ⟨parts t member, fun holds => (fits holds).args t member⟩
      · rcases whole with isAny | ⟨body, fits⟩
        · cases isAny
        · cases body with
          | bracketed bodies => exact .inr ⟨bodies t member, fun holds => (fits holds).items t member⟩
      · rcases whole with isAny | ⟨body, fits⟩
        · cases isAny
        · cases body with
          | argument body => exact .inr ⟨body, fun holds => (fits holds).argument⟩
    have each : ∀ t ∈ (Ty.callable signature).children, Mirrors ends s.functionFrame
        ((r.forAliases.recursion n).expr t level.deeper)
        (((r.withTable after).recursion m).expr (change t) level.deeper) (r.Becomes vars values) := by
      intro t member
      rcases children t member with isAny | ⟨body, fits⟩
      · rw [writes.any isAny]
        refine mirrors_settled ?_ (.any isAny) (fun holds => Nat.le_of_add_right_le (enough holds)) level.deeper
        cases t <;> first | rfl | cases isAny
      · exact ih.expr enough fits writes (alike.trans (.functionFrame s)) body
    have noUse (using_ : r.flags.definingAlias = false) : inferTypeVariables after s.functionFrame
        { signature with args := signature.args.map change, ret := change signature.ret } = [] := by
      refine List.eq_nil_iff_forall_not_mem.2 fun use member => ?_
      obtain ⟨c, atChild, inside, found⟩ := search_of_mem_inferTypeVariables member
      have written : c ∈ (Ty.callable signature).children.map change := by simpa [Ty.children] using atChild
      obtain ⟨t, atSource, rfl⟩ := List.mem_map.1 written
      rcases children t atSource with isAny | ⟨body, _⟩
      · rw [writes.any isAny] at found
        cases t <;> first | cases found | cases isAny
      · rw [writes.noUse_change using_ body (alike.trans (.functionFrame s))] at found
        cases found
    have made := mirrors_signature level level.deeper same rfl (formSignature?_bindings read) noUse each
    refine made.mono ?_
    rintro _ _ _ _ ⟨as, cs, ret, ret', fallback, related, atRet, rfl, rfl⟩
    exact .callable { signature with fallback := fallback, bindings := [] } related atRet

theorem mirrors_specialForm {symbol : Symbol} {form : SpecialForm} (same : r.table.SameClasses after)
    (finished : r.table.Finished) (inFull : r.InFull ref) (found : r.table.lookup ref.name = some symbol)
    (isForm : SpecialForm.ofName? symbol.fullname = some form) (notLiteral : form ≠ .literal)
    (parts : ∀ t ∈ ref.args, r.AliasBody after vars t) :
    Mirrors ends s (r.forAliases.specialForm (r.forAliases.recursion n) form ref level)
      ((r.withTable after).specialForm ((r.withTable after).recursion m) form (ref.mapArgs change) level)
      (r.Becomes vars values) := by
  have item {t : Ty} (member : t ∈ ref.args) :=
    ih.expr enough (fun holds => (fits holds).args t member) writes alike (parts t member)
  cases form with
  | noneType | any | noReturn => exact .pure (.leaf rfl rfl rfl rfl)
  | final => exact .of_fail
  | tuple => exact mirrors_tupleForm ih enough fits writes alike same finished parts
  | union => exact (mirrors_parts ih enough fits writes alike parts).map fun _ _ _ _ related => .union writes.flat related ref.pos
  | optional =>
    obtain ⟨name, items, optional, emptyTuple, quoted, quotedClass, pos⟩ := ref
    match items with
    | [] => exact .of_fail
    | [t] => exact (item (List.mem_singleton_self t)).map fun _ _ _ _ becomes => becomes.optional writes.flat
    | _ :: _ :: _ => exact .of_fail
  | callable => exact mirrors_callableForm ih enough fits writes alike same parts
  | classObject =>
    have bare : ref.args = [] := (inFull.form found isForm).2 rfl
    obtain ⟨name, items, optional, emptyTuple, quoted, quotedClass, pos⟩ := ref
    cases bare
    refine (Mirrors.refl (r.forAliases.omittedArguments _)).map fun filler filler' quiet _ same => ?_
    subst same
    have isAny : filler.isAny := by
      rw [yields_omittedArguments quiet.yields]
      exact omittedAny_isAny _ _ _ _
    have filled : r.Becomes [] [] filler filler := .any isAny
    exact .closedForm rfl rfl rfl (List.forall_mem_singleton.2 filled.made)
  | classVar => exact absurd rfl (inFull.form found isForm).1
  | literal => exact absurd rfl notLiteral
  | annotated =>
    obtain ⟨name, items, optional, emptyTuple, quoted, quotedClass, pos⟩ := ref
    match items with
    | [] | [_] => exact .of_fail
    | t :: _ :: _ => exact item List.mem_cons_self

omit ih fits writes alike in
/-- A class without arguments comes to the tuple or the record that it derives from, in which there are no names. -/
theorem mirrors_classBase {decl : ClassDecl} (same : r.table.SameClasses after) (finished : r.table.Finished)
    (holds : r.table.Holds (.classDef decl)) (plain : decl.fullname ≠ flexibleAlias) {args as cs : List Ty}
    (related : List.Forall₂ (r.Becomes vars values) as cs) (sameLength : as.length = args.length)
    (counted : decl.head.arity = as.length) (pos : Position) :
    Mirrors ends s (classBase (r.forAliases.recursion n) decl args pos level (.of decl.head as pos))
      (classBase ((r.withTable after).recursion m) decl (args.map change) pos level (.of decl.head cs pos))
      (r.Becomes vars values) := by
  have unapplied (bare : ¬ (!args.isEmpty) = true) : as = [] ∧ cs = [] := by
    have none : args = [] := by simpa using bare
    obtain rfl : as = [] := by simpa [none] using sameLength
    exact ⟨rfl, List.forall₂_nil_left_iff.1 related⟩
  have fewer (holds : ends) : n ≤ m := Nat.le_of_add_right_le (enough holds)
  unfold classBase
  rw [List.isEmpty_map]
  split
  · rename_i base atBase
    split
    · exact .of_fail
    · obtain ⟨rfl, rfl⟩ := unapplied ‹_›
      refine (Mirrors.mapM_same base.items fun t member => mirrors_finished same fewer (finished.tupleBase holds atBase t member)
        (finished.flat.tupleBase holds atBase t member) (finished.right.tupleBase holds atBase t member) s
        level.deeper).map fun items _ _ _ made => ?_
      obtain ⟨all, rfl⟩ := made
      exact .closedForm rfl rfl rfl all
  · rename_i base _ atBase
    split
    · exact .of_fail
    · obtain ⟨rfl, rfl⟩ := unapplied ‹_›
      refine (mirrors_fields base.fields fun field member => mirrors_finished same fewer
        (finished.recordBase holds atBase field member) (finished.flat.recordBase holds atBase field member)
        (finished.right.recordBase holds atBase field member) s level.deeper).map fun fields _ _ _ made => ?_
      obtain ⟨all, rfl⟩ := made
      exact .closedForm rfl rfl rfl (List.forall_mem_map.2 all)
  · exact .pure (.inst related plain counted pos)

theorem mirrors_classType {decl : ClassDecl} (same : r.table.SameClasses after) (finished : r.table.Finished)
    (holds : r.table.Holds (.classDef decl)) (plain : decl.fullname ≠ flexibleAlias)
    (counted : (decl.fullname = "builtins.tuple" ∧ ref.args ≠ []) ∨ decl.head.arity = ref.args.length)
    (parts : ∀ t ∈ ref.args, r.AliasBody after vars t) :
    Mirrors ends s (r.forAliases.classType (r.forAliases.recursion n) decl ref.args ref.pos level)
      ((r.withTable after).classType ((r.withTable after).recursion m) decl (ref.args.map change) ref.pos level)
      (r.Becomes vars values) := by
  rw [classType_eq, classType_eq, List.isEmpty_map]
  split
  · exact (mirrors_parts ih enough fits writes alike parts).map fun _ _ _ _ related => .tuple related _ _ _
  · rename_i other
    have counted : decl.head.arity = ref.args.length := counted.resolve_left fun isTuple => other (by simp [isTuple])
    rw [classInstance_eq, classInstance_eq]
    refine (mirrors_parts ih enough fits writes alike parts).bind fun as cs quiet _ related => ?_
    have sameLength : as.length = ref.args.length := (Quiet.mapM_iff.1 quiet).length_eq.symm
    have defining (i : Instance) : r.forAliases.fixArity i false none = pure i :=
      fixArity_of_counted (fun using_ => by cases using_) false none
    have using_ : (r.withTable after).fixArity (.of decl.head cs ref.pos) false none = pure (.of decl.head cs ref.pos) := by
      refine fixArity_of_counted (fun _ => ?_) false none
      simp [Instance.hasExpectedArity, Instance.of, counted, ← related.length_eq, sameLength]
    rw [defining, using_, pure_bind, pure_bind]
    exact mirrors_classBase enough same finished holds plain related sameLength (counted.trans sameLength.symm) ref.pos

theorem mirrors_aliasType {decl : AliasDecl} (applicable : Applicable decl ref.args.length) (fullname : String)
    (parts : ∀ t ∈ ref.args, r.AliasBody after vars t) :
    Mirrors ends s (r.forAliases.aliasType (r.forAliases.recursion n) decl fullname ref level)
      ((r.withTable after).aliasType ((r.withTable after).recursion m) decl fullname (ref.mapArgs change) level)
      (r.Becomes vars values) := by
  rw [aliasType_eq, aliasType_eq]
  refine .after _ fun _ => ?_
  refine (mirrors_parts ih enough fits writes alike parts).bind fun as cs quiet _ related => ?_
  have applicable : Applicable decl as.length := (Quiet.mapM_iff.1 quiet).length_eq ▸ applicable
  refine .reportThen (fun silent => (applicable.expansion writes.flat related silent).1) fun silent => ?_
  have becomes := (applicable.expansion writes.flat related silent).2
  have here := aliasResult_of_firm (r := r.forAliases) ⟨becomes.plain.root, fun using_ => by cases using_⟩ ref.name
  have there := aliasResult_of_firm (r := r.withTable after) ⟨becomes.firm.notFlexible, becomes.firm.right⟩ ref.name
  rw [here]
  exact there ▸ .pure becomes

omit ih enough fits writes alike in
/-- Something is missing for what is not analysed yet. -/
theorem mirrors_pendingType (decl : PendingDecl) {m' : Resolve Ty} {R : Ty → Ty → Prop} :
    Mirrors ends s (r.pendingType (r.recursion n) decl ref level) m' R := by
  unfold pendingType
  split
  · exact .of_fail
  · split
    · refine .of_raise ?_
      split <;> decide
    · refine .of_raise ?_
      decide

theorem mirrors_definedType {symbol : Symbol} {d : Definition} (same : r.table.SameClasses after)
    (finished : r.table.Finished) (inFull : r.InFull ref) (found : r.table.lookup ref.name = some symbol)
    (defined : symbol.definition = some d) (plain : SpecialForm.ofName? symbol.fullname = none)
    (parts : ∀ t ∈ ref.args, r.AliasBody after vars t) (inLiteral : Bool) :
    Mirrors ends s (r.forAliases.definedType (r.forAliases.recursion n) d symbol.fullname ref level inLiteral)
      ((r.withTable after).definedType ((r.withTable after).recursion m) d symbol.fullname (ref.mapArgs change) level
        inLiteral) (r.Becomes vars values) := by
  have holds : r.table.Holds d := SymbolTable.holds_of_lookup found defined
  have noType {problem : Problem} {notes : List Problem} {m' : Resolve Ty} :
      Mirrors ends s (noType (r.forAliases.recursion n) ref level problem notes) m' (r.Becomes vars values) :=
    .of_loud fun _ quiet => not_silent_noType quiet.yields
  cases d with
  | classDef decl =>
    obtain ⟨notFlexible, counted⟩ := inFull.ofClass found plain defined
    exact mirrors_classType ih enough fits writes alike same finished holds notFlexible counted parts
  | aliasDef decl =>
    obtain ⟨noneFlexible, counted⟩ := inFull.ofAlias found plain defined
    refine mirrors_aliasType ih enough fits writes alike ?_ symbol.fullname parts
    exact {
      flat := finished.flat.target holds
      names := finished.names holds
      plain := noneFlexible
      bare isBare isClass := counted _ isBare isClass
      right notBare := Ty.everywhere_iff.2 ⟨(finished.root holds).resolve_left notBare, finished.right.target holds⟩ }
  | variableDef decl =>
    change Mirrors ends s (variableType _ decl symbol.fullname ref level inLiteral)
      (variableType _ decl symbol.fullname (ref.mapArgs change) level inLiteral) _
    unfold variableType
    split
    · exact .pure (.leaf rfl rfl rfl rfl)
    · cases inLiteral with
      | true => exact .pure (.leaf rfl rfl rfl rfl)
      | false => exact .of_fail
    · exact noType
  | typeVarDef decl =>
    have isVariable := SymbolTable.lookupTypeVar?_eq_some_iff.2 ⟨symbol, found, defined⟩
    rw [inFull.noVariable] at isVariable
    cases isVariable
  | pendingDef decl => exact mirrors_pendingType decl
  | moduleDef | functionDef | decoratorDef => exact noType

end Forms

section References

variable {ref : Reference}

theorem not_bindsTypeVar (noVariable : r.table.lookupTypeVar? ref.name = none) {symbol : Symbol} {d : Definition}
    (found : r.table.lookup ref.name = some symbol) (defined : symbol.definition = some d) (s : Scope) :
    bindsTypeVar d s symbol.fullname = false := by
  cases d with
  | typeVarDef decl =>
    rw [SymbolTable.lookupTypeVar?_eq_some_iff.2 ⟨symbol, found, defined⟩] at noVariable
    cases noVariable
  | _ => rfl

theorem form_of_isLiteralForm {symbol : Symbol} (found : r.table.lookup ref.name = some symbol)
    (literal : r.isLiteralForm ref = true) : SpecialForm.ofName? symbol.fullname = some .literal := by
  have forms : ∀ name ∈ literalNames, SpecialForm.ofName? name = some .literal := by decide
  unfold isLiteralForm at literal
  rw [found, Option.any_some] at literal
  exact forms _ (by simpa using literal)

theorem symbolType_subscripted (noHooks : r.hooks = .empty) (again : Recursion) (d : Definition) (fullname : String)
    (inLiteral : Bool) :
    r.symbolType again d fullname ref level inLiteral = (reportAll (r.subscriptReports fullname ref) >>= fun _ =>
      scope >>= fun s => r.formOrDefined again d fullname ref level inLiteral s) := by
  rw [symbolType_formOrDefined (unhooked noHooks _)]
  unfold subscriptReports
  split
  · rfl
  · rw [reportAll_nil_bind, pure_bind]

/-- A reference is mirrored by the same reference with other arguments if what its name stands for is. -/
theorem mirrors_reference (noHooks : r.hooks = .empty) {vars : List String} {values : List Ty}
    (flatValues : ∀ v ∈ values, v.FlatUnion) {change : Ty → Ty} {inLiteral : Bool}
    (sameLookup : after.lookup ref.name = r.table.lookup ref.name)
    (inScope : ∀ symbol d, r.table.lookup ref.name = some symbol → symbol.definition = some d →
      Mirrors ends s (r.forAliases.formOrDefined (r.forAliases.recursion n) d symbol.fullname ref level inLiteral s)
        ((r.withTable after).formOrDefined ((r.withTable after).recursion m) d symbol.fullname (ref.mapArgs change) level
          inLiteral s)
        (r.Becomes vars values)) :
    Mirrors ends s (r.forAliases.reference (r.forAliases.recursion n) ref level inLiteral)
      ((r.withTable after).reference ((r.withTable after).recursion m) (ref.mapArgs change) level inLiteral)
      (r.Becomes vars values) := by
  have plainReference : Mirrors ends s (r.forAliases.plainReference (r.forAliases.recursion n) ref level inLiteral)
      ((r.withTable after).plainReference ((r.withTable after).recursion m) (ref.mapArgs change) level inLiteral)
      (r.Becomes vars values) := by
    unfold plainReference
    rw [show (r.withTable after).table.lookup (ref.mapArgs change).name = r.table.lookup ref.name from sameLookup,
      show r.forAliases.table.lookup ref.name = r.table.lookup ref.name from rfl]
    cases found : r.table.lookup ref.name with
    | none => exact .pure (.leaf rfl rfl rfl rfl)
    | some symbol =>
      dsimp only
      cases defined : symbol.definition with
      | none => exact .of_report (List.cons_ne_nil _ _)
      | some d =>
        have silent (none : r.forAliases.subscriptReports symbol.fullname ref = []) :
            (r.withTable after).subscriptReports symbol.fullname (ref.mapArgs change) = [] := by
          unfold subscriptReports at none ⊢
          rw [show (ref.mapArgs change).args.isEmpty = ref.args.isEmpty from List.isEmpty_map]
          split at none
          · cases none
          · exact if_neg ‹_›
        cases d with
        | pendingDef decl => exact mirrors_pendingType decl
        | _ =>
          dsimp only
          rw [symbolType_subscripted (r := r.forAliases) noHooks, symbolType_subscripted (r := r.withTable after) noHooks]
          exact .reportThen silent fun _ => .scopeThen (inScope symbol _ found defined)
  unfold reference
  refine plainReference.map fun a c _ _ becomes => ?_
  rw [show (ref.mapArgs change).optional = ref.optional from rfl]
  split
  · exact becomes.optional flatValues
  · exact becomes

variable (noHooks : r.hooks = .empty) (same : r.table.SameClasses after) (ih : r.MirrorsBodies after s₀ spare n)
  (enough : ends → n + spare ≤ m) (alike : s₀.LooksLike s)

include noHooks same ih enough alike

theorem mirrors_name (finished : r.table.Finished) {vars : List String} {values : List Ty} {change : Ty → Ty}
    (writes : r.Writes after s₀ vars values change)
    (fits : ends → (r.withTable after).Fits s₀ spare vars change (.named ref) level)
    (sameLookup : after.lookup ref.name = r.table.lookup ref.name) (inFull : r.InFull ref)
    (notLiteral : r.isLiteralForm ref = false) (parts : ∀ t ∈ ref.args, r.AliasBody after vars t) (inLiteral : Bool) :
    Mirrors ends s (r.forAliases.reference (r.forAliases.recursion n) ref level inLiteral)
      ((r.withTable after).reference ((r.withTable after).recursion m) (ref.mapArgs change) level inLiteral)
      (r.Becomes vars values) := by
  refine mirrors_reference noHooks writes.flat sameLookup fun symbol d found defined => ?_
  have unbound := not_bindsTypeVar inFull.noVariable found defined s
  cases isForm : SpecialForm.ofName? symbol.fullname with
  | none =>
    unfold formOrDefined
    rw [isForm]
    exact mirrors_definedType ih enough fits writes alike same finished inFull found defined isForm parts inLiteral
  | some form =>
    have plain : form ≠ .literal := by
      rintro rfl
      rw [isLiteralForm_of_form found isForm] at notLiteral
      cases notLiteral
    unfold formOrDefined
    rw [isForm, unbound]
    exact mirrors_specialForm ih enough fits writes alike same finished inFull found isForm plain parts

theorem mirrors_literalReference {vars : List String} {values : List Ty} (flatValues : ∀ v ∈ values, v.FlatUnion)
    (sameLookup : after.lookup ref.name = r.table.lookup ref.name) (noVariable : r.table.lookupTypeVar? ref.name = none)
    (literal : r.isLiteralForm ref = true) (parts : ∀ t ∈ ref.args, r.LiteralBody after t) (inLiteral : Bool) :
    Mirrors ends s (r.forAliases.reference (r.forAliases.recursion n) ref level inLiteral)
      ((r.withTable after).reference ((r.withTable after).recursion m) ref level inLiteral) (r.Becomes vars values) := by
  have inScope (symbol : Symbol) (d : Definition) (found : r.table.lookup ref.name = some symbol)
      (defined : symbol.definition = some d) :
      Mirrors ends s (r.forAliases.formOrDefined (r.forAliases.recursion n) d symbol.fullname ref level inLiteral s)
        ((r.withTable after).formOrDefined ((r.withTable after).recursion m) d symbol.fullname (ref.mapArgs id) level
          inLiteral s)
        (r.Becomes vars values) := by
    unfold formOrDefined
    rw [form_of_isLiteralForm found literal, not_bindsTypeVar noVariable found defined s, Reference.mapArgs_id]
    exact mirrors_literalForm same ih enough alike parts
  have made := mirrors_reference noHooks flatValues sameLookup inScope
  rwa [Reference.mapArgs_id] at made

end References

end Resolver

end TypeResolution
