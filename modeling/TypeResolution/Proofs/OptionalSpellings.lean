import TypeResolution.Proofs.Canonical
import TypeResolution.Proofs.ShiftedLevels

namespace TypeResolution

open Resolve

namespace Ty

/-- An optional type is the union of the type and `None`. -/
theorem makeOptional_equal_makeUnion (t : Ty) (p q : Position) : t.makeOptional ≈ makeUnion [t, .noneType p] q := by
  refine (makeOptional_flatUnion t).equal_of_members (makeUnion_flatUnion _ q) ?_
  refine (members_makeOptional t).trans (SameTypes.trans ?_ (members_makeUnion (by simp [members]) q).symm)
  have none_ : SameTypes [.noneType .unknown] [.noneType p] := .of_forall₂ (.cons Matches.noneType.beq .nil)
  simpa [members] using (SameTypes.refl t.members).append none_

/-- The suffix `?` hides no difference between types that are neither unions nor `None`. -/
theorem makeOptional_equal_iff {t u : Ty} (single : t.isUnion = false ∧ t.isNone = false)
    (single' : u.isUnion = false ∧ u.isNone = false) : t.makeOptional ≈ u.makeOptional ↔ t ≈ u := by
  refine ⟨fun equal => ?_, makeOptional_congr⟩
  rw [makeOptional_of_single single.1 single.2, makeOptional_of_single single'.1 single'.2] at equal
  obtain ⟨_, within, _⟩ := beq_union_iff.1 equal
  obtain ⟨y, member, atT⟩ := within t (List.mem_cons_self ..)
  rcases List.mem_cons.1 member with rfl | member
  · exact atT
  · rw [List.mem_singleton.1 member] at atT
    cases matches_of_beq atT
    cases single.2

end Ty

namespace Reference

/-- The same reference with the suffix `?`. -/
def suffixed (ref : Reference) : Reference := { ref with optional := true }

end Reference

theorem builtinReplacement?_of_form {fullname : String} {form : SpecialForm}
    (isForm : SpecialForm.ofName? fullname = some form) : builtinReplacement? fullname = none := by
  obtain ⟨entry, atName, _⟩ := Option.map_eq_some_iff.1 isForm
  have named : entry.1 = fullname := by simpa using List.find?_some atName
  have apart : ∀ entry ∈ SpecialForm.names, builtinReplacement? entry.1 = none := by decide
  rw [← named]
  exact apart entry (List.mem_of_find?_eq_some atName)

namespace Resolver

variable {r : Resolver} {s : Scope} {again : Recursion}

/-- The special form that a symbol stands for in a scope, unless a type variable of its name hides it. -/
def formOf? (d : Definition) (s : Scope) (fullname : String) : Option SpecialForm :=
  if bindsTypeVar d s fullname then none else SpecialForm.ofName? fullname

/-- A symbol without a hook is first checked for arguments that it must not have. -/
theorem symbolType_start (noHooks : r.hooks = .empty) (d : Definition) (fullname : String) (ref : Reference) (level : Nesting)
    (inLiteral : Bool) :
    r.symbolType again d fullname ref level inLiteral (.start s) =
      (match formOf? d s fullname with
      | some form => r.specialForm again form ref level
      | none => r.definedType again d fullname ref level inLiteral)
        { Progress.start s with reports := r.subscriptReports fullname ref } := by
  have inScope : r.formOrDefined again d fullname ref level inLiteral s =
      match formOf? d s fullname with
      | some form => r.specialForm again form ref level
      | none => r.definedType again d fullname ref level inLiteral := by
    unfold formOrDefined formOf?
    cases bindsTypeVar d s fullname <;> cases SpecialForm.ofName? fullname <;> rfl
  rw [symbolType_formOrDefined (unhooked noHooks _), ← inScope]
  unfold subscriptReports
  split <;> rfl

/-- The special form that a name stands for in a scope. -/
def namedForm? (r : Resolver) (s : Scope) (name : String) : Option SpecialForm :=
  (r.table.lookup name).bind fun symbol =>
    match symbol.definition with
    | none | some (.pendingDef _) => none
    | some d => formOf? d s symbol.fullname

theorem namedForm?_of_symbol {name : String} {symbol : Symbol} {d : Definition} (found : r.table.lookup name = some symbol)
    (defined : symbol.definition = some d) (settled : symbol.isPending = false) :
    r.namedForm? s name = formOf? d s symbol.fullname := by
  unfold namedForm?
  rw [found, Option.bind_some, defined]
  unfold Symbol.isPending at settled
  rw [defined] at settled
  cases d <;> first | rfl | cases settled

/-- An expression for `None`. -/
def writesNone (r : Resolver) (s : Scope) : Ty → Bool
  | .noneType _ => true
  | .named ref => !ref.optional && r.namedForm? s ref.name == some .noneType
  | _ => false

/-- The reference is to a type variable that may be, and is, left as it is written. -/
def LeftFree (r : Resolver) (s : Scope) (ref : Reference) : Prop :=
  r.leavesFree ∧ r.IsFreeVariable ref s ∧ r.namedForm? s ref.name = none

theorem plainReference_of_namedForm (noHooks : r.hooks = .empty) {ref : Reference} {form : SpecialForm}
    (named : r.namedForm? s ref.name = some form) (level : Nesting) (inLiteral : Bool) :
    r.plainReference again ref level inLiteral (.start s) = r.specialForm again form ref level (.start s) := by
  obtain ⟨symbol, found, atSymbol⟩ := Option.bind_eq_some_iff.1 named
  split at atSymbol
  · cases atSymbol
  · cases atSymbol
  · rename_i d notPending defined
    have settled : symbol.isPending = false := by
      unfold Symbol.isPending
      rw [defined]
      cases d <;> first | rfl | exact absurd rfl (notPending _)
    have isForm : SpecialForm.ofName? symbol.fullname = some form := by
      unfold formOf? at atSymbol
      split at atSymbol
      · cases atSymbol
      · exact atSymbol
    have silent : r.subscriptReports symbol.fullname ref = [] := by
      rw [subscriptReports, builtinReplacement?_of_form isForm]
      rfl
    rw [plainReference_of_symbol found defined settled, symbolType_start noHooks, atSymbol, silent]
    rfl

theorem reference_of_namedForm (noHooks : r.hooks = .empty) {ref : Reference} (plain : ref.optional = false)
    {form : SpecialForm} (named : r.namedForm? s ref.name = some form) (level : Nesting) (inLiteral : Bool) :
    r.reference again ref level inLiteral (.start s) = r.specialForm again form ref level (.start s) := by
  change (r.plainReference again ref level inLiteral (.start s)).bind _ = _
  rw [plainReference_of_namedForm noHooks named, plain]
  cases r.specialForm again form ref level (.start s) <;> rfl

theorem noType_not_quiet {ref : Reference} {level : Nesting} {problem : Problem} {notes : List Problem} {p q : Progress}
    {t : Ty} (ran : noType again ref level problem notes p = some (t, q)) : q.reports ≠ [] := by
  obtain ⟨⟨args, q'⟩, _, rest⟩ := Option.bind_eq_some_iff.1 ran
  cases rest
  simp

theorem specialForm_suffixed (form : SpecialForm) (ref : Reference) (level : Nesting) :
    r.specialForm again form ref.suffixed level = r.specialForm again form ref level := by
  cases form <;> rfl

/-- Only a reference that stays keeps its suffix: one to a free variable, or one to a name that is no type, which is
reported. -/
theorem definedType_suffixed {d : Definition} {fullname : String} {ref : Reference} {level : Nesting} {p q : Progress}
    {t : Ty} (bound : ∀ decl, d = .typeVarDef decl → p.scope.find? fullname = none → r.leavesFree = false)
    (ran : r.definedType again d fullname ref level false p = some (t, q)) (quiet : q.reports = []) :
    r.definedType again d fullname ref.suffixed level false p = some (t, q) := by
  cases d with
  | classDef | aliasDef | pendingDef => exact ran
  | variableDef decl =>
    have same : variableType again decl fullname ref.suffixed level false = variableType again decl fullname ref level false ∨
        variableType again decl fullname ref level false = noType again ref level (.variableAsType fullname) [] := by
      unfold variableType
      split
      · exact .inl rfl
      · exact .inl rfl
      · exact .inr rfl
    change variableType again decl fullname ref level false p = _ at ran
    change variableType again decl fullname ref.suffixed level false p = _
    rcases same with same | isNoType
    · rw [same]
      exact ran
    · rw [isNoType] at ran
      exact absurd quiet (noType_not_quiet ran)
  | typeVarDef decl =>
    change r.typeVarType again fullname ref level p = _ at ran
    change r.typeVarType again fullname ref.suffixed level p = _
    rw [typeVarType_eq] at ran ⊢
    change r.variableFound again fullname ref level (p.scope.find? fullname) p = _ at ran
    change r.variableFound again fullname ref.suffixed level (p.scope.find? fullname) p = _
    cases found : p.scope.find? fullname with
    | some binding =>
      rw [found] at ran
      exact ran
    | none =>
      have notLeft : ¬ (r.flags.allowUnboundVariables || r.flags.definingAlias) = true :=
        Bool.eq_false_iff.1 (bound decl rfl found)
      rw [found, variableFound, if_neg notLeft] at ran
      exact absurd quiet (noType_not_quiet ran)
  | moduleDef | functionDef | decoratorDef => exact absurd quiet (noType_not_quiet ran)

/-- A name is looked up the same with the suffix as without, if nothing is reported and it is not left as it is written. -/
theorem plainReference_suffixed (noHooks : r.hooks = .empty) {ref : Reference} (notLeft : ¬ r.LeftFree s ref)
    {level : Nesting} {t : Ty} {q : Progress} (ran : r.plainReference again ref level false (.start s) = some (t, q))
    (quiet : q.reports = []) :
    r.plainReference again ref.suffixed level false (.start s) = some (t, q) := by
  by_cases settled : ∃ symbol d, r.table.lookup ref.name = some symbol ∧ symbol.definition = some d ∧ symbol.isPending = false
  · obtain ⟨symbol, d, found, defined, settled⟩ := settled
    have foundSuffixed : r.table.lookup ref.suffixed.name = some symbol := found
    rw [plainReference_of_symbol found defined settled, symbolType_start noHooks] at ran
    rw [plainReference_of_symbol foundSuffixed defined settled, symbolType_start noHooks]
    cases atSymbol : formOf? d s symbol.fullname with
    | some form =>
      rw [atSymbol] at ran
      dsimp only at ran ⊢
      rw [specialForm_suffixed]
      exact ran
    | none =>
      rw [atSymbol] at ran
      refine definedType_suffixed (fun decl isVariable free => Bool.eq_false_iff.2 fun leaves => notLeft ?_) ran quiet
      have notForm : r.namedForm? s ref.name = none := by rw [namedForm?_of_symbol found defined settled, atSymbol]
      exact ⟨leaves, ⟨symbol, decl, found, isVariable ▸ defined, free⟩, notForm⟩
  · have same : r.plainReference again ref.suffixed level false = r.plainReference again ref level false := by
      have sameName : ref.suffixed.name = ref.name := rfl
      unfold plainReference
      rw [sameName]
      split
      · rfl
      · rename_i symbol found
        split
        · rfl
        · rfl
        · rename_i d notPending defined
          refine absurd ⟨symbol, d, found, defined, ?_⟩ settled
          unfold Symbol.isPending
          rw [defined]
          cases d <;> first | rfl | exact absurd rfl (notPending _)
    rw [same]
    exact ran

/-- A variable that is left as it is written keeps the suffix. -/
theorem plainReference_leftFree (noHooks : r.hooks = .empty) {ref : Reference} (left : r.LeftFree s ref) {level : Nesting}
    {t : Ty} {q : Progress} (ran : r.plainReference again ref level false (.start s) = some (t, q)) :
    t = .named ref ∧ r.plainReference again ref.suffixed level false (.start s) = some (.named ref.suffixed, q) := by
  obtain ⟨leaves, ⟨symbol, decl, found, defined, free⟩, notForm⟩ := left
  have settled : symbol.isPending = false := by rw [Symbol.isPending, defined]
  have foundSuffixed : r.table.lookup ref.suffixed.name = some symbol := found
  rw [namedForm?_of_symbol found defined settled] at notForm
  have stays (ref : Reference) (p : Progress) (inScope : p.scope = s) :
      r.definedType again (.typeVarDef decl) symbol.fullname ref level false p = some (.named ref, p) := by
    change r.typeVarType again symbol.fullname ref level p = _
    rw [typeVarType_eq]
    change r.variableFound again symbol.fullname ref level (p.scope.find? symbol.fullname) p = _
    have allowed : (r.flags.allowUnboundVariables || r.flags.definingAlias) = true := leaves
    rw [inScope, free, variableFound, if_pos allowed]
    rfl
  rw [plainReference_of_symbol found defined settled, symbolType_start noHooks, notForm] at ran
  rw [plainReference_of_symbol foundSuffixed defined settled, symbolType_start noHooks, notForm]
  dsimp only at ran ⊢
  rw [stays _ _ rfl] at ran ⊢
  cases ran
  exact ⟨rfl, rfl⟩

theorem weight_named (ref : Reference) : (Ty.named ref).weight = Ty.weightAll ref.args + 1 := by
  cases ref
  rfl

/-- A heavier expression is allowed more recursion. -/
theorem allowance_lt {t u : Ty} (lighter : t.weight < u.weight) : r.allowance t < r.allowance u := by
  have limit : 4 * (maxNesting + 2) = 408 := rfl
  unfold allowance
  rw [limit]
  dsimp only
  have squares : (r.table.weight + t.weight + 1) * (r.table.weight + t.weight + 1) <
      (r.table.weight + u.weight + 1) * (r.table.weight + u.weight + 1) := Nat.mul_self_lt_mul_self (by omega)
  omega

/-- An argument that is resolved without a report is resolved to the same with more recursion, and higher up. -/
theorem argument_follows (noHooks : r.hooks = .empty) {t a : Ty} {q : Progress}
    (ran : r.resolveArgument t (.start s) = some (a, q)) (quiet : q.reports = []) {bound : Nat}
    (enough : r.allowance t ≤ bound) {level : Nesting} (shallow : level.level ≤ 1) :
    (r.recursion bound).expr t level (.start s) = some (a, q) := by
  have higher : Leeway.shallower.reach Nesting.top.deeper level := shallow
  have similar := (follows_recursion Leeway.shallower noHooks enough).expr higher t
  obtain ⟨reports, ran', kept⟩ := similar s a q ran (by simp [quiet])
  have none_ : reports = [] := List.sublist_nil.1 (quiet ▸ kept.among)
  rw [ran', none_, ← quiet]

/-- An expression at the top is resolved by its form. -/
theorem resolve_of_form {t a : Ty} {q : Progress} {bound : Nat} (atBound : r.allowance t = bound + 1)
    (ran : r.form (r.recursion bound) t .top (.start s) = some (a, q)) (complete : q.status = .complete) :
    r.resolve t (.start s) = some (⟨a, .complete⟩, q) := by
  have shallow : ¬ maxNesting < Nesting.top.level := Nat.not_lt_zero _
  have asExpr : (r.recursion (bound + 1)).expr t .top (.start s) = some (a, q) := by
    change r.expr (r.recursion bound) t .top (.start s) = _
    rw [expr_eq, if_neg shallow]
    exact ran
  unfold resolve
  rw [atBound]
  change ((r.recursion (bound + 1)).expr t .top (.start s)).bind _ = _
  rw [asExpr]
  change some ((⟨a, q.status⟩ : Resolution), { q with status := .complete }) = _
  rw [← complete]

/-- Every expression is allowed some recursion. -/
theorem allowance_eq_add (r : Resolver) (t : Ty) : ∃ bound, r.allowance t = bound + 2 := by
  have weighs : 0 < (r.table.weight + t.weight + 1) * (r.table.weight + t.weight + 1) :=
    Nat.mul_pos (Nat.succ_pos _) (Nat.succ_pos _)
  have limit : 4 * (maxNesting + 2) = 408 := rfl
  have enough : 2 ≤ r.allowance t := by
    unfold allowance
    rw [limit]
    dsimp only
    omega
  exact ⟨r.allowance t - 2, by omega⟩

theorem writesNone_run (noHooks : r.hooks = .empty) {n : Ty} (writes : r.writesNone s n) (bound : Nat) {level : Nesting}
    (shallow : level.level ≤ maxNesting) {p : Progress} (inScope : p.scope = s) :
    (r.recursion (bound + 1)).expr n level p = some (.noneType n.pos, p) := by
  change r.expr (r.recursion bound) n level p = _
  rw [expr_eq, if_neg (Nat.not_lt.2 shallow)]
  cases n with
  | noneType pos => rfl
  | named ref =>
    simp only [writesNone, Bool.and_eq_true, Bool.not_eq_true', beq_iff_eq] at writes
    obtain ⟨plain, named⟩ := writes
    have alone : r.reference (r.recursion bound) ref level false (.start s) = some (.noneType ref.pos, .start s) :=
      reference_of_namedForm noHooks plain named level false
    change r.reference (r.recursion bound) ref level false p = _
    rw [(steady_reference ref level false).alone, inScope, alone, ← inScope]
    exact congrArg (fun q => some (Ty.noneType ref.pos, q)) p.join_start
  | _ => cases writes

section Spellings

variable (noHooks : r.hooks = .empty) {x : Reference} {t : Ty} {q : Progress}
  (ran : r.resolveArgument (.named x) (.start s) = some (t, q)) (complete : q.status = .complete) (quiet : q.reports = [])

include noHooks ran complete quiet

/-- An expression that applies a special form to `x`, among others, has the recursion that `x` needs. -/
theorem resolve_applied {ref : Reference} {form : SpecialForm} (named : r.namedForm? s ref.name = some form)
    (bare : ref.optional = false) {args : List Ty} (member : Ty.named x ∈ args) {a : Ty}
    (made : ∀ bound, (r.recursion (bound + 1)).arg (.named x) .top (.start s) = some (t, q) →
      r.specialForm (r.recursion (bound + 1)) form (ref.withArgs args) .top (.start s) = some (a, q)) :
    r.resolve (.named (ref.withArgs args)) (.start s) = some (⟨a, .complete⟩, q) := by
  have lighter : r.allowance (.named x) < r.allowance (.named (ref.withArgs args)) :=
    allowance_lt (Ty.weight_child_lt (t := .named (ref.withArgs args)) member)
  obtain ⟨bound, atBound⟩ := r.allowance_eq_add (.named (ref.withArgs args))
  have inside : (r.recursion (bound + 1)).expr (.named x) Nesting.top.deeper (.start s) = some (t, q) :=
    argument_follows noHooks ran quiet (by omega) (Nat.le_refl 1)
  have asForm : r.form (r.recursion (bound + 1)) (.named (ref.withArgs args)) .top (.start s) =
      r.specialForm (r.recursion (bound + 1)) form (ref.withArgs args) .top (.start s) := by
    have namedApplied : r.namedForm? s (ref.withArgs args).name = some form := named
    have bareApplied : (ref.withArgs args).optional = false := bare
    exact reference_of_namedForm noHooks bareApplied namedApplied .top false
  exact resolve_of_form atBound (asForm.trans (made bound inside)) complete

theorem resolve_optional {ref : Reference} (named : r.namedForm? s ref.name = some .optional) (bare : ref.optional = false) :
    r.resolve (.named (ref.withArgs [.named x])) (.start s) = some (⟨t.makeOptional, .complete⟩, q) := by
  refine resolve_applied noHooks ran complete quiet named bare (List.mem_singleton_self _) fun bound inside => ?_
  change ((r.recursion (bound + 1)).arg (.named x) .top (.start s)).bind _ = _
  rw [inside]
  rfl

theorem resolve_unionWithNone {ref : Reference} (named : r.namedForm? s ref.name = some .union) (bare : ref.optional = false)
    {n : Ty} (isNone : r.writesNone s n) :
    r.resolve (.named (ref.withArgs [.named x, n])) (.start s) =
      some (⟨.makeUnion [t, .noneType n.pos] ref.pos, .complete⟩, q) := by
  have argument : Steady (r.resolveArgument (.named x)) := steady_arg (.named x) .top
  have inScope : q.scope = s := argument.keeps ran
  refine resolve_applied noHooks ran complete quiet named bare (by simp) fun bound inside => ?_
  have second : (r.recursion (bound + 1)).arg n .top q = some (.noneType n.pos, q) :=
    writesNone_run noHooks isNone bound (by decide) inScope
  have items : (r.recursion (bound + 1)).args [.named x, n] .top (.start s) = some ([t, .noneType n.pos], q) := by
    unfold Recursion.args
    rw [List.mapM_cons, List.mapM_cons, List.mapM_nil]
    change ((r.recursion (bound + 1)).arg (.named x) .top (.start s)).bind _ = _
    rw [inside]
    change (((r.recursion (bound + 1)).arg n .top q).bind _).bind _ = _
    rw [second]
    rfl
  change ((r.recursion (bound + 1)).args [.named x, n] .top (.start s)).bind _ = _
  rw [items]
  rfl

theorem resolve_suffixed (bare : x.optional = false) :
    ∃ u, r.resolve (.named x.suffixed) (.start s) = some (⟨u.makeOptional, .complete⟩, q) ∧
      (r.LeftFree s x ∧ t = .named x ∧ u = .named x.suffixed ∨ ¬ r.LeftFree s x ∧ u = t) := by
  obtain ⟨bound, atBound⟩ : ∃ bound, r.allowance (.named x) = bound + 1 :=
    (r.allowance_eq_add (.named x)).imp' (· + 1) fun _ => id
  have sameBound : r.allowance (.named x.suffixed) = bound + 1 := by
    rw [← atBound]
    unfold allowance
    rw [weight_named, weight_named]
    rfl
  have asReference : (r.recursion (bound + 1)).expr (.named x) .top (.start s) = some (t, q) :=
    argument_follows noHooks ran quiet (Nat.le_of_eq atBound) (Nat.zero_le 1)
  change ((r.plainReference (r.recursion bound) x .top false (.start s)).bind _) = _ at asReference
  obtain ⟨⟨plain, q'⟩, ranPlain, ended⟩ := Option.bind_eq_some_iff.1 asReference
  rw [bare] at ended
  cases ended
  have finish (u : Ty) (suffixed : r.plainReference (r.recursion bound) x.suffixed .top false (.start s) = some (u, q)) :
      r.resolve (.named x.suffixed) (.start s) = some (⟨u.makeOptional, .complete⟩, q) := by
    refine resolve_of_form sameBound ?_ complete
    change (r.plainReference (r.recursion bound) x.suffixed .top false (.start s)).bind _ = _
    rw [suffixed]
    rfl
  by_cases left : r.LeftFree s x
  · obtain ⟨isName, suffixed⟩ := plainReference_leftFree noHooks left ranPlain
    exact ⟨_, finish _ suffixed, .inl ⟨left, isName, rfl⟩⟩
  · exact ⟨_, finish _ (plainReference_suffixed noHooks left ranPlain quiet), .inr ⟨left, rfl⟩⟩

end Spellings

theorem suffixed_apart {x : Reference} (bare : x.optional = false) :
    ((Ty.named x).makeOptional == (Ty.named x.suffixed).makeOptional) = false := by
  refine Bool.eq_false_iff.2 fun equal => ?_
  cases Ty.matches_of_beq ((Ty.makeOptional_equal_iff ⟨rfl, rfl⟩ ⟨rfl, rfl⟩).1 equal) with
  | named _ _ sameSuffix =>
    rw [bare] at sameSuffix
    cases sameSuffix

/-- `Optional[x]`, `Union[x, None]` and `x?` are the same type, made without a report, if `x` is resolved as an argument
without a report. Only a type variable that is left as it is written keeps the suffix as well, so that `x?` is then the
union of `x?` and `None`. -/
theorem optionalSpellings_iff (noHooks : r.hooks = .empty) {optional union x : Reference} {n : Ty}
    (isOptional : r.namedForm? s optional.name = some .optional) (isUnion : r.namedForm? s union.name = some .union)
    (isNone : r.writesNone s n) (bareOptional : optional.optional = false) (bareUnion : union.optional = false)
    (bare : x.optional = false) {t : Ty} {q : Progress} (ran : r.resolveArgument (.named x) (.start s) = some (t, q))
    (complete : q.status = .complete) (quiet : q.reports = []) :
    ∃ a b c, r.resolve (.named (optional.withArgs [.named x])) (.start s) = some (⟨a, .complete⟩, q) ∧
      r.resolve (.named (union.withArgs [.named x, n])) (.start s) = some (⟨b, .complete⟩, q) ∧
      r.resolve (.named x.suffixed) (.start s) = some (⟨c, .complete⟩, q) ∧
      (a == b) = true ∧ ((a == c) = true ↔ ¬ r.LeftFree s x) := by
  have asOptional := resolve_optional noHooks ran complete quiet isOptional bareOptional
  have asUnion := resolve_unionWithNone noHooks ran complete quiet isUnion bareUnion isNone
  obtain ⟨u, asSuffixed, left⟩ := resolve_suffixed noHooks ran complete quiet bare
  refine ⟨_, _, _, asOptional, asUnion, asSuffixed, t.makeOptional_equal_makeUnion _ _, ?_⟩
  rcases left with ⟨left, rfl, rfl⟩ | ⟨notLeft, rfl⟩
  · exact iff_of_false (Bool.eq_false_iff.1 (suffixed_apart bare)) (not_not_intro left)
  · exact iff_of_true (Setoid.refl u.makeOptional) notLeft

/-- A class with the suffix is the class or `None`, as it is in `Optional` and in a union with `None`. -/
theorem optionalSpellings_iff_int :
    ∃ a b c q, leavingTypeVar.resolve (.named (.of "typing.Optional" [.named (.of "int" [])])) (.start .root) =
        some (⟨a, .complete⟩, q) ∧
      leavingTypeVar.resolve (.named (.of "typing.Union" [.named (.of "int" []), .named (.of "None" [])])) (.start .root) =
        some (⟨b, .complete⟩, q) ∧
      leavingTypeVar.resolve (.named (Reference.of "int" []).suffixed) (.start .root) = some (⟨c, .complete⟩, q) ∧
      (a == b) = true ∧ (a == c) = true := by
  have ran : leavingTypeVar.resolveArgument (.named (.of "int" [])) (.start .root) =
      some (.inst (.of (.plain "builtins.int") [] .unknown), .start .root) := rfl
  have isOptional : leavingTypeVar.namedForm? .root (Reference.of "typing.Optional" []).name = some .optional := rfl
  have isUnion : leavingTypeVar.namedForm? .root (Reference.of "typing.Union" []).name = some .union := rfl
  have isNone : leavingTypeVar.writesNone .root (.named (.of "None" [])) := rfl
  obtain ⟨a, b, c, asOptional, asUnion, asSuffixed, sameUnion, sameSuffixed⟩ :=
    optionalSpellings_iff rfl isOptional isUnion isNone rfl rfl rfl ran rfl rfl
  refine ⟨a, b, c, _, asOptional, asUnion, asSuffixed, sameUnion, sameSuffixed.2 ?_⟩
  rintro ⟨_, ⟨symbol, decl, found, defined, _⟩, _⟩
  cases found
  cases defined

/-- A type variable that is left free keeps the suffix beside `None`. -/
theorem suffix_kept_of_freeVariable :
    ∃ a b c q, leavingTypeVar.resolveArgument (.named (.of "T" [])) (.start .root) = some (.named (.of "T" []), q) ∧
      q.status = .complete ∧ q.reports = [] ∧
      leavingTypeVar.resolve (.named (.of "typing.Optional" [.named (.of "T" [])])) (.start .root) =
        some (⟨a, .complete⟩, q) ∧
      leavingTypeVar.resolve (.named (.of "typing.Union" [.named (.of "T" []), .named (.of "None" [])])) (.start .root) =
        some (⟨b, .complete⟩, q) ∧
      leavingTypeVar.resolve (.named (Reference.of "T" []).suffixed) (.start .root) = some (⟨c, .complete⟩, q) ∧
      (a == b) = true ∧ (a == c) = false :=
  ⟨_, _, _, _, rfl, rfl, rfl, rfl, rfl, rfl, rfl, rfl⟩

end Resolver

end TypeResolution
