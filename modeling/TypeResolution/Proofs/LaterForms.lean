import TypeResolution.Proofs.LaterLiterals

namespace TypeResolution

open Resolve

theorem forall₂_join {α β γ : Type} {R : α → β → Prop} {S : α → γ → Prop} {Q : β → γ → Prop} {ts : List α} {as : List β}
    {cs : List γ} (first : List.Forall₂ R ts as) (second : List.Forall₂ S ts cs)
    (each : ∀ t ∈ ts, ∀ a c, R t a → S t c → Q a c) : List.Forall₂ Q as cs := by
  induction first generalizing cs with
  | nil =>
    cases second
    exact .nil
  | @cons t a ts as here _ ih =>
    cases second with
    | @cons _ c _ cs there rest =>
      exact .cons (each t List.mem_cons_self a c here there)
        (ih rest fun t' member => each t' (List.mem_cons_of_mem t member))

namespace Resolver

namespace Arrives

variable {r : Resolver} {after : SymbolTable} (arrives : r.Arrives after) {arity : String → Nat} {s₀ s : Scope} {t₀ : Ty}
  {n m : Nat}

/-- What is read when `t₀` is resolved in the scope `s₀`, be it before or after. -/
structure Given (r : Resolver) (after : SymbolTable) (s₀ : Scope) (t₀ : Ty) (s : Scope) (t : Ty) : Prop where
  before : r.ComesToRead s₀ t₀ s t
  later : (r.withTable after).ComesToRead s₀ t₀ s t

theorem Given.parts {t : Ty} (given : Given r after s₀ t₀ s t) (opens : t.opensInPlace) :
    ∀ c ∈ t.children, Given r after s₀ t₀ s c := fun _ member =>
  ⟨.part given.before opens member, .part given.later opens member⟩

section Reading

include arrives

/-- The arguments of `Callable` are read alike, but for the class that functions are of. -/
theorem formSignature?_later (ref : Reference) :
    (r.withTable after).formSignature? ref = (r.formSignature? ref).map fun signature =>
      { signature with fallback := (r.withTable after).instanceOf? "builtins.function" [] ref.pos } := by
  unfold formSignature?
  rw [show (r.withTable after).table = after from rfl]
  split
  · rfl
  · rw [arrives.matures.ofItems_eq, Option.map_map]
    rfl
  · rfl
  · rfl

/-- A signature binds the same variables before and after. -/
theorem innerScope_later (s : Scope) (signature : Signature) :
    (r.withTable after).innerScope s signature = r.innerScope s signature := by
  unfold innerScope
  rw [show (r.withTable after).table = after from rfl, arrives.matures.bindSignature_eq]

theorem Given.signature {signature : Signature} (given : Given r after s₀ t₀ s (.callable signature)) :
    ∀ c ∈ (Ty.callable signature).children, Given r after s₀ t₀ (r.innerScope s signature) c := fun _ member =>
  ⟨.signature given.before member, arrives.innerScope_later s signature ▸ .signature given.later member⟩

theorem Given.form {ref : Reference} {symbol : Symbol} {signature : Signature}
    (given : Given r after s₀ t₀ s (.named ref)) (found : r.table.lookup ref.name = some symbol)
    (isForm : symbol.isCallableForm) (read : r.formSignature? ref = some signature) :
    ∀ c ∈ (Ty.callable signature).children, Given r after s₀ t₀ (r.innerScope s signature) c := by
  intro c member
  refine ⟨.signature (.form given.before found isForm read) member, ?_⟩
  rcases arrives.matures.lookup_cases ref.name with ⟨same, _⟩ | ⟨_, _, _, _, was, _, _⟩
  · have read' := arrives.formSignature?_later ref
    rw [read, Option.map_some] at read'
    have part := ComesToRead.signature (.form given.later (same.trans found) isForm read') member
    rw [arrives.innerScope_later] at part
    exact part
  · cases was.symm.trans found
    simp [Symbol.isCallableForm, Symbol.isPending] at isForm

theorem Given.args {ref : Reference} {symbol : Symbol} (given : Given r after s₀ t₀ s (.named ref))
    (found : r.table.lookup ref.name = some symbol) (plain : symbol.isCallableForm = false) :
    ∀ t ∈ ref.args, Given r after s₀ t₀ s t := by
  intro t member
  refine ⟨.arg given.before found plain member, ?_⟩
  rcases arrives.matures.lookup_cases ref.name with ⟨same, _⟩ | ⟨_, _, _, _, _, is, come⟩
  · exact .arg given.later (same.trans found) plain member
  · exact .arg given.later is (by simp [Symbol.isCallableForm, arrives.notForm come]) member

/-- A class that is there before is there after. -/
theorem findClass?_later {fullname : String} {decl : ClassDecl} (found : r.table.findClass? fullname = some decl) :
    after.findClass? fullname = some decl :=
  (arrives.matures.findClass?_eq (SymbolTable.not_arrived_of_class found)).trans found

theorem Given.forward {fullname : String} {args : List Ty} {pos : Position} {decl : ClassDecl}
    (given : Given r after s₀ t₀ s (.forward (some fullname) args pos)) (found : r.table.findClass? fullname = some decl) :
    ∀ t ∈ args, Given r after s₀ t₀ s t := fun _ member =>
  ⟨.forwardArg given.before found member, .forwardArg given.later (arrives.findClass?_later found) member⟩

end Reading

/-- What is known of a type that the first run makes without a report. -/
structure Product (arity : String → Nat) (a : Ty) : Prop where
  kempt : a.Everywhere arrives.new.Kempt
  literal : arrives.LiteralParts a
  heads : r.flags.definingAlias = false → a.Everywhere (Ty.HeadOf arity)

/-- What is resolved in `n` steps without a report comes, with the classes, to what it is resolved to in the later table. -/
structure Follows (s₀ : Scope) (t₀ : Ty) (n : Nat) : Prop where
  expr {m : Nat} {s : Scope} {t a c : Ty} {level : Nesting} : Given r after s₀ t₀ s t →
    Yields Problem.Never ((r.recursion n).expr t level) s a →
    Yields Problem.IsShallow (((r.withTable after).recursion m).expr t level) s c → c ≈ arrives.new.fulfil a
  literalName {m : Nat} {s : Scope} {ref : Reference} {a c : Ty} {level : Nesting} : Given r after s₀ t₀ s (.named ref) →
    Yields Problem.Never ((r.recursion n).literalName ref level) s a →
    Yields Problem.IsShallow (((r.withTable after).recursion m).literalName ref level) s c → c ≈ arrives.new.fulfil a
  literals {m index : Nat} {s : Scope} {t : Ty} {pos : Position} {level : Nesting} {f g : Option (List Ty)} :
    Given r after s₀ t₀ s t → Yields Problem.Never ((r.recursion n).literals index t pos level) s f →
    Yields Problem.IsShallow (((r.withTable after).recursion m).literals index t pos level) s g → LiteralsAlike f g

variable {arrives}

/-- What the first run makes of an expression. -/
theorem product_of_yields (ready : arrives.Ready arity s₀ t₀) {t a : Ty} {step : Resolve Ty} (given : Given r after s₀ t₀ s t)
    (ensures : ∀ {In : Scope → Ty → Prop} {Out : Progress → Progress → Ty → Prop}, r.Rule In Out →
      r.Ensures (.start s) step fun a q => q.scope = s ∧ (In s t → Out (.start s) q a))
    (yields : Yields Problem.Never step s a) : arrives.Product arity a := by
  obtain ⟨q, ran, silent⟩ := yields
  refine ⟨(ensures (rule_kempt ready) a q ran).2.2 given.before, ?_, fun using_ => ?_⟩
  · refine ((ensures (rule_literalParts ready) a q ran).2.2 given.before).resolve_left fun reported => reported ?_
    exact List.eq_nil_iff_forall_not_mem.2 silent
  · exact (ensures (rule_headOf (ready.ofArity using_)) a q ran).2.2 given.before

theorem product_of_expr (noHooks : r.hooks = .empty) (ready : arrives.Ready arity s₀ t₀) {t a : Ty} {level : Nesting}
    (given : Given r after s₀ t₀ s t) (yields : Yields Problem.Never ((r.recursion n).expr t level) s a) :
    arrives.Product arity a :=
  product_of_yields ready given (fun rule => (recursion_obeys rule noHooks n).expr t level (.start s)) yields

theorem product_of_plainReference (noHooks : r.hooks = .empty) (ready : arrives.Ready arity s₀ t₀) {ref : Reference} {a : Ty}
    {level : Nesting} {inLiteral : Bool} (given : Given r after s₀ t₀ s (.named ref))
    (yields : Yields Problem.Never (r.plainReference (r.recursion n) ref level inLiteral) s a) : arrives.Product arity a :=
  product_of_yields ready given
    (fun rule => plainReference_ensures rule (recursion_obeys rule noHooks n) noHooks ref level inLiteral (.start s)) yields

theorem product_of_literalName (noHooks : r.hooks = .empty) (ready : arrives.Ready arity s₀ t₀) {ref : Reference} {a : Ty}
    {level : Nesting} (given : Given r after s₀ t₀ s (.named ref))
    (yields : Yields Problem.Never ((r.recursion n).literalName ref level) s a) : arrives.Product arity a := by
  cases n with
  | zero => exact yields.stuck.elim
  | succ n =>
    exact product_of_yields ready given
      (fun rule => reference_ensures rule (recursion_obeys rule noHooks n) noHooks ref level true (.start s)) yields

/-- What the second run makes has instances of the same numbers of type variables. -/
theorem heads_of_expr (noHooks : r.hooks = .empty) (ready : arrives.Ready arity s₀ t₀) (using_ : r.flags.definingAlias = false)
    {t c : Ty} {level : Nesting} (given : Given r after s₀ t₀ s t)
    (yields : Yields Problem.IsShallow (((r.withTable after).recursion m).expr t level) s c) :
    c.Everywhere (Ty.HeadOf arity) := by
  obtain ⟨q, ran, _⟩ := yields
  have rule : (r.withTable after).Rule _ _ := rule_headOf (ready.ofArityLater using_)
  exact ((recursion_obeys rule noHooks m).expr t level (.start s) c q ran).2.2 given.later

theorem products_of_args (noHooks : r.hooks = .empty) (ready : arrives.Ready arity s₀ t₀) {args as : List Ty} {level : Nesting}
    (given : ∀ t ∈ args, Given r after s₀ t₀ s t)
    (first : List.Forall₂ (fun t a => Yields Problem.Never ((r.recursion n).arg t level) s a) args as) :
    ∀ a ∈ as, arrives.Product arity a := by
  intro a member
  obtain ⟨t, atSource, made⟩ := forall₂_source first member
  exact product_of_expr noHooks ready (given t atSource) made

section Parts

variable (ih : arrives.Follows s₀ t₀ n)

include ih

theorem follow_args {ts as cs : List Ty} {level : Nesting} (given : ∀ t ∈ ts, Given r after s₀ t₀ s t)
    (first : List.Forall₂ (fun t a => Yields Problem.Never ((r.recursion n).arg t level) s a) ts as)
    (second : List.Forall₂ (fun t c => Yields Problem.IsShallow (((r.withTable after).recursion m).arg t level) s c) ts cs) :
    arrives.new.Follow as cs :=
  forall₂_join first second fun t member _ _ before later => ih.expr (given t member) before later

theorem follow_fields {fields made made' : List (String × Ty)} {level : Nesting}
    (given : ∀ field ∈ fields, Given r after s₀ t₀ s field.2)
    (first : List.Forall₂ (fun field made => made.1 = field.1 ∧ Yields Problem.Never ((r.recursion n).arg field.2 level) s made.2)
      fields made)
    (second : List.Forall₂ (fun field made => made.1 = field.1 ∧
      Yields Problem.IsShallow (((r.withTable after).recursion m).arg field.2 level) s made.2) fields made') :
    List.Forall₂ (fun x y => x.1 = y.1 ∧ x.2 ≈ y.2) made' (made.map fun field => (field.1, arrives.new.fulfil field.2)) := by
  rw [List.forall₂_map_right_iff]
  refine (forall₂_join first second fun field member a c before later => ?_).flip
  exact ⟨later.1.trans before.1.symm, ih.expr (given field member) before.2 later.2⟩

/-- A class that was there comes to what it is resolved to in the later table. -/
theorem follow_class {t : Ty} (source : Given r after s₀ t₀ s t) {decl : ClassDecl} (stands : r.StandsForClass t decl)
    (standsLater : (r.withTable after).StandsForClass t decl) {args : List Ty} {pos : Position} {level : Nesting} {a c : Ty}
    (given : ∀ t ∈ args, Given r after s₀ t₀ s t)
    (first : Yields Problem.Never (r.classType (r.recursion n) decl args pos level) s a)
    (second : Yields Problem.IsShallow ((r.withTable after).classType ((r.withTable after).recursion m) decl args pos level) s c) :
    c ≈ arrives.new.fulfil a := by
  cases yields_classType first with
  | tuple given_ isTuple inItems =>
    cases yields_classType second with
    | tuple _ _ inItems' =>
      rw [arrives.new.fulfil_of_form rfl rfl]
      exact Ty.Matches.beq (.tuple (follow_args ih given inItems inItems').map (Ty.instance_refl _))
    | plain other | genericTuple other | genericRecord other => exact absurd isTuple (other given_)
    | tupleBase bare | recordBase bare => exact absurd bare given_
  | @plain resolved other noTuple noRecord inArgs =>
    cases yields_classType second with
    | @plain resolved' _ _ _ inArgs' =>
      have equal := Instance.of_congr decl.head (follow_args ih given inArgs inArgs').map pos pos
      have made : arrives.new.fulfil (.inst (r.repaired (.of decl.head resolved pos) false none)) =
          .inst (r.repaired (.of decl.head (resolved.map arrives.new.fulfil) pos) false none) :=
        arrives.new.fulfil_repaired (.of decl.head resolved pos) false none
      have sameHead : (Instance.of decl.head resolved' pos).head =
          (Instance.of decl.head (resolved.map arrives.new.fulfil) pos).head := rfl
      rw [made]
      exact repaired_congr (fun _ => congrArg ClassHead.arity sameHead) equal false none none
    | tuple given_ isTuple => exact absurd isTuple (other given_)
    | _ => simp_all
  | @tupleBase base items bare atBase inItems =>
    cases yields_classType second with
    | @tupleBase base' items' _ atBase' inItems' =>
      cases atBase.symm.trans atBase'
      have inBase (t : Ty) (member : t ∈ base.items) : Given r after s₀ t₀ s t :=
        ⟨.tupleBase source.before stands atBase member, .tupleBase source.later standsLater atBase member⟩
      rw [arrives.new.fulfil_of_form rfl rfl]
      exact Ty.Matches.beq (.tuple (follow_args ih inBase inItems inItems').map (Ty.instance_refl _))
    | _ => simp_all
  | @recordBase base fields bare noTuple atBase inFields =>
    cases yields_classType second with
    | @recordBase base' fields' _ _ atBase' inFields' =>
      cases atBase.symm.trans atBase'
      have inBase (field : String × Ty) (member : field ∈ base.fields) : Given r after s₀ t₀ s field.2 :=
        ⟨.recordBase source.before stands atBase member, .recordBase source.later standsLater atBase member⟩
      rw [arrives.new.fulfil_record]
      exact Ty.record_congr (follow_fields ih inBase inFields inFields') base.required (Ty.instance_refl _) pos pos
    | _ => simp_all
  | genericTuple _ _ _ reported => exact reported.elim
  | genericRecord _ _ _ _ reported => exact reported.elim

/-- Where a reference to a class to come was made, the class that has come is resolved to what the reference comes to. -/
theorem follow_come {fullname : String} {decl : ClassDecl} (come : r.table.arrived? after fullname = some decl)
    {args as : List Ty} {pos : Position} {level : Nesting} {c : Ty} (given : ∀ t ∈ args, Given r after s₀ t₀ s t)
    (first : List.Forall₂ (fun t a => Yields Problem.Never ((r.recursion n).arg t level) s a) args as)
    (second : Yields Problem.IsShallow ((r.withTable after).classType ((r.withTable after).recursion m) decl args pos level) s c) :
    c ≈ arrives.new.fulfil (.forward (some fullname) as pos) := by
  have come : arrives.new.class? fullname = some decl := come
  rw [arrives.new.fulfil_forward come]
  refine Arrivals.applied_of_yields come (by simpa using first.length_eq) (fun made inArgs => ?_) second pos
  exact (follow_args ih given first inArgs).map

theorem follow_pending {decl : PendingDecl} (absent : r.table.arrived? after decl.fullname = none) {ref : Reference}
    {level : Nesting} {a c : Ty} (given : ∀ t ∈ ref.args, Given r after s₀ t₀ s t)
    (first : Yields Problem.Never (r.pendingType (r.recursion n) decl ref level) s a)
    (second : Yields Problem.IsShallow ((r.withTable after).pendingType ((r.withTable after).recursion m) decl ref level) s c) :
    c ≈ arrives.new.fulfil a := by
  have notFinal' : (r.withTable after).table.finalPass = false := arrives.matures.notFinal'
  unfold pendingType at first second
  rw [arrives.matures.notFinal, if_neg Bool.false_ne_true] at first
  rw [notFinal', if_neg Bool.false_ne_true] at second
  split at first
  · rename_i becomesClass
    rw [if_pos becomesClass] at second
    obtain ⟨as, inArgs, rfl⟩ := first.andThen.2.map
    obtain ⟨cs, inArgs', rfl⟩ := second.andThen.2.map
    have stays : arrives.new.awaits (.forward (some decl.fullname) as ref.pos) = false := by
      rw [Arrivals.awaits, show arrives.new.class? decl.fullname = none from absent]
      rfl
    rw [arrives.new.fulfil_of_form rfl stays]
    exact Ty.Matches.beq (.forward (follow_args ih given (yields_args inArgs) (yields_args inArgs')).map)
  · rename_i notClass
    rw [if_neg notClass] at second
    rw [← first.andThen.2.pure, ← second.andThen.2.pure, arrives.new.fulfil_of_isAny rfl]

theorem follow_alias (noHooks : r.hooks = .empty) (ready : arrives.Ready arity s₀ t₀) {decl : AliasDecl}
    {fullname : String} {ref : Reference} {level : Nesting} {a c : Ty} (given : Given r after s₀ t₀ s (.named ref))
    (uses : r.UsesAlias ref decl) (inArgs : ∀ t ∈ ref.args, Given r after s₀ t₀ s t)
    (first : Yields Problem.Never (r.aliasType (r.recursion n) decl fullname ref level) s a) (kempt : arrives.new.Kempt a)
    (second : Yields Problem.IsShallow
      ((r.withTable after).aliasType ((r.withTable after).recursion m) decl fullname ref level) s c) :
    c ≈ arrives.new.fulfil a := by
  have stays := (ready.legible given.before).use uses
  have result := stays.result first
  obtain ⟨as, before, rfl⟩ := yields_aliasType first
  obtain ⟨cs, later, rfl⟩ := yields_aliasType second
  have products := products_of_args noHooks ready inArgs before
  refine arrives.new.fulfil_expansion ready.come stays.notDue (fun x member => (products x member).kempt.root)
    (follow_args ih inArgs before later) (fun using_ => ⟨(ready.ofArity using_).target given.before uses,
      fun x member => (products x member).heads using_, fun y member => ?_⟩) ref.pos ref.name kempt result
  obtain ⟨t, atSource, made⟩ := forall₂_source later member
  exact heads_of_expr noHooks ready using_ (inArgs t atSource) made

omit ih in
/-- What nothing is due in stays as it is when the classes come. -/
theorem follow_of_not_due {a c : Ty} (none : arrives.new.due a = false) (equal : c ≈ a) : c ≈ arrives.new.fulfil a := by
  rwa [arrives.new.fulfil_of_not_due none]

omit ih in
theorem not_due_of_leaf {a : Ty} (leaf : a.children = []) (here : arrives.new.awaits a = false) : arrives.new.due a = false := by
  rw [arrives.new.due_eq, here, leaf]
  rfl

omit ih in
/-- Without a report a variable is resolved at once. -/
theorem silent_variableType {again : Recursion} [again.Steady] {decl : VariableDecl} {fullname : String} {ref : Reference}
    {level : Nesting} {inLiteral : Bool} {a : Ty}
    (yields : Yields Problem.Never (variableType again decl fullname ref level inLiteral) s a) :
    (a.isAny ∨ a.IsLiteral) ∧ ∀ again', variableType again' decl fullname ref level inLiteral = pure a := by
  unfold variableType at yields ⊢
  split at yields
  · rw [← yields.pure]
    exact ⟨.inl rfl, fun _ => rfl⟩
  · split at yields
    · rename_i inside
      rw [← yields.pure]
      exact ⟨.inr trivial, fun _ => if_pos inside⟩
    · exact (not_silent_failAt yields).elim
  · exact (not_silent_noType yields).elim

omit ih in
theorem follow_variable {decl : VariableDecl} {fullname : String} {ref : Reference} {level : Nesting} {inLiteral : Bool}
    {a c : Ty} (first : Yields Problem.Never (variableType (r.recursion n) decl fullname ref level inLiteral) s a)
    (second : Yields Problem.IsShallow (variableType ((r.withTable after).recursion m) decl fullname ref level inLiteral) s c) :
    c ≈ arrives.new.fulfil a := by
  obtain ⟨leaf, atOnce⟩ := silent_variableType first
  rw [atOnce] at second
  rw [← second.pure]
  refine follow_of_not_due (not_due_of_leaf ?_ ?_) (Setoid.refl _)
  · cases a <;> first | rfl | exact (leaf.elim nofun id).elim
  · cases a <;> first | rfl | exact (leaf.elim nofun id).elim

omit ih in
theorem follow_typeVar {decl : TypeVarDecl} {symbol : Symbol} {ref : Reference} (legible : arrives.Legible s (.named ref))
    (found : r.table.lookup ref.name = some symbol) (defined : symbol.definition = some (.typeVarDef decl))
    {level : Nesting} {a c : Ty}
    (first : Yields Problem.Never (r.typeVarType (r.recursion n) symbol.fullname ref level) s a)
    (second : Yields Problem.IsShallow
      ((r.withTable after).typeVarType ((r.withTable after).recursion m) symbol.fullname ref level) s c) :
    c ≈ arrives.new.fulfil a := by
  have first := yields_typeVarType first
  have second := yields_typeVarType second
  cases bound : s.find? symbol.fullname with
  | some binding =>
    simp only [bound, variableFound] at first second
    split at first
    · exact (not_silent_failAt first).elim
    · rename_i using_
      rw [if_neg using_] at second
      split at first
      · rename_i bare
        rw [if_pos bare] at second
        rw [← first.pure, ← second.pure]
        exact follow_of_not_due (not_due_of_leaf rfl rfl) (Setoid.refl _)
      · obtain ⟨_, reported⟩ := first.andThen.1
        exact (not_silent_report reported).elim
  | none =>
    simp only [bound, variableFound] at first second
    split at first
    · rename_i left
      rw [if_pos left] at second
      rw [← first.pure, ← second.pure]
      have none : ∀ t ∈ ref.args, arrives.new.due t = false := by
        cases legible with
        | named _ kept => exact kept ⟨symbol, decl, found, defined, bound⟩
        | byParts byParts => cases byParts
      refine follow_of_not_due ?_ (Setoid.refl _)
      rw [arrives.new.due_eq, show arrives.new.awaits (.named ref) = false from rfl, Bool.false_or, List.any_eq_false]
      exact fun t member => Bool.not_eq_true _ ▸ none t member
    · exact (not_silent_noType first).elim

/-- A signature is resolved in the same scope before and after, whatever class it falls back to. -/
theorem follow_signature {signature : Signature} (fallback : Option Instance) {level inner : Nesting} {a c : Ty}
    (given : ∀ t ∈ (Ty.callable signature).children, Given r after s₀ t₀ (r.innerScope s signature) t)
    (first : Yields Problem.Never (r.signature (r.recursion n) signature level inner) s a)
    (second : Yields Problem.IsShallow
      ((r.withTable after).signature ((r.withTable after).recursion m) { signature with fallback := fallback } level inner) s c) :
    c ≈ arrives.new.fulfil a := by
  obtain ⟨_, args, ret, _, _, inArgs, atRet, rfl⟩ := yields_signature first
  obtain ⟨_, args', ret', _, _, inArgs', atRet', rfl⟩ := yields_signature second
  have sameScope : (r.withTable after).innerScope s { signature with fallback := fallback } = r.innerScope s signature :=
    arrives.innerScope_later s signature
  rw [sameScope] at inArgs' atRet'
  rw [arrives.new.fulfil_callable]
  have follow : arrives.new.Follow args args' := forall₂_join inArgs inArgs' fun t member _ _ before later =>
    ih.expr (given t (List.mem_append_left _ member)) before later
  have atRet := ih.expr (given signature.ret (List.mem_append_right _ (List.mem_singleton_self _))) atRet atRet'
  exact Ty.Matches.beq (.callable follow.map rfl rfl atRet rfl)

omit ih in
theorem follow_instance {head : ClassHead} {as cs : List Ty} (follow : arrives.new.Follow as cs) (pos : Position) :
    .inst (.of head cs pos) ≈ arrives.new.fulfil (.inst (.of head as pos)) := by
  rw [arrives.new.fulfil_inst]
  exact Ty.Matches.beq (.inst (Instance.of_congr head follow.map pos pos))

theorem follow_tupleForm {ref : Reference} {level : Nesting} {a c : Ty}
    (given : ∀ t ∈ ref.args, Given r after s₀ t₀ s t)
    (first : Yields Problem.Never (r.tupleForm (r.recursion n) ref level) s a)
    (second : Yields Problem.IsShallow ((r.withTable after).tupleForm ((r.withTable after).recursion m) ref level) s c) :
    c ≈ arrives.new.fulfil a := by
  have absent : r.table.arrived? after "builtins.tuple" = none :=
    Option.eq_none_iff_forall_ne_some.2 fun _ come => arrives.notTuple come rfl
  have sameClass : (r.withTable after).table.findClass? "builtins.tuple" = r.table.findClass? "builtins.tuple" :=
    arrives.matures.findClass?_eq absent
  cases yields_tupleForm first with
  | missing missing =>
    cases yields_tupleForm second with
    | missing => exact follow_of_not_due (not_due_of_leaf rfl rfl) (Setoid.refl _)
    | bare found | homogeneous found | items found => simp_all
  | bare found =>
    cases yields_tupleForm second with
    | bare found' =>
      cases found'.symm.trans (sameClass.trans found)
      refine follow_instance (.cons ?_ .nil) ref.pos
      rw [arrives.new.fulfil_of_isAny (omittedAny_isAny _ _ _ _)]
      exact Setoid.refl _
    | _ => simp_all
  | homogeneous found atArgs atItem =>
    cases yields_tupleForm second with
    | homogeneous found' atArgs' atItem' =>
      cases found'.symm.trans (sameClass.trans found)
      cases atArgs.symm.trans atArgs'
      have item := ih.expr (given _ (by rw [atArgs]; exact List.mem_cons_self)) atItem atItem'
      exact follow_instance (.cons item .nil) ref.pos
    | _ => simp_all
  | items found notBare notPair inItems =>
    cases yields_tupleForm second with
    | items found' _ _ inItems' =>
      cases found'.symm.trans (sameClass.trans found)
      rw [arrives.new.fulfil_of_form rfl rfl]
      exact Ty.Matches.beq (.tuple (follow_args ih given inItems inItems').map (Ty.instance_refl _))
    | _ => simp_all

theorem follow_classObject (noHooks : r.hooks = .empty) (ready : arrives.Ready arity s₀ t₀) {item a c : Ty} {level : Nesting}
    (given : Given r after s₀ t₀ s item) (first : Yields Problem.Never ((r.recursion n).arg item level) s a)
    (second : Yields Problem.IsShallow (((r.withTable after).recursion m).arg item level) s c) (pos : Position) :
    c.makeClassObject pos ≈ arrives.new.fulfil (a.makeClassObject pos) := by
  have kempt := (product_of_expr noHooks ready given first).kempt.root
  exact Setoid.trans (Ty.makeClassObject_congr (ih.expr given first second) pos pos)
    (Setoid.symm (arrives.new.fulfil_makeClassObject kempt pos))

theorem follow_classObjectForm (noHooks : r.hooks = .empty) (ready : arrives.Ready arity s₀ t₀) {ref : Reference} {level : Nesting}
    {a c : Ty} (given : ∀ t ∈ ref.args, Given r after s₀ t₀ s t)
    (first : Yields Problem.Never (r.classObjectForm (r.recursion n) ref level) s a)
    (second : Yields Problem.IsShallow ((r.withTable after).classObjectForm ((r.withTable after).recursion m) ref level) s c) :
    c ≈ arrives.new.fulfil a := by
  unfold classObjectForm at first second
  cases atArgs : ref.args with
  | nil =>
    simp only [atArgs] at first second
    obtain ⟨filler, omitted, rfl⟩ := first.map
    obtain ⟨filler', omitted', rfl⟩ := second.map
    rw [yields_omittedArguments omitted, yields_omittedArguments omitted']
    have isAny : (omittedAny r.disallowsOmitted ref.pos none ref.name).1.isAny := omittedAny_isAny _ _ _ _
    have made : arrives.new.fulfil (.classObject (omittedAny r.disallowsOmitted ref.pos none ref.name).1 ref.pos) =
        .classObject (arrives.new.fulfil (omittedAny r.disallowsOmitted ref.pos none ref.name).1) ref.pos :=
      arrives.new.fulfil_of_form rfl rfl
    rw [made, arrives.new.fulfil_of_isAny isAny]
    exact Setoid.refl _
  | cons item others =>
    rw [atArgs] at given
    simp only [atArgs] at first second
    split at first
    · obtain ⟨_, reported⟩ := first.andThen.1
      exact (not_silent_report reported).elim
    · rename_i alone
      rw [if_neg alone] at second
      obtain ⟨a, atItem, rfl⟩ := first.map
      obtain ⟨c, atItem', rfl⟩ := second.map
      exact follow_classObject ih noHooks ready (given item List.mem_cons_self) atItem atItem' ref.pos

theorem follow_classVarForm {ref : Reference} {level : Nesting} {a c : Ty} (given : ∀ t ∈ ref.args, Given r after s₀ t₀ s t)
    (first : Yields Problem.Never (classVarForm (r.recursion n) ref level) s a)
    (second : Yields Problem.IsShallow (classVarForm ((r.withTable after).recursion m) ref level) s c) :
    c ≈ arrives.new.fulfil a := by
  rw [classVarForm_eq] at first second
  have first := first.andThen.2
  have second := second.andThen.2
  unfold classVarArgument at first second
  cases atArgs : ref.args with
  | nil =>
    simp only [atArgs] at first second
    rw [← first.pure, ← second.pure]
    exact follow_of_not_due (not_due_of_leaf rfl rfl) (Setoid.refl _)
  | cons item others =>
    cases others with
    | nil =>
      simp only [atArgs] at first second
      obtain ⟨x, atItem, first⟩ := first.bind
      obtain ⟨y, atItem', second⟩ := second.bind
      have equal : y ≈ arrives.new.fulfil x := ih.expr (given item (by simp [atArgs])) atItem atItem'
      split at first
      · rename_i noVariable
        have none := arrives.new.fulfil_noVariable (Ty.typeVars_eq_nil_iff.1 (List.isEmpty_iff.1 noVariable))
        have none' := none.of_equal (fun _ _ => Ty.notVariable_of_equal) (Setoid.symm equal)
        rw [if_pos (List.isEmpty_iff.2 (Ty.typeVars_eq_nil_iff.2 none'))] at second
        rw [← first.pure, ← second.pure]
        exact equal
      · exact (not_silent_failAt first).elim
    | cons =>
      simp only [atArgs] at first
      exact (not_silent_failAt first).elim

theorem follow_callableForm {ref : Reference} {level : Nesting} {a c : Ty} {symbol : Symbol}
    (given : Given r after s₀ t₀ s (.named ref)) (found : r.table.lookup ref.name = some symbol)
    (isForm : symbol.isCallableForm)
    (first : Yields Problem.Never (r.callableForm (r.recursion n) ref level) s a)
    (second : Yields Problem.IsShallow ((r.withTable after).callableForm ((r.withTable after).recursion m) ref level) s c) :
    c ≈ arrives.new.fulfil a := by
  rw [callableForm_eq] at first second
  have first := first.andThen.2
  have second := second.andThen.2
  rw [arrives.formSignature?_later] at second
  cases read : r.formSignature? ref with
  | none =>
    rw [read] at first second
    rw [← first.pure, ← second.pure]
    exact follow_of_not_due (not_due_of_leaf rfl rfl) (Setoid.refl _)
  | some signature =>
    rw [read] at first second
    exact follow_signature ih _ (given.form arrives found isForm read) first second

end Parts

end Arrives

end Resolver

end TypeResolution
