import TypeResolution.Proofs.EnoughRecursion
import TypeResolution.Proofs.LaterForms

namespace TypeResolution

open Resolve

namespace Resolver

namespace Arrives

variable {r : Resolver} {after : SymbolTable} {arrives : r.Arrives after} {arity : String → Nat} {s₀ s : Scope}
  {t₀ : Ty} {n m : Nat} (ih : arrives.Follows s₀ t₀ n)

/-- What is written is read as a literal in the same way. -/
theorem readsAlike_of_legible {t : Ty} (legible : arrives.Legible s t) (notUnion : t.isUnion = false)
    (notNamed : ∀ ref, t ≠ .named ref) : r.ReadsAlike after t t := by
  cases t with
  | any => exact .any rfl rfl
  | noneType => exact .noneType
  | literal l => exact .literal (Literal.beq_iff.2 ⟨rfl, Ty.instance_refl l.fallback⟩)
  | inst i =>
    refine .inst (Literal.beqOption_iff.2 ?_)
    exact (Instance.beq_iff.1 (Ty.instance_refl i)).2.2
  | scalar =>
    cases legible with
    | scalar absent => exact .scalar absent
    | byParts byParts => cases byParts
  | named ref => exact absurd rfl (notNamed ref)
  | union => cases notUnion
  | _ => exact .never rfl

theorem not_due_of_literal {t : Ty} (literal : t.IsLiteral) : arrives.new.due t = false := by
  refine not_due_of_leaf ?_ ?_
  · cases t <;> first | rfl | cases literal
  · cases t <;> first | rfl | cases literal

/-- The union of literals that are alike. -/
theorem follow_unionOfLiterals {f g : Option (List Ty)} (alike : LiteralsAlike f g) (pos : Position) :
    ((g.map fun found => Ty.makeUnion found pos).getD (.anyAt .error pos)) ≈
      arrives.new.fulfil ((f.map fun found => Ty.makeUnion found pos).getD (.anyAt .error pos)) := by
  cases alike with
  | none => exact follow_of_not_due (not_due_of_leaf rfl rfl) (Setoid.refl _)
  | @some fs gs same literal =>
    have single (t : Ty) (member : t ∈ fs) : t.isUnion = false := by
      have literal := literal t member
      cases t <;> first | rfl | cases literal
    have single' (t : Ty) (member : t ∈ gs) : t.isUnion = false := by
      obtain ⟨u, atSource, equal⟩ := same.right t member
      exact (Ty.isUnion_of_equal equal).trans (single u atSource)
    refine follow_of_not_due ?_ (Ty.makeUnion_equal ?_ pos pos)
    · exact arrives.new.notDue_inherited.ofMembers.makeUnion (fun t member => not_due_of_literal (literal t member)) pos
    · rw [Ty.flatMap_members_of_not_union single, Ty.flatMap_members_of_not_union single']
      exact same.symm

section Forms

include ih

theorem follow_literals (noHooks : r.hooks = .empty) (ready : arrives.Ready arity s₀ t₀) {index : Nat} {t : Ty} {pos : Position}
    {level : Nesting} {f g : Option (List Ty)} (given : Given r after s₀ t₀ s t)
    (first : Yields Problem.Never (r.literals (r.recursion n) index t pos level) s f)
    (second : Yields Problem.IsShallow ((r.withTable after).literals ((r.withTable after).recursion m) index t pos level) s g) :
    LiteralsAlike f g := by
  by_cases isNamed : ∃ ref, t = .named ref
  · obtain ⟨ref, rfl⟩ := isNamed
    have sameString : r.SameString after ref := by
      cases ready.legible given.before with
      | named sameString => exact sameString
      | byParts byParts => cases byParts
    cases quoted : ref.quoted with
    | some value =>
      simp only [literals, quoted] at first second
      exact literalOf_alike arrives (sameString (by rw [quoted]; rfl)) first second
    | none =>
      simp only [literals, quoted] at first second
      obtain ⟨x, named, first⟩ := first.bind
      obtain ⟨y, named', second⟩ := second.bind
      have product := product_of_literalName noHooks ready given named
      exact literalsOf_follow arrives noHooks product.literal product.kempt.root (ih.literalName given named named') first second
  · have notNamed (ref : Reference) : t ≠ .named ref := fun same => isNamed ⟨ref, same⟩
    rw [literals_of_not_named notNamed] at first second
    cases t using Ty.unionCases with
    | union ms at_ =>
      refine (yields_collectWhile first).alike (R := Eq) (yields_collectWhile second) (fun x member => ⟨x, member, rfl⟩)
        (fun x member => ⟨x, member, rfl⟩) ?_
      rintro t member _ f g rfl before later
      exact ih.literals (given.parts rfl t member) before later
    | other t notUnion =>
      rw [literalsOf_leaf notUnion notNamed] at first second
      exact leaf_alike arrives (readsAlike_of_legible (ready.legible given.before) notUnion notNamed)
        (fun ref same => absurd same (notNamed ref)) first second

theorem follow_literalForm (noHooks : r.hooks = .empty) (ready : arrives.Ready arity s₀ t₀) {ref : Reference} {level : Nesting}
    {a c : Ty} (given : ∀ t ∈ ref.args, Given r after s₀ t₀ s t)
    (first : Yields Problem.Never (r.literalForm (r.recursion n) ref level) s a)
    (second : Yields Problem.IsShallow ((r.withTable after).literalForm ((r.withTable after).recursion m) ref level) s c) :
    c ≈ arrives.new.fulfil a := by
  rw [literalForm_eq] at first second
  split at first
  · exact (not_silent_failAt first).elim
  · rename_i notEmpty
    rw [if_neg notEmpty] at second
    obtain ⟨f, before, rfl⟩ := first.map
    obtain ⟨g, later, rfl⟩ := second.map
    refine follow_unionOfLiterals ?_ ref.pos
    refine (yields_collectWhile before).alike (R := Eq) (yields_collectWhile later) (fun x member => ⟨x, member, rfl⟩)
      (fun x member => ⟨x, member, rfl⟩) ?_
    rintro ⟨t, index⟩ member _ f g rfl before later
    exact follow_literals ih noHooks ready (given t (List.fst_mem_of_mem_zipIdx member)) before later

theorem follow_union (noHooks : r.hooks = .empty) (ready : arrives.Ready arity s₀ t₀) {ts as cs : List Ty} {level : Nesting}
    (given : ∀ t ∈ ts, Given r after s₀ t₀ s t) (first : Yields Problem.Never ((r.recursion n).args ts level) s as)
    (second : Yields Problem.IsShallow (((r.withTable after).recursion m).args ts level) s cs) (pos : Position) :
    .makeUnion cs pos ≈ arrives.new.fulfil (.makeUnion as pos) := by
  have follow := follow_args ih given (yields_args first) (yields_args second)
  have products := products_of_args noHooks ready given (yields_args first)
  exact Setoid.trans (Ty.makeUnion_congr follow.map pos pos)
    (Setoid.symm (arrives.new.fulfil_makeUnion (fun a member => (products a member).kempt.root) pos))

theorem follow_specialForm (noHooks : r.hooks = .empty) (ready : arrives.Ready arity s₀ t₀) {form : SpecialForm} {ref : Reference}
    {symbol : Symbol} {level : Nesting} {a c : Ty} (given : Given r after s₀ t₀ s (.named ref))
    (found : r.table.lookup ref.name = some symbol) (settled : symbol.isPending = false)
    (isForm : SpecialForm.ofName? symbol.fullname = some form)
    (first : Yields Problem.Never (r.specialForm (r.recursion n) form ref level) s a)
    (second : Yields Problem.IsShallow ((r.withTable after).specialForm ((r.withTable after).recursion m) form ref level) s c) :
    c ≈ arrives.new.fulfil a := by
  have inArgs (other : form ≠ .callable) : ∀ t ∈ ref.args, Given r after s₀ t₀ s t :=
    given.args arrives found (by simp [Symbol.isCallableForm, isForm, other])
  have leaf {a c : Ty} {t : Ty} (childless : t.children = []) (here : arrives.new.awaits t = false)
      (first : Yields Problem.Never (pure t) s a) (second : Yields Problem.IsShallow (pure t) s c) : c ≈ arrives.new.fulfil a := by
    rw [← first.pure, ← second.pure]
    exact follow_of_not_due (not_due_of_leaf childless here) (Setoid.refl _)
  have inArg (other : form ≠ .callable) {item a c : Ty} (member : item ∈ ref.args)
      (first : Yields Problem.Never ((r.recursion n).arg item level) s a)
      (second : Yields Problem.IsShallow (((r.withTable after).recursion m).arg item level) s c) :
      arrives.Product arity a ∧ c ≈ arrives.new.fulfil a :=
    ⟨product_of_expr noHooks ready (inArgs other item member) first, ih.expr (inArgs other item member) first second⟩
  unfold specialForm at first second
  cases form with
  | noneType | any | noReturn => exact leaf rfl rfl first second
  | final => exact (not_silent_failAt first).elim
  | tuple => exact follow_tupleForm ih (inArgs SpecialForm.noConfusion) first second
  | union =>
    obtain ⟨as, before, rfl⟩ := first.map
    obtain ⟨cs, later, rfl⟩ := second.map
    exact follow_union ih noHooks ready (inArgs SpecialForm.noConfusion) before later ref.pos
  | optional =>
    dsimp only at first second
    split at first
    · rename_i item atArgs
      simp only [atArgs] at second
      obtain ⟨a, before, rfl⟩ := first.map
      obtain ⟨c, later, rfl⟩ := second.map
      obtain ⟨product, equal⟩ := inArg SpecialForm.noConfusion (by simp [atArgs]) before later
      exact Setoid.trans (Ty.makeOptional_congr equal) (Setoid.symm (arrives.new.fulfil_makeOptional product.kempt.root))
    · exact (not_silent_failAt first).elim
  | callable => exact follow_callableForm ih given found (by simp [Symbol.isCallableForm, settled, isForm]) first second
  | classObject => exact follow_classObjectForm ih noHooks ready (inArgs SpecialForm.noConfusion) first second
  | classVar => exact follow_classVarForm ih (inArgs SpecialForm.noConfusion) first second
  | literal => exact follow_literalForm ih noHooks ready (inArgs SpecialForm.noConfusion) first second
  | annotated =>
    dsimp only at first second
    split at first
    · rename_i item _ _ atArgs
      simp only [atArgs] at second
      exact (inArg SpecialForm.noConfusion (by simp [atArgs]) first second).2
    · exact (not_silent_failAt first).elim

theorem follow_defined (noHooks : r.hooks = .empty) (ready : arrives.Ready arity s₀ t₀) {d : Definition} {ref : Reference}
    {symbol : Symbol} {level : Nesting} {inLiteral : Bool} {a c : Ty} (given : Given r after s₀ t₀ s (.named ref))
    (found : r.table.lookup ref.name = some symbol) (foundLater : after.lookup ref.name = some symbol)
    (defined : symbol.definition = some d) (settled : symbol.isPending = false)
    (plain : bindsTypeVar d s symbol.fullname = false → SpecialForm.ofName? symbol.fullname = none)
    (kempt : arrives.new.Kempt a)
    (first : Yields Problem.Never (r.definedType (r.recursion n) d symbol.fullname ref level inLiteral) s a)
    (second : Yields Problem.IsShallow
      ((r.withTable after).definedType ((r.withTable after).recursion m) d symbol.fullname ref level inLiteral) s c) :
    c ≈ arrives.new.fulfil a := by
  have inArgs (notBound : bindsTypeVar d s symbol.fullname = false) : ∀ t ∈ ref.args, Given r after s₀ t₀ s t :=
    given.args arrives found (by simp [Symbol.isCallableForm, plain notBound])
  cases d with
  | classDef decl =>
    have notCallable : symbol.isCallableForm = false := by simp [Symbol.isCallableForm, plain rfl]
    exact follow_class ih given (.named found defined notCallable) (.named foundLater defined notCallable) (inArgs rfl)
      first second
  | aliasDef decl => exact follow_alias ih noHooks ready given ⟨symbol, found, defined⟩ (inArgs rfl) first kempt second
  | variableDef decl => exact follow_variable first second
  | typeVarDef decl => exact follow_typeVar (ready.legible given.before) found defined first second
  | pendingDef decl => simp [Symbol.isPending, defined] at settled
  | moduleDef | functionDef | decoratorDef => exact (not_silent_noType first).elim

theorem follow_symbol (noHooks : r.hooks = .empty) (ready : arrives.Ready arity s₀ t₀) {d : Definition} {ref : Reference}
    {symbol : Symbol} {level : Nesting} {inLiteral : Bool} {a c : Ty} (given : Given r after s₀ t₀ s (.named ref))
    (found : r.table.lookup ref.name = some symbol) (foundLater : after.lookup ref.name = some symbol)
    (defined : symbol.definition = some d) (settled : symbol.isPending = false) (kempt : arrives.new.Kempt a)
    (first : Yields Problem.Never (r.symbolType (r.recursion n) d symbol.fullname ref level inLiteral) s a)
    (second : Yields Problem.IsShallow
      ((r.withTable after).symbolType ((r.withTable after).recursion m) d symbol.fullname ref level inLiteral) s c) :
    c ≈ arrives.new.fulfil a := by
  have first := yields_symbolType noHooks first
  have second := yields_symbolType (r := r.withTable after) noHooks second
  unfold formOrDefined at first second
  split at first
  · rename_i form isForm notBound
    simp only [isForm, notBound] at second
    exact follow_specialForm ih noHooks ready given found settled isForm first second
  · rename_i notForm
    have plain (notBound : bindsTypeVar d s symbol.fullname = false) : SpecialForm.ofName? symbol.fullname = none := by
      cases isForm : SpecialForm.ofName? symbol.fullname with
      | none => rfl
      | some form => exact absurd notBound (notForm form isForm)
    split at second
    · rename_i form isForm notBound
      exact absurd notBound (notForm form isForm)
    · exact follow_defined ih noHooks ready given found foundLater defined settled plain kempt first second

/-- A reference comes to what it is resolved to in the later table, whether it stands for a class that has come or not. -/
theorem follow_plainReference (noHooks : r.hooks = .empty) (ready : arrives.Ready arity s₀ t₀) {ref : Reference} {level : Nesting}
    {inLiteral : Bool} {a c : Ty} (given : Given r after s₀ t₀ s (.named ref))
    (first : Yields Problem.Never (r.plainReference (r.recursion n) ref level inLiteral) s a)
    (second : Yields Problem.IsShallow
      ((r.withTable after).plainReference ((r.withTable after).recursion m) ref level inLiteral) s c) :
    c ≈ arrives.new.fulfil a := by
  have kempt := (product_of_plainReference noHooks ready given first).kempt.root
  rcases arrives.matures.lookup_cases ref.name with ⟨same, notCome⟩ | ⟨fullname, decl, kind, kind', was, is, come⟩
  · have same : (r.withTable after).table.lookup ref.name = r.table.lookup ref.name := same
    cases found : r.table.lookup ref.name with
    | none =>
      simp only [plainReference, same, found] at first second
      rw [← first.pure, ← second.pure]
      exact follow_of_not_due (not_due_of_leaf rfl rfl) (Setoid.refl _)
    | some symbol =>
      cases defined : symbol.definition with
      | none =>
        simp only [plainReference, found, defined] at first
        obtain ⟨_, reported⟩ := first.andThen.1
        exact (not_silent_report reported).elim
      | some d =>
        by_cases isPending : symbol.isPending = true
        · cases d with
          | pendingDef decl =>
            simp only [plainReference, same, found, defined] at first second
            have inArgs : ∀ t ∈ ref.args, Given r after s₀ t₀ s t :=
              given.args arrives found (by simp [Symbol.isCallableForm, isPending])
            exact follow_pending ih (notCome symbol decl found defined) inArgs first second
          | _ => simp [Symbol.isPending, defined] at isPending
        · have settled := Bool.eq_false_iff.2 isPending
          rw [plainReference_of_symbol found defined settled] at first
          rw [plainReference_of_symbol (same.trans found) defined settled] at second
          exact follow_symbol ih noHooks ready given found (same.trans found) defined settled kempt first second
  · have is : (r.withTable after).table.lookup ref.name = some ⟨kind', fullname, some (.classDef decl)⟩ := is
    have inArgs : ∀ t ∈ ref.args, Given r after s₀ t₀ s t :=
      given.args arrives was (by simp [Symbol.isCallableForm, Symbol.isPending])
    simp only [plainReference, was, pendingType] at first
    rw [arrives.matures.notFinal, if_neg Bool.false_ne_true] at first
    obtain ⟨as, before, rfl⟩ := first.andThen.2.map
    rw [plainReference_of_symbol is rfl rfl] at second
    have second := yields_symbolType (r := r.withTable after) noHooks second
    unfold formOrDefined at second
    rw [arrives.notForm come] at second
    exact follow_come ih come inArgs (yields_args before) second

theorem follow_reference (noHooks : r.hooks = .empty) (ready : arrives.Ready arity s₀ t₀) {ref : Reference} {level : Nesting}
    {inLiteral : Bool} {a c : Ty} (given : Given r after s₀ t₀ s (.named ref))
    (first : Yields Problem.Never (r.reference (r.recursion n) ref level inLiteral) s a)
    (second : Yields Problem.IsShallow
      ((r.withTable after).reference ((r.withTable after).recursion m) ref level inLiteral) s c) :
    c ≈ arrives.new.fulfil a := by
  obtain ⟨x, before, rfl⟩ := first.map
  obtain ⟨y, later, rfl⟩ := second.map
  have equal := follow_plainReference ih noHooks ready given before later
  have kempt := (product_of_plainReference noHooks ready given before).kempt.root
  split
  · exact Setoid.trans (Ty.makeOptional_congr equal) (Setoid.symm (arrives.new.fulfil_makeOptional kempt))
  · exact equal

theorem follow_tupleType {shape : TupleShape} {level : Nesting} {a c : Ty} (given : Given r after s₀ t₀ s (.tuple shape))
    (first : Yields Problem.Never (r.tupleType (r.recursion n) shape level) s a)
    (second : Yields Problem.IsShallow ((r.withTable after).tupleType ((r.withTable after).recursion m) shape level) s c) :
    c ≈ arrives.new.fulfil a := by
  unfold tupleType at first second
  split at first
  · obtain ⟨_, reported⟩ := first.andThen.1
    exact (not_silent_reportAll (List.cons_ne_nil _ _) reported).elim
  · rename_i notBare
    rw [if_neg notBare] at second
    split at first
    · obtain ⟨_, reported⟩ := first.andThen.1
      exact (not_silent_report reported).elim
    · rename_i stars
      rw [if_neg stars] at second
      obtain ⟨as, before, rfl⟩ := first.map
      obtain ⟨cs, later, rfl⟩ := second.map
      have follow := follow_args ih (given.parts rfl) (yields_args before) (yields_args later)
      rw [arrives.new.fulfil_of_form rfl rfl]
      exact Ty.Matches.beq (.tuple follow.map (Ty.instance_refl shape.fallback))

omit ih in
theorem follow_scalarType {value : Option LiteralValue} {className : String} {note : Option String} {pos : Position} {a c : Ty}
    (first : Yields Problem.Never (r.scalarType value className note pos) s a)
    (second : Yields Problem.IsShallow ((r.withTable after).scalarType value className note pos) s c) :
    c ≈ arrives.new.fulfil a := by
  unfold scalarType at first second
  split at first
  · obtain ⟨_, reported⟩ := first.andThen.1
    exact (not_silent_report reported).elim
  · rename_i quiet
    rw [if_neg quiet] at second
    rw [← first.pure, ← second.pure]
    exact follow_of_not_due (not_due_of_leaf rfl rfl) (Setoid.refl _)

omit ih in
/-- What is still to come in the second table, too, stays as it is in both. -/
theorem follow_stillToCome {fullname : Option String} {args : List Ty} {pos : Position} {level : Nesting} {a c : Ty}
    (toCome : r.table.StillToCome fullname) (notDue : arrives.new.due (.forward fullname args pos) = false)
    (first : Yields Problem.Never (r.forwardType (r.recursion n) fullname args pos level) s a)
    (second : Yields Problem.IsShallow ((r.withTable after).forwardType ((r.withTable after).recursion m) fullname args pos level)
      s c) : c ≈ arrives.new.fulfil a := by
  have notAwaits : arrives.new.awaits (.forward fullname args pos) = false := (arrives.new.due_eq_false_iff.1 notDue).root
  have sameFound : fullname.bind after.find? = fullname.bind r.table.find? := by
    cases fullname with
    | none => rfl
    | some fullname => exact arrives.matures.find?_eq (Option.isSome_eq_false_iff.1 notAwaits |> Option.isNone_iff_eq_none.1)
  have toCome' : after.StillToCome fullname := fun d defined => toCome d (sameFound ▸ defined)
  rw [forwardType_of_stillToCome toCome arrives.matures.notFinal] at first
  rw [forwardType_of_stillToCome (r := r.withTable after) toCome' arrives.matures.notFinal'] at second
  rw [← first.andThen.2.pure, ← second.andThen.2.pure]
  exact follow_of_not_due notDue (Setoid.refl _)

theorem follow_forward (noHooks : r.hooks = .empty) (ready : arrives.Ready arity s₀ t₀) {fullname : Option String} {args : List Ty}
    {pos : Position} {level : Nesting} {a c : Ty} (given : Given r after s₀ t₀ s (.forward fullname args pos))
    (first : Yields Problem.Never (r.forwardType (r.recursion n) fullname args pos level) s a)
    (second : Yields Problem.IsShallow
      (((r.withTable after).recursion m).expr (.forward fullname args pos) level) s c) :
    c ≈ arrives.new.fulfil a := by
  have shallow : ¬ Problem.IsShallow .nestedTooDeep := fun other => other rfl
  cases ready.legible given.before with
  | @come fullname _ _ toCome come readable =>
    rw [forwardType_of_stillToCome toCome arrives.matures.notFinal] at first
    obtain ⟨decl, come⟩ := Option.isSome_iff_exists.1 come
    have readable : arrives.new.Readable s (.forward (some fullname) args pos) := .come come readable
    rw [← first.andThen.2.pure]
    exact Arrivals.fulfil_of_readable (r := r.withTable after) noHooks arrives.matures.notFinal' readable second
  | pending toCome notDue =>
    obtain ⟨k, _, second⟩ := yields_form shallow second
    exact follow_stillToCome toCome notDue first second
  | @known fullname decl _ _ found =>
    have found' : after.findClass? fullname = some decl := arrives.findClass?_later found
    obtain ⟨k, _, second⟩ := yields_form shallow second
    have second : Yields Problem.IsShallow ((r.withTable after).forwardType ((r.withTable after).recursion k) (some fullname) args
      pos level) s c := second
    rw [forwardType_of_class found] at first
    rw [forwardType_of_class (r := r.withTable after) found'] at second
    exact follow_class ih given (.forward found) (.forward found') (given.forward arrives found) first second
  | byParts byParts => cases byParts

theorem follow_form (noHooks : r.hooks = .empty) (ready : arrives.Ready arity s₀ t₀) {t : Ty} {level : Nesting} {a c : Ty}
    (given : Given r after s₀ t₀ s t) (first : Yields Problem.Never (r.form (r.recursion n) t level) s a)
    (second : Yields Problem.IsShallow (((r.withTable after).recursion m).expr t level) s c) : c ≈ arrives.new.fulfil a := by
  by_cases isForward : ∃ fullname args pos, t = .forward fullname args pos
  · obtain ⟨fullname, args, pos, rfl⟩ := isForward
    exact follow_forward ih noHooks ready given first second
  obtain ⟨k, _, second⟩ := yields_form (fun other => other rfl) second
  have parts (opens : t.opensInPlace) : ∀ x ∈ t.children, Given r after s₀ t₀ s x := given.parts opens
  cases t with
  | any | noneType | never | deleted | typeVar | literal =>
    rw [← first.pure, ← second.pure]
    exact follow_of_not_due (not_due_of_leaf rfl rfl) (Setoid.refl _)
  | inst i =>
    rw [← first.pure, ← second.pure]
    cases ready.legible given.before with
    | inst none => exact follow_of_not_due none (Setoid.refl _)
    | byParts byParts => cases byParts
  | named ref => exact follow_reference ih noHooks ready given first second
  | bracketed items pos =>
    obtain ⟨_, reported⟩ := first.andThen.1
    exact (not_silent_reportAll (List.cons_ne_nil _ _) reported).elim
  | argument | ellipsis =>
    obtain ⟨_, reported⟩ := first.andThen.1
    exact (not_silent_report reported).elim
  | callable signature =>
    exact follow_signature ih signature.fallback (given.signature arrives) first second
  | tuple shape => exact follow_tupleType ih given first second
  | record shape =>
    obtain ⟨fields, before, rfl⟩ := first.map
    obtain ⟨fields', later, rfl⟩ := second.map
    have given (field : String × Ty) (member : field ∈ shape.fields) := parts rfl field.2 (List.mem_map_of_mem member)
    rw [arrives.new.fulfil_record]
    exact Ty.record_congr (follow_fields ih given (yields_fields before) (yields_fields later)) shape.required
      (Ty.instance_refl shape.fallback) shape.pos shape.pos
  | scalar => exact follow_scalarType first second
  | star item pos =>
    obtain ⟨a, before, rfl⟩ := first.map
    obtain ⟨c, later, rfl⟩ := second.map
    rw [arrives.new.fulfil_of_form rfl rfl]
    exact Ty.Matches.beq (.star (ih.expr (parts rfl item (List.mem_singleton_self item)) before later))
  | union members pos =>
    obtain ⟨as, before, rfl⟩ := first.map
    obtain ⟨cs, later, rfl⟩ := second.map
    exact follow_union ih noHooks ready (parts rfl) before later pos
  | classObject item pos =>
    obtain ⟨a, before, rfl⟩ := first.map
    obtain ⟨c, later, rfl⟩ := second.map
    exact follow_classObject ih noHooks ready (parts rfl item (List.mem_singleton_self item)) before later pos
  | forward fullname args pos => exact absurd ⟨fullname, args, pos, rfl⟩ isForward

end Forms

/-- What is resolved without a report comes, with the classes, to what is resolved in the later table. -/
theorem follows (noHooks : r.hooks = .empty) (ready : arrives.Ready arity s₀ t₀) (n : Nat) : arrives.Follows s₀ t₀ n := by
  induction n with
  | zero => exact ⟨fun _ first => first.stuck.elim, fun _ first => first.stuck.elim, fun _ first => first.stuck.elim⟩
  | succ n ih =>
    refine ⟨fun given first second => ?_, fun {m} _ _ _ _ _ given first second => ?_, fun {m} _ _ _ _ _ _ _ given first second => ?_⟩
    · obtain ⟨k, same, first⟩ := yields_form id first
      cases same
      exact follow_form ih noHooks ready given first second
    · cases m with
      | zero => exact second.stuck.elim
      | succ m => exact follow_reference ih noHooks ready given first second
    · cases m with
      | zero => exact second.stuck.elim
      | succ m => exact follow_literals ih noHooks ready given first second

/-! What may be resolved in the first table may be resolved in the second. -/

end Arrives

end Resolver

namespace Resolver

end Resolver

end TypeResolution
