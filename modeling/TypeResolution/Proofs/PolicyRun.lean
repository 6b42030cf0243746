import TypeResolution.Proofs.PolicyForms

namespace TypeResolution

open Resolve

namespace Resolver

variable {r : Resolver} {policy : Policy} {c : Comparison} (pact : r.Pact policy c) {again again' : Recursion} [again.Steady]
  [again'.Steady] (follows : c.Follows again again') {exact : Prop} {s s' : Scope} (scopes : s.AlikeScope exact s')

/-! Special forms -/

section SpecialForms

include pact follows scopes

theorem tupleForm_agree {ref : Reference} {args : List Ty} (alike : Alike exact (List.map Ty.unexplained) ref.args args)
    (level : Nesting) :
    c.Agree exact Ty.unexplained s s' (r.tupleForm again ref level)
      ((r.withPolicy policy).tupleForm again' (ref.withArgs args) level) := by
  obtain ⟨name, written, optional, emptyTuple, quoted, quotedClass, pos⟩ := ref
  unfold tupleForm
  cases found : r.table.findClass? "builtins.tuple" with
  | none =>
    rw [show (r.withPolicy policy).table.findClass? "builtins.tuple" = none from found]
    dsimp only
    change c.Agree exact _ s s' _ (if r.table.isIncomplete "builtins" then _ else _)
    split
    · exact (Comparison.Agree.raise .incomplete).bind fun _ _ _ _ _ => .pure (.refl _)
    · exact .report rfl fun _ _ => .pure (.refl _)
  | some decl =>
    rw [show (r.withPolicy policy).table.findClass? "builtins.tuple" = some decl from found]
    have items : c.Agree exact Ty.unexplained s s'
        (again.args written level >>= fun items =>
          pure (.tuple ⟨items, .of decl.head [.anyAt .specialForm .unknown] pos, false, pos⟩))
        (again'.args args level >>= fun items =>
          pure (.tuple ⟨items, .of decl.head [.anyAt .specialForm .unknown] pos, false, pos⟩)) :=
      (args_agree follows scopes alike level).map fun _ _ _ _ made => Ty.AlikeForm.alike (.tuple made (.refl _))
    cases written with
    | nil =>
      obtain rfl : args = [] := alike.nil_left
      cases emptyTuple with
      | true => exact items
      | false =>
        have omitted : c.Agree exact Ty.unexplained s s' _ _ :=
          omittedArguments_agree pact ⟨name, [], optional, false, quoted, quotedClass, pos⟩ []
        exact omitted.map fun _ _ filler filler' made =>
          Ty.AlikeForm.alike (.inst (Instance.alike_of decl.head pos made.single))
    | cons item others =>
      obtain ⟨item', rest, rfl, atItem, inOthers⟩ : ∃ y rest, args = y :: rest ∧ _ := alike.cons_left
      match others, inOthers with
      | [], inOthers =>
        obtain rfl := inOthers.nil_left
        exact items
      | [second], inOthers =>
        obtain ⟨second', last, rfl, atSecond, inLast⟩ := inOthers.cons_left
        obtain rfl := inLast.nil_left
        cases Ty.alikeForm_of_alike atSecond with
        | ellipsis =>
          exact (arg_agree follows scopes atItem level).map fun _ _ _ _ made =>
            Ty.AlikeForm.alike (.inst (Instance.alike_of decl.head pos made.single))
        | _ => exact items
      | second :: third :: more, inOthers =>
        obtain ⟨second', last, rfl, atSecond, inLast⟩ := inOthers.cons_left
        obtain ⟨third', more', rfl, _, _⟩ := inLast.cons_left
        cases Ty.alikeForm_of_alike atSecond <;> exact items

theorem classObjectForm_agree {ref : Reference} {args : List Ty}
    (alike : Alike exact (List.map Ty.unexplained) ref.args args) (level : Nesting) :
    c.Agree exact Ty.unexplained s s' (r.classObjectForm again ref level)
      ((r.withPolicy policy).classObjectForm again' (ref.withArgs args) level) := by
  obtain ⟨name, written, optional, emptyTuple, quoted, quotedClass, pos⟩ := ref
  cases written with
  | nil =>
    obtain rfl : args = [] := alike.nil_left
    have omitted : c.Agree exact Ty.unexplained s s' _ _ :=
      omittedArguments_agree pact ⟨name, [], optional, emptyTuple, quoted, quotedClass, pos⟩ []
    exact omitted.map fun _ _ filler filler' made => Ty.AlikeForm.alike (.classObject made)
  | cons item others =>
    obtain ⟨item', rest, rfl, atItem, inOthers⟩ : ∃ y rest, args = y :: rest ∧ _ := alike.cons_left
    have item (inner : Prop) (weaker : inner → exact) : c.Agree inner Ty.unexplained s s'
        (again.arg item level >>= fun item => pure (item.makeClassObject pos))
        (again'.arg item' level >>= fun item => pure (item.makeClassObject pos)) :=
      (arg_agree follows (scopes.mono weaker) (atItem.mono weaker) level).map fun _ _ _ _ made =>
        Ty.makeClassObject_alike made pos
    unfold classObjectForm Reference.withArgs
    dsimp only
    rw [← inOthers.isEmpty_eq]
    split
    · exact .report rfl item
    · exact item exact id

omit pact in
theorem classVarForm_agree {ref : Reference} {args : List Ty}
    (alike : Alike exact (List.map Ty.unexplained) ref.args args) (level : Nesting) :
    c.Agree exact Ty.unexplained s s' (classVarForm again ref level) (classVarForm again' (ref.withArgs args) level) := by
  have argument (inner : Prop) (weaker : inner → exact) : c.Agree inner Ty.unexplained s s'
      (classVarArgument again ref level) (classVarArgument again' (ref.withArgs args) level) := by
    obtain ⟨name, written, optional, emptyTuple, quoted, quotedClass, pos⟩ := ref
    match written, alike with
    | [], alike =>
      obtain rfl : args = [] := alike.nil_left
      exact .pure (.refl _)
    | [item], alike =>
      obtain ⟨item', rest, rfl, atItem, inRest⟩ := alike.cons_left
      obtain rfl := inRest.nil_left
      refine (arg_agree follows (scopes.mono weaker) (atItem.mono weaker) level).bind fun _ _ t t' made => ?_
      have sameVariables : t.typeVars.isEmpty = t'.typeVars.isEmpty := by
        have shown := congrArg (fun t : Ty => t.typeVars.isEmpty) made.shown
        simpa [Ty.typeVars_unexplained] using shown
      rw [← sameVariables]
      split
      · exact .pure made
      · exact .failAt _ rfl
    | item :: second :: more, alike =>
      obtain ⟨item', rest, rfl, _, inRest⟩ := alike.cons_left
      obtain ⟨second', more', rfl, _, _⟩ := inRest.cons_left
      exact .failAt _ rfl
  rw [classVarForm_eq, classVarForm_eq]
  have checked : c.Agree exact (fun _ : Unit => ()) s s' (if level.isTop then pure () else report ref.pos .nestedClassVar)
      (if level.isTop then pure () else report ref.pos .nestedClassVar) := by
    split
    · exact .pure (.refl _)
    · exact .reported (by simp [Problem.aboutScalar])
  exact checked.bind fun inner weaker _ _ _ => argument inner weaker

theorem specialForm_agree (form : SpecialForm) {ref : Reference} {args : List Ty}
    (alike : Alike exact (List.map Ty.unexplained) ref.args args) (level : Nesting) :
    c.Agree exact Ty.unexplained s s' (r.specialForm again form ref level)
      ((r.withPolicy policy).specialForm again' form (ref.withArgs args) level) := by
  cases form with
  | noneType | any | noReturn => exact .pure (.refl _)
  | final => exact .failAt _ rfl
  | tuple => exact tupleForm_agree pact follows scopes alike level
  | callable => exact callableForm_agree pact follows scopes alike level
  | classObject => exact classObjectForm_agree pact follows scopes alike level
  | classVar => exact classVarForm_agree follows scopes alike level
  | literal => exact literalForm_agree follows scopes alike level
  | union => exact (args_agree follows scopes alike level).map fun _ _ _ _ made => Ty.makeUnion_alike made ref.pos
  | optional =>
    obtain ⟨name, written, optional, emptyTuple, quoted, quotedClass, pos⟩ := ref
    match written, alike with
    | [], alike =>
      obtain rfl : args = [] := alike.nil_left
      exact .failAt _ rfl
    | [item], alike =>
      obtain ⟨item', rest, rfl, atItem, inRest⟩ := alike.cons_left
      obtain rfl := inRest.nil_left
      exact (arg_agree follows scopes atItem level).map fun _ _ _ _ made => Ty.makeOptional_alike made
    | item :: second :: more, alike =>
      obtain ⟨item', rest, rfl, _, inRest⟩ := alike.cons_left
      obtain ⟨second', more', rfl, _, _⟩ := inRest.cons_left
      exact .failAt _ rfl
  | annotated =>
    obtain ⟨name, written, optional, emptyTuple, quoted, quotedClass, pos⟩ := ref
    match written, alike with
    | [], alike =>
      obtain rfl : args = [] := alike.nil_left
      exact .failAt _ rfl
    | [item], alike =>
      obtain ⟨item', rest, rfl, _, inRest⟩ := alike.cons_left
      obtain rfl := inRest.nil_left
      exact .failAt _ rfl
    | item :: second :: more, alike =>
      obtain ⟨item', rest, rfl, atItem, inRest⟩ := alike.cons_left
      obtain ⟨second', more', rfl, _, _⟩ := inRest.cons_left
      exact arg_agree follows scopes atItem level

end SpecialForms

/-! Names -/

section Names

include follows scopes

theorem noType_agree {ref : Reference} {args : List Ty} (alike : Alike exact (List.map Ty.unexplained) ref.args args)
    (level : Nesting) {problem : Problem} (plain : problem.aboutScalar = false) {notes : List Problem}
    (plainNotes : ∀ note ∈ notes, note.aboutScalar = false) :
    c.Agree exact Ty.unexplained s s' (noType again ref level problem notes)
      (noType again' (ref.withArgs args) level problem notes) := by
  refine (args_agree follows scopes alike level).bind fun _ _ as as' made => ?_
  refine .report plain fun _ weaker => .reportAll (by simpa using plainNotes) fun _ weaker' => .pure ?_
  have inArgs : Alike _ (List.map Ty.unexplained) (ref.withArgs as).args as' :=
    made.mono fun holds => weaker (weaker' holds)
  exact Ty.AlikeForm.alike (.named inArgs)

theorem variableType_agree (decl : VariableDecl) (fullname : String) {ref : Reference} {args : List Ty}
    (alike : Alike exact (List.map Ty.unexplained) ref.args args) (level : Nesting) (inLiteral : Bool) :
    c.Agree exact Ty.unexplained s s' (variableType again decl fullname ref level inLiteral)
      (variableType again' decl fullname (ref.withArgs args) level inLiteral) := by
  unfold variableType
  split
  · exact .pure (.refl _)
  · split
    · exact .pure (.refl _)
    · exact .failAt _ rfl
  · exact noType_agree follows scopes alike level rfl (by simp)

theorem typeVarType_agree (fullname : String) {ref : Reference} {args : List Ty}
    (alike : Alike exact (List.map Ty.unexplained) ref.args args) (level : Nesting) :
    c.Agree exact Ty.unexplained s s' (r.typeVarType again fullname ref level)
      ((r.withPolicy policy).typeVarType again' fullname (ref.withArgs args) level) := by
  rw [typeVarType_eq, typeVarType_eq]
  refine .scopeThen ?_
  have bound := scopes.binding fullname
  cases found : s.find? fullname with
  | none =>
    rw [found] at bound
    rw [bound.none_left]
    change c.Agree exact _ s s' (if r.flags.allowUnboundVariables || r.flags.definingAlias then _ else _)
      (if r.flags.allowUnboundVariables || r.flags.definingAlias then _ else _)
    split
    · exact .pure (Ty.AlikeForm.alike (.named alike))
    · exact noType_agree follows scopes alike level rfl (by simp [Problem.aboutScalar])
  | some binding =>
    rw [found] at bound
    obtain ⟨binding', found', agree⟩ := bound.some_left
    rw [found']
    have made (inner : Prop) (weaker : inner → exact) :
        c.Agree inner Ty.unexplained s s' (pure (.typeVar binding ref.pos)) (pure (.typeVar binding' ref.pos)) :=
      .pure (Ty.AlikeForm.alike (.typeVar (agree.mono weaker)))
    have sameEmpty : (ref.withArgs args).args.isEmpty = ref.args.isEmpty := alike.isEmpty_eq.symm
    unfold variableFound
    change c.Agree exact _ s s' (if r.flags.definingAlias then _ else _) (if r.flags.definingAlias then _ else _)
    rw [sameEmpty]
    split
    · exact .failAt _ rfl
    · split
      · exact made exact id
      · exact .report rfl made

theorem pendingType_agree (decl : PendingDecl) {ref : Reference} {args : List Ty}
    (alike : Alike exact (List.map Ty.unexplained) ref.args args) (level : Nesting) :
    c.Agree exact Ty.unexplained s s' (r.pendingType again decl ref level)
      ((r.withPolicy policy).pendingType again' decl (ref.withArgs args) level) := by
  unfold pendingType
  change c.Agree exact _ s s' _ (if r.table.finalPass then _ else _)
  split
  · exact .failAt _ rfl
  · split
    · refine (Comparison.Agree.raise _).bind fun _ weaker _ _ _ => ?_
      exact (args_agree follows (scopes.mono weaker) (alike.mono weaker) level).map fun _ _ _ _ made =>
        Ty.AlikeForm.alike (.forward made)
    · exact (Comparison.Agree.raise _).bind fun _ _ _ _ _ => .pure (.refl _)

theorem classBase_agree (decl : ClassDecl) {args args' : List Ty} (sameEmpty : args.isEmpty = args'.isEmpty)
    (pos : Position) (level : Nesting) {i j : Instance} (alike : Alike exact Instance.unexplained i j) :
    c.Agree exact Ty.unexplained s s' (classBase again decl args pos level i)
      (classBase again' decl args' pos level j) := by
  unfold classBase
  rw [← sameEmpty]
  split
  · split
    · exact .failAt _ rfl
    · exact (args_agree follows scopes (.refl _) level).map fun _ weaker _ _ made =>
        Ty.AlikeForm.alike (.tuple made (alike.mono weaker))
  · split
    · exact .failAt _ rfl
    · exact (fields_agree follows scopes (.refl _) level).map fun _ weaker _ _ made =>
        Ty.AlikeForm.alike (.record made (alike.mono weaker))
  · exact .pure (Ty.AlikeForm.alike (.inst alike))

include pact

theorem classType_agree (decl : ClassDecl) {args args' : List Ty}
    (alike : Alike exact (List.map Ty.unexplained) args args') (pos : Position) (level : Nesting) :
    c.Agree exact Ty.unexplained s s' (r.classType again decl args pos level)
      ((r.withPolicy policy).classType again' decl args' pos level) := by
  rw [classType_eq, classType_eq, ← alike.isEmpty_eq]
  split
  · exact (args_agree follows scopes alike level).map fun _ _ _ _ made => Ty.AlikeForm.alike (.tuple made (.refl _))
  · rw [classInstance_eq, classInstance_eq]
    refine (args_agree follows scopes alike level).bind fun _ weaker resolved resolved' made => ?_
    refine (fixArity_agree pact (Instance.alike_of decl.head pos made) false none).bind fun _ weaker' i j fixed => ?_
    have frames := scopes.mono fun holds => weaker (weaker' holds)
    exact classBase_agree follows frames decl alike.isEmpty_eq pos level fixed

theorem aliasType_agree (decl : AliasDecl) (fullname : String) {ref : Reference} {args : List Ty}
    (alike : Alike exact (List.map Ty.unexplained) ref.args args) (level : Nesting) :
    c.Agree exact Ty.unexplained s s' (r.aliasType again decl fullname ref level)
      ((r.withPolicy policy).aliasType again' decl fullname (ref.withArgs args) level) := by
  rw [aliasType_eq, aliasType_eq]
  refine (Comparison.Agree.useAliases _).bind fun _ weaker _ _ _ => ?_
  refine (args_agree follows (scopes.mono weaker) (alike.mono weaker) level).bind fun _ _ as as' made => ?_
  have expanded := expand_reported pact decl made ref.pos ref.name
  exact .reportThen expanded.told fun _ weaker' => aliasResult_agree pact (expanded.result.mono weaker') ref.name

theorem definedType_agree (d : Definition) (fullname : String) {ref : Reference} {args : List Ty}
    (alike : Alike exact (List.map Ty.unexplained) ref.args args) (level : Nesting) (inLiteral : Bool) :
    c.Agree exact Ty.unexplained s s' (r.definedType again d fullname ref level inLiteral)
      ((r.withPolicy policy).definedType again' d fullname (ref.withArgs args) level inLiteral) := by
  cases d with
  | classDef decl => exact classType_agree pact follows scopes decl alike ref.pos level
  | aliasDef decl => exact aliasType_agree pact follows scopes decl fullname alike level
  | variableDef decl => exact variableType_agree follows scopes decl fullname alike level inLiteral
  | typeVarDef => exact typeVarType_agree follows scopes fullname alike level
  | pendingDef decl => exact pendingType_agree follows scopes decl alike level
  | moduleDef => exact noType_agree follows scopes alike level rfl (by simp)
  | functionDef | decoratorDef => exact noType_agree follows scopes alike level rfl (by simp [Problem.aboutScalar])

omit [again.Steady] [again'.Steady] pact follows scopes in
theorem subscriptProblem_plain (fullname : String) (suggest : Bool) :
    (subscriptProblem fullname suggest).aboutScalar = false := by
  unfold subscriptProblem
  repeat' split
  all_goals rfl

theorem symbolType_agree (d : Definition) (fullname : String) {ref : Reference} {args : List Ty}
    (alike : Alike exact (List.map Ty.unexplained) ref.args args) (level : Nesting) (inLiteral : Bool) :
    c.Agree exact Ty.unexplained s s' (r.symbolType again d fullname ref level inLiteral)
      ((r.withPolicy policy).symbolType again' d fullname (ref.withArgs args) level inLiteral) := by
  have noHooks' : (r.withPolicy policy).hooks = .empty := pact.noHooks
  rw [symbolType_eq pact.noHooks, symbolType_eq noHooks']
  have subscripted : c.Agree exact (fun _ : Unit => ()) s s'
      (if (builtinReplacement? fullname).isSome && !ref.args.isEmpty && !r.flags.allowUnnormalized then
        report ref.pos (subscriptProblem fullname !r.flags.definingAlias) else pure ())
      (if (builtinReplacement? fullname).isSome && !args.isEmpty && !r.flags.allowUnnormalized then
        report ref.pos (subscriptProblem fullname !r.flags.definingAlias) else pure ()) := by
    rw [← alike.isEmpty_eq]
    split
    · exact .reported (by simp [subscriptProblem_plain])
    · exact .pure (.refl _)
  change c.Agree exact _ s s' (_ >>= fun _ : Unit => scope >>= r.formOrDefined again d fullname ref level inLiteral)
    (_ >>= fun _ : Unit => scope >>=
      (r.withPolicy policy).formOrDefined again' d fullname (ref.withArgs args) level inLiteral)
  refine subscripted.bind fun inner weaker _ _ _ => .scopeThen ?_
  have sameHidden : bindsTypeVar d s fullname = bindsTypeVar d s' fullname := by
    cases d with
    | typeVarDef => exact scopes.isSome_eq fullname
    | _ => rfl
  unfold formOrDefined
  rw [← sameHidden]
  split
  · exact specialForm_agree pact follows (scopes.mono weaker) _ (alike.mono weaker) level
  · exact definedType_agree pact follows (scopes.mono weaker) d fullname (alike.mono weaker) level inLiteral

theorem plainReference_agree {ref : Reference} {args : List Ty} (alike : Alike exact (List.map Ty.unexplained) ref.args args)
    (level : Nesting) (inLiteral : Bool) :
    c.Agree exact Ty.unexplained s s' (r.plainReference again ref level inLiteral)
      ((r.withPolicy policy).plainReference again' (ref.withArgs args) level inLiteral) := by
  have sameSymbol : (r.withPolicy policy).table.lookup (ref.withArgs args).name = r.table.lookup ref.name := rfl
  unfold plainReference
  rw [sameSymbol]
  cases r.table.lookup ref.name with
  | none => exact .pure (.refl _)
  | some symbol =>
    dsimp only
    split
    · exact .report rfl fun _ _ => .pure (.refl _)
    · exact pendingType_agree follows scopes _ alike level
    · exact symbolType_agree pact follows scopes _ symbol.fullname alike level inLiteral

theorem reference_agree {ref : Reference} {args : List Ty} (alike : Alike exact (List.map Ty.unexplained) ref.args args)
    (level : Nesting) (inLiteral : Bool) :
    c.Agree exact Ty.unexplained s s' (r.reference again ref level inLiteral)
      ((r.withPolicy policy).reference again' (ref.withArgs args) level inLiteral) := by
  have plain := plainReference_agree pact follows scopes alike level inLiteral
  refine plain.map fun inner _ t t' made => ?_
  change Alike inner _ (if ref.optional then _ else _) (if ref.optional then _ else _)
  split
  · exact Ty.makeOptional_alike made
  · exact made

end Names

/-! Expressions -/

section Expressions

theorem isStar_unexplained (t : Ty) : t.unexplained.isStar = t.isStar := by
  cases t <;> first | rfl | (rename_i parts; cases parts; rfl)

theorem countP_isStar_unexplained (ts : List Ty) : (ts.map Ty.unexplained).countP Ty.isStar = ts.countP Ty.isStar := by
  simp [List.countP_map, Function.comp_def, isStar_unexplained]

include follows scopes

theorem tupleType_agree {shape : TupleShape} {items : List Ty} {fallback : Instance}
    (inItems : Alike exact (List.map Ty.unexplained) shape.items items)
    (atFallback : Alike exact Instance.unexplained shape.fallback fallback) (level : Nesting) :
    c.Agree exact Ty.unexplained s s' (r.tupleType again shape level)
      ((r.withPolicy policy).tupleType again' { shape with items := items, fallback := fallback } level) := by
  have sameStars : items.countP Ty.isStar = shape.items.countP Ty.isStar := by
    rw [← countP_isStar_unexplained, ← inItems.shown, countP_isStar_unexplained]
  obtain ⟨written, own, implicit, pos⟩ := shape
  unfold tupleType
  dsimp only at inItems atFallback sameStars ⊢
  rw [sameStars, ← inItems.length_eq]
  change c.Agree exact _ s s' _ (if implicit && !r.flags.allowTupleLiteral then _ else _)
  split
  · have sameLength := inItems.length_eq
    match written, items with
    | [], [] | [_], [_] | _ :: _ :: _, _ :: _ :: _ =>
      exact .reportAll (by simp [Problem.aboutScalar]) fun _ _ => .pure (.refl _)
  · split
    · refine .report rfl fun inner weaker => ?_
      split
      · exact .pure (Ty.AlikeForm.alike (.tuple (.refl _) (atFallback.mono weaker)))
      · exact .pure (.refl _)
    · exact (args_agree follows scopes inItems level).map fun _ weaker _ _ made =>
        Ty.AlikeForm.alike (.tuple made (atFallback.mono weaker))

include pact

theorem forwardType_agree (fullname : Option String) {args args' : List Ty}
    (alike : Alike exact (List.map Ty.unexplained) args args') (pos : Position) (level : Nesting) :
    c.Agree exact Ty.unexplained s s' (r.forwardType again fullname args pos level)
      ((r.withPolicy policy).forwardType again' fullname args' pos level) := by
  have later : c.Agree exact Ty.unexplained s s'
      (if r.table.finalPass then failAt pos (.unresolvedCycle ((fullname.map shortName).getD "?"))
        else raise .deferred >>= fun _ => pure (.forward fullname args pos))
      (if r.table.finalPass then failAt pos (.unresolvedCycle ((fullname.map shortName).getD "?"))
        else raise .deferred >>= fun _ => pure (.forward fullname args' pos)) := by
    split
    · exact .failAt _ rfl
    · exact (Comparison.Agree.raise _).bind fun _ weaker _ _ _ => .pure (Ty.AlikeForm.alike (.forward (alike.mono weaker)))
  have sameTable : (r.withPolicy policy).table = r.table := rfl
  unfold forwardType
  rw [sameTable]
  cases (fullname.bind r.table.find?).bind (·.definition) with
  | none => exact later
  | some d =>
    cases d with
    | classDef decl => exact classType_agree pact follows scopes decl alike pos level
    | pendingDef => exact later
    | _ => exact .failAt _ rfl

/-- What a form is resolved to agrees for forms that agree. -/
theorem form_agree {t t' : Ty} (alike : Alike exact Ty.unexplained t t') (level : Nesting) :
    c.Agree exact Ty.unexplained s s' (r.form again t level) ((r.withPolicy policy).form again' t' level) := by
  cases Ty.alikeForm_of_alike alike with
  | named inArgs => exact reference_agree pact follows scopes inArgs level false
  | any | noneType | never | deleted | inst | typeVar | literal => exact .pure alike
  | bracketed | argument | ellipsis =>
    exact .reportAll (by simp [Problem.aboutScalar]) fun _ _ => .pure (.refl _)
  | callable => exact signature_agree follows scopes alike level level.deeper
  | tuple inItems atFallback => exact tupleType_agree follows scopes inItems atFallback level
  | record inFields atFallback =>
    exact (fields_agree follows scopes inFields level).map fun _ weaker _ _ made =>
      Ty.AlikeForm.alike (.record made (atFallback.mono weaker))
  | @scalar value className note pos =>
    change c.Agree exact _ s s' (r.scalarType value className note pos) ((r.withPolicy policy).scalarType value className note pos)
    rw [scalarType_eq, scalarType_eq]
    exact .reportThen (fun _ => pact.scalar _ _ _ _) fun _ _ => .pure (.refl _)
  | star atItem =>
    exact (arg_agree follows scopes atItem level).map fun _ _ _ _ made => Ty.AlikeForm.alike (.star made)
  | @union _ _ pos inMembers =>
    exact (args_agree follows scopes inMembers level).map fun _ _ _ _ made => Ty.makeUnion_alike made pos
  | @classObject _ _ pos atItem =>
    exact (arg_agree follows scopes atItem level).map fun _ _ _ _ made => Ty.makeClassObject_alike made pos
  | forward inArgs => exact forwardType_agree pact follows scopes _ inArgs _ level

/-- What an expression is resolved to agrees for expressions that agree. -/
theorem expr_agree {t t' : Ty} (alike : Alike exact Ty.unexplained t t') (level : Nesting) :
    c.Agree exact Ty.unexplained s s' (r.expr again t level) ((r.withPolicy policy).expr again' t' level) := by
  have samePos : t.pos = t'.pos := by
    rw [← Ty.pos_unexplained, alike.shown, Ty.pos_unexplained]
  rw [expr_eq, expr_eq, samePos]
  split
  · exact .failAt _ rfl
  · exact form_agree pact follows scopes alike level

end Expressions

/-- The runs of a resolver under two policies agree, however deep they go. -/
theorem recursion_follows (pact : r.Pact policy c) (bound : Nat) :
    c.Follows (r.recursion bound) ((r.withPolicy policy).recursion bound) := by
  induction bound with
  | zero => exact ⟨fun _ _ _ => .stuck, fun _ _ _ => .stuck, fun _ _ _ _ _ => .stuck⟩
  | succ bound ih =>
    exact ⟨fun level scopes alike => expr_agree pact ih scopes alike level,
      fun level scopes alike => reference_agree pact ih scopes alike level true,
      fun index pos level scopes alike => literals_agree ih scopes alike index pos level⟩

end Resolver

end TypeResolution
