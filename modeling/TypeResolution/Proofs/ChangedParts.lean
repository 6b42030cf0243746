import TypeResolution.Proofs.YieldedForms

namespace TypeResolution

namespace Resolve

/-- A sense in which two steps are the same. Steps that are made of the same steps are the same in it. -/
structure Sameness where
  same {α : Type} (m m' : Resolve α) : Prop
  refl {α : Type} (m : Resolve α) : same m m
  bind {α β : Type} {m m' : Resolve α} {f f' : α → Resolve β} [Steady m] [Steady m'] [∀ a, Steady (f a)]
    [∀ a, Steady (f' a)] : same m m' → (∀ a, same (f a) (f' a)) → same (m >>= f) (m' >>= f')

namespace Sameness

variable {c : Sameness} {α β : Type}

theorem andThen {m m' : Resolve α} [Steady m] [Steady m'] (first : c.same m m') (f : α → Resolve β) [∀ a, Steady (f a)] :
    c.same (m >>= f) (m' >>= f) :=
  c.bind first fun a => c.refl (f a)

theorem after (m : Resolve α) [Steady m] {f f' : α → Resolve β} [∀ a, Steady (f a)] [∀ a, Steady (f' a)]
    (next : ∀ a, c.same (f a) (f' a)) : c.same (m >>= f) (m >>= f') :=
  c.bind (c.refl m) next

theorem mapM {f f' : α → Resolve β} [∀ x, Steady (f x)] [∀ x, Steady (f' x)] (each : ∀ x, c.same (f x) (f' x))
    (xs : List α) : c.same (xs.mapM f) (xs.mapM f') := by
  induction xs with
  | nil => exact c.refl _
  | cons x xs ih =>
    rw [List.mapM_cons, List.mapM_cons]
    exact c.bind (each x) fun _ => andThen ih _

/-- Steps for the elements of a list are the same if the elements are changed without consequence for their steps. -/
theorem mapM_map {f f' : α → Resolve β} [∀ x, Steady (f x)] [∀ x, Steady (f' x)] {change : α → α}
    (each : ∀ x, c.same (f (change x)) (f' x)) (xs : List α) : c.same ((xs.map change).mapM f) (xs.mapM f') := by
  rw [List.mapM_map]
  exact mapM each xs

/-- The same step in every respect. -/
def exact : Sameness where
  same m m' := m = m'
  refl _ := rfl
  bind first next := by rw [first, funext next]

end Sameness

end Resolve

open Resolve

/-- The reference with its arguments changed. -/
abbrev Reference.mapArgs (ref : Reference) (change : Ty → Ty) : Reference := ref.withArgs (ref.args.map change)

namespace Resolver

/-- What `ClassVar` reports of the place where it stands. -/
def placeReport (pos : Position) (level : Nesting) : Resolve Unit :=
  if level.isTop then pure () else report pos .nestedClassVar

variable {r : Resolver} {again again' : Recursion} [again.Steady] [again'.Steady] {c : Sameness} {change : Ty → Ty}
  {level level' : Nesting} (changes : ∀ t, c.same (again.arg (change t) level) (again'.arg t level'))

include changes

theorem args_changed (ts : List Ty) : c.same (again.args (ts.map change) level) (again'.args ts level') :=
  Sameness.mapM_map changes ts

theorem fields_changed (fields : List (String × Ty)) :
    c.same (again.fields (fields.map fun field => (field.1, change field.2)) level) (again'.fields fields level') :=
  Sameness.mapM_map (fun field => Sameness.andThen (changes field.2) _) fields

theorem noType_changed (ref : Reference) (problem : Problem) (notes : List Problem) :
    c.same (noType again (ref.mapArgs change) level problem notes) (noType again' ref level' problem notes) :=
  Sameness.andThen (args_changed changes ref.args) _

theorem pendingType_changed (decl : PendingDecl) (ref : Reference) :
    c.same (r.pendingType again decl (ref.mapArgs change) level) (r.pendingType again' decl ref level') := by
  unfold pendingType
  split
  · exact c.refl _
  · split
    · exact Sameness.after _ fun _ => Sameness.andThen (args_changed changes ref.args) _
    · exact c.refl _

omit changes in
/-- What a class derives from does not change with its arguments. -/
theorem classBase_kept (keeps : ∀ t, c.same (again.arg t level) (again'.arg t level')) (decl : ClassDecl)
    (args : List Ty) (pos : Position) (i : Instance) :
    c.same (classBase again decl (args.map change) pos level i) (classBase again' decl args pos level' i) := by
  unfold classBase
  rw [List.isEmpty_map]
  split
  · rename_i base _
    split
    · exact c.refl _
    · have items : c.same (again.args base.items level) (again'.args base.items level') := Sameness.mapM keeps base.items
      exact Sameness.andThen items _
  · rename_i base _ _
    split
    · exact c.refl _
    · have fields : c.same (again.fields base.fields level) (again'.fields base.fields level') := by
        refine Sameness.mapM (fun field => ?_) base.fields
        exact Sameness.andThen (keeps field.2) _
      exact Sameness.andThen fields _
  · exact c.refl _

theorem classType_changed (keeps : ∀ t, c.same (again.arg t level) (again'.arg t level')) (decl : ClassDecl)
    (args : List Ty) (pos : Position) :
    c.same (r.classType again decl (args.map change) pos level) (r.classType again' decl args pos level') := by
  rw [classType_eq, classType_eq, List.isEmpty_map]
  split
  · exact Sameness.andThen (args_changed changes args) _
  · rw [classInstance_eq, classInstance_eq]
    refine c.bind (args_changed changes args) fun resolved => ?_
    exact Sameness.after _ fun i => classBase_kept keeps decl args pos i

theorem aliasType_changed (decl : AliasDecl) (fullname : String) (ref : Reference) :
    c.same (r.aliasType again decl fullname (ref.mapArgs change) level) (r.aliasType again' decl fullname ref level') := by
  rw [aliasType_eq, aliasType_eq]
  exact Sameness.after _ fun _ => Sameness.andThen (args_changed changes ref.args) _

theorem variableType_changed (decl : VariableDecl) (fullname : String) (ref : Reference) (inLiteral : Bool) :
    c.same (variableType again decl fullname (ref.mapArgs change) level inLiteral)
      (variableType again' decl fullname ref level' inLiteral) := by
  unfold variableType
  split
  · exact c.refl _
  · exact c.refl _
  · exact noType_changed changes ref _ _

/-- Only references to type variables may be left with their arguments as they are written. -/
theorem definedType_changed (keeps : ∀ t, c.same (again.arg t level) (again'.arg t level')) {d : Definition}
    (fullname : String) (ref : Reference) (inLiteral : Bool)
    (variable_ : ∀ decl, d = .typeVarDef decl →
      c.same (r.typeVarType again fullname (ref.mapArgs change) level) (r.typeVarType again' fullname ref level')) :
    c.same (r.definedType again d fullname (ref.mapArgs change) level inLiteral)
      (r.definedType again' d fullname ref level' inLiteral) := by
  cases d with
  | classDef decl => exact classType_changed changes keeps decl ref.args ref.pos
  | aliasDef decl => exact aliasType_changed changes decl fullname ref
  | variableDef decl => exact variableType_changed changes decl fullname ref inLiteral
  | typeVarDef decl => exact variable_ decl rfl
  | pendingDef decl => exact pendingType_changed changes decl ref
  | moduleDef | functionDef | decoratorDef => exact noType_changed changes ref _ _

omit changes [again.Steady] [again'.Steady] in
theorem tupleForm_items {decl : ClassDecl} (found : r.table.findClass? "builtins.tuple" = some decl) {ref : Reference}
    (written : ref.args = [] → ref.emptyTuple = true) (notDots : ∀ item pos, ref.args ≠ [item, .ellipsis pos])
    (level : Nesting) :
    r.tupleForm again ref level = again.args ref.args level >>= fun items =>
      pure (.tuple ⟨items, .of decl.head [.anyAt .specialForm .unknown] ref.pos, false, ref.pos⟩) := by
  unfold tupleForm
  rw [found]
  dsimp only
  split
  · rename_i none_ notWritten
    rw [written none_] at notWritten
    cases notWritten
  · rename_i pair
    exact absurd pair (notDots _ _)
  · rfl

theorem tupleForm_changed (dots : ∀ t pos, change t = .ellipsis pos ↔ t = .ellipsis pos) (ref : Reference) :
    c.same (r.tupleForm again (ref.mapArgs change) level) (r.tupleForm again' ref level') := by
  cases found : r.table.findClass? "builtins.tuple" with
  | none =>
    unfold tupleForm
    rw [found]
    exact c.refl _
  | some decl =>
    by_cases dotted : ∃ item pos, ref.args = [item, .ellipsis pos]
    · obtain ⟨item, pos, written⟩ := dotted
      unfold tupleForm
      simp only [found, Reference.withArgs, written, List.map_cons, List.map_nil, (dots (.ellipsis pos) pos).2 rfl]
      exact Sameness.andThen (changes item) _
    · have notDots : ∀ item pos, ref.args ≠ [item, .ellipsis pos] := fun item pos same => dotted ⟨item, pos, same⟩
      by_cases bare : ref.args = [] ∧ ref.emptyTuple = false
      · unfold tupleForm
        simp only [found, Reference.withArgs, bare.1, bare.2, List.map_nil]
        exact c.refl _
      · have written (none_ : ref.args = []) : ref.emptyTuple = true := by
          rw [← Bool.not_eq_false]
          exact fun notWritten => bare ⟨none_, notWritten⟩
        rw [tupleForm_items found written notDots, tupleForm_items found]
        · exact Sameness.andThen (args_changed changes ref.args) _
        · exact fun none_ => written (List.map_eq_nil_iff.1 none_)
        · intro item pos changed
          obtain ⟨first, rest, atArgs, _, inRest⟩ := List.map_eq_cons_iff.1 changed
          obtain ⟨second, last, rfl, atSecond, inLast⟩ := List.map_eq_cons_iff.1 inRest
          obtain rfl := List.map_eq_nil_iff.1 inLast
          exact notDots first pos (by rw [atArgs, (dots second pos).1 atSecond])

theorem classObjectForm_changed (ref : Reference) :
    c.same (r.classObjectForm again (ref.mapArgs change) level) (r.classObjectForm again' ref level') := by
  obtain ⟨name, args, optional, emptyTuple, quoted, quotedClass, pos⟩ := ref
  cases args with
  | nil => exact c.refl _
  | cons item others =>
    simp only [classObjectForm, Reference.withArgs, List.map_cons, List.isEmpty_map]
    split
    · exact Sameness.after _ fun _ => Sameness.andThen (changes item) _
    · exact Sameness.andThen (changes item) _

theorem classVarForm_changed (places : ∀ pos, c.same (placeReport pos level) (placeReport pos level')) (ref : Reference) :
    c.same (classVarForm again (ref.mapArgs change) level) (classVarForm again' ref level') := by
  obtain ⟨name, args, optional, emptyTuple, quoted, quotedClass, pos⟩ := ref
  rw [classVarForm_eq, classVarForm_eq]
  refine c.bind (places pos) fun _ => ?_
  match args with
  | [] => exact c.refl _
  | [item] => exact Sameness.andThen (changes item) _
  | item :: second :: more => exact c.refl _

/-- The arguments of `Callable` and `Literal` are no types that stand where the form stands. -/
theorem specialForm_changed (dots : ∀ t pos, change t = .ellipsis pos ↔ t = .ellipsis pos)
    (places : ∀ pos, c.same (placeReport pos level) (placeReport pos level')) {form : SpecialForm} (ref : Reference)
    (callable : form = .callable → c.same (r.callableForm again (ref.mapArgs change) level) (r.callableForm again' ref level'))
    (literal : form = .literal → c.same (r.literalForm again (ref.mapArgs change) level) (r.literalForm again' ref level')) :
    c.same (r.specialForm again form (ref.mapArgs change) level) (r.specialForm again' form ref level') := by
  cases form with
  | noneType | any | final | noReturn => exact c.refl _
  | tuple => exact tupleForm_changed changes dots ref
  | callable => exact callable rfl
  | literal => exact literal rfl
  | classObject => exact classObjectForm_changed changes ref
  | classVar => exact classVarForm_changed changes places ref
  | union => exact Sameness.andThen (args_changed changes ref.args) _
  | optional =>
    obtain ⟨name, args, optional, emptyTuple, quoted, quotedClass, pos⟩ := ref
    match args with
    | [] => exact c.refl _
    | [item] => exact Sameness.andThen (changes item) _
    | item :: second :: more => exact c.refl _
  | annotated =>
    obtain ⟨name, args, optional, emptyTuple, quoted, quotedClass, pos⟩ := ref
    match args with
    | [] | [item] => exact c.refl _
    | item :: second :: more => exact changes item

omit changes in
theorem symbolType_changed {d : Definition} {fullname : String} (noHook : r.hooks.find? fullname = none) {ref : Reference}
    {inLiteral : Bool}
    (form : ∀ form, SpecialForm.ofName? fullname = some form →
      c.same (r.specialForm again form (ref.mapArgs change) level) (r.specialForm again' form ref level'))
    (defined : c.same (r.definedType again d fullname (ref.mapArgs change) level inLiteral)
      (r.definedType again' d fullname ref level' inLiteral)) :
    c.same (r.symbolType again d fullname (ref.mapArgs change) level inLiteral)
      (r.symbolType again' d fullname ref level' inLiteral) := by
  have inScope (s : Scope) : c.same (r.formOrDefined again d fullname (ref.mapArgs change) level inLiteral s)
      (r.formOrDefined again' d fullname ref level' inLiteral s) := by
    unfold formOrDefined
    split
    · exact form _ ‹_›
    · exact defined
  have sameEmpty : (ref.mapArgs change).args.isEmpty = ref.args.isEmpty := List.isEmpty_map
  rw [symbolType_formOrDefined noHook, symbolType_formOrDefined noHook, sameEmpty]
  exact Sameness.after _ fun _ => Sameness.after scope inScope

omit changes in
theorem reference_changed {ref : Reference} {inLiteral : Bool}
    (pending : ∀ symbol decl, r.table.lookup ref.name = some symbol → symbol.definition = some (.pendingDef decl) →
      c.same (r.pendingType again decl (ref.mapArgs change) level) (r.pendingType again' decl ref level'))
    (other : ∀ symbol d, r.table.lookup ref.name = some symbol → symbol.definition = some d → symbol.isPending = false →
      c.same (r.symbolType again d symbol.fullname (ref.mapArgs change) level inLiteral)
        (r.symbolType again' d symbol.fullname ref level' inLiteral)) :
    c.same (r.reference again (ref.mapArgs change) level inLiteral) (r.reference again' ref level' inLiteral) := by
  have plain : c.same (r.plainReference again (ref.mapArgs change) level inLiteral)
      (r.plainReference again' ref level' inLiteral) := by
    have sameName : (ref.mapArgs change).name = ref.name := rfl
    unfold plainReference
    rw [sameName]
    cases found : r.table.lookup ref.name with
    | none => exact c.refl _
    | some symbol =>
      dsimp only
      cases defined : symbol.definition with
      | none => exact c.refl _
      | some d =>
        cases d with
        | pendingDef decl => exact pending symbol decl found defined
        | _ => exact other symbol _ found defined (by simp [Symbol.isPending, defined])
  exact Sameness.andThen plain _

theorem tupleType_changed (stars : ∀ t, (change t).isStar = t.isStar) (shape : TupleShape) :
    c.same (r.tupleType again { shape with items := shape.items.map change } level) (r.tupleType again' shape level') := by
  have sameStars : (shape.items.map change).countP Ty.isStar = shape.items.countP Ty.isStar := by
    simp [List.countP_map, Function.comp_def, stars]
  obtain ⟨items, fallback, implicit, pos⟩ := shape
  unfold tupleType
  simp only [sameStars, List.length_map]
  split
  · rcases items with _ | ⟨_, _ | _⟩ <;> exact c.refl _
  · split
    · exact c.refl _
    · exact Sameness.andThen (args_changed changes items) _

theorem forwardType_changed (keeps : ∀ t, c.same (again.arg t level) (again'.arg t level')) {fullname : Option String}
    (isClass : (fullname.bind r.table.findClass?).isSome) (args : List Ty) (pos : Position) :
    c.same (r.forwardType again fullname (args.map change) pos level) (r.forwardType again' fullname args pos level') := by
  obtain ⟨decl, found⟩ := Option.isSome_iff_exists.1 isClass
  obtain ⟨name, rfl, atName⟩ := Option.bind_eq_some_iff.1 found
  have defined := SymbolTable.findClass?_eq_some_iff.1 atName
  unfold forwardType
  simp only [Option.bind_some, defined]
  exact classType_changed changes keeps decl args pos

/-- Forms whose parts are resolved where they stand are resolved the same with parts that are. -/
theorem form_changed (stars : ∀ t, (change t).isStar = t.isStar) {t : Ty} (inPlace : t.opensInPlace) :
    c.same (r.form again (t.withChildren (t.children.map change)) level) (r.form again' t level') := by
  cases t with
  | tuple shape => exact tupleType_changed changes stars shape
  | record shape =>
    have parts : (Ty.record shape).withChildren ((Ty.record shape).children.map change) =
        .record { shape with fields := shape.fields.map fun field => (field.1, change field.2) } := by
      simp [Ty.withChildren, Ty.children, List.zipWith_map_right]
    rw [parts]
    exact Sameness.andThen (fields_changed changes shape.fields) _
  | star item pos => exact Sameness.andThen (changes item) _
  | union members pos => exact Sameness.andThen (args_changed changes members) _
  | classObject item pos => exact Sameness.andThen (changes item) _
  | _ => cases inPlace

end Resolver

end TypeResolution
