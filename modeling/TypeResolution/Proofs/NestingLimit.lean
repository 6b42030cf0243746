import TypeResolution.Proofs.ChangedParts
import TypeResolution.Proofs.EqualForms
import TypeResolution.Proofs.TrimmedTypes

namespace TypeResolution

open Resolve

namespace Resolver

variable {r : Resolver}

section Forms

variable {again : Recursion} (trims : ∀ t level, again.expr (r.trim t level) level = again.expr t level)

include trims

theorem exprs_trim (ts : List Ty) (level : Nesting) :
    (ts.map (r.trim · level)).mapM (again.expr · level) = ts.mapM (again.expr · level) := by
  rw [List.mapM_map]
  congr 1
  funext t
  exact trims t level

theorem arg_trim (level : Nesting) (t : Ty) : again.arg (r.trim t level.deeper) level = again.arg t level :=
  trims t level.deeper

omit trims in
theorem inferTypeVariables_trim (scope : Scope) (signature : Signature) (level : Nesting) :
    inferTypeVariables r.table scope
        { signature with args := signature.args.map (r.trim · level), ret := r.trim signature.ret level } =
      inferTypeVariables r.table scope signature := by
  have each (inside : Bool) (t : Ty) :
      VariableSearch.run { VariableSearch.of r.table scope with insideCallables := inside } (r.trim t level) =
        VariableSearch.run { VariableSearch.of r.table scope with insideCallables := inside } t := run_trim rfl t level
  have inArgs (t : Ty) : (VariableSearch.of r.table scope).run (r.trim t level) = (VariableSearch.of r.table scope).run t :=
    each true t
  simp only [inferTypeVariables, List.foldl_map, inArgs, each]

omit trims in
/-- A signature is resolved alike with other parts that are resolved alike and use the same variables. -/
theorem signature_congr (s : Signature) {args : List Ty} {ret : Ty} {level inner : Nesting}
    (sameArgs : args.mapM (again.expr · inner) = s.args.mapM (again.expr · inner))
    (sameRet : again.expr ret inner = again.expr s.ret inner)
    (sameVariables : ∀ scope, inferTypeVariables r.table scope { s with args := args, ret := ret } =
      inferTypeVariables r.table scope s) :
    r.signature again { s with args := args, ret := ret } level inner = r.signature again s level inner := by
  have bound (scope : Scope) :
      scope.bindSignature r.table { s with args := args, ret := ret } = scope.bindSignature r.table s := by
    unfold Scope.bindSignature
    rw [sameVariables]
  unfold signature bindVariables
  simp only [bound, sameArgs, sameRet]

theorem signature_trim (s : Signature) (level inner : Nesting) :
    r.signature again { s with args := s.args.map (r.trim · inner), ret := r.trim s.ret inner } level inner =
      r.signature again s level inner :=
  signature_congr s (exprs_trim trims s.args inner) (trims s.ret inner) fun scope => inferTypeVariables_trim scope s inner

omit trims in
theorem ofItem_trim (t : Ty) (level : Nesting) :
    Parameter.ofItem r.table (r.trim t level) = (Parameter.ofItem r.table t).map (Parameter.mapType (r.trim · level)) := by
  have plain (t : Ty) (notArgument : ∀ item name form pos, t ≠ .argument item name form pos) :
      Parameter.ofItem r.table t = .ok ⟨t, .positional, none⟩ := by
    cases t <;> first | rfl | exact absurd rfl (notArgument _ _ _ _)
  by_cases argument : ∃ item name form pos, t = .argument item name form pos
  · obtain ⟨item, name, form, pos, rfl⟩ := argument
    rw [trim_argument]
    simp only [Parameter.ofItem]
    repeat' split
    all_goals rfl
  · rw [plain t fun item name form pos same => argument ⟨item, name, form, pos, same⟩, plain]
    · rfl
    · intro item name form pos trimmed
      obtain ⟨written, same⟩ := argument_of_trim trimmed
      exact argument ⟨written, name, form, pos, same⟩

omit trims in
/-- Arguments of `Callable` that are neither a list nor an ellipsis, and a result, are a fault. -/
theorem callableForm_fault {ref : Reference} (notEmpty : ref.args ≠ [])
    (notList : ∀ items pos ret, ref.args ≠ [.bracketed items pos, ret])
    (notDots : ∀ pos ret, ref.args ≠ [.ellipsis pos, ret])
    (level : Nesting) :
    r.callableForm again ref level =
      failAt ref.pos (if ref.args.length = 2 then .callableParameters else .callableUsage) := by
  unfold callableForm
  dsimp only
  split
  · rename_i none_
    exact absurd none_ notEmpty
  · rename_i list
    exact absurd list (notList _ _ _)
  · rename_i dots
    exact absurd dots (notDots _ _)
  · rename_i pair
    rw [pair]
    rfl
  · rename_i notPair
    rw [if_neg]
    intro two
    obtain ⟨first, second, pair⟩ := List.length_eq_two.1 two
    exact notPair first second pair

theorem callableForm_trim (ref : Reference) (level : Nesting) :
    r.callableForm again (ref.mapArgs (r.trim · level.deeper)) level = r.callableForm again ref level := by
  by_cases empty : ref.args = []
  · unfold callableForm
    simp only [Reference.withArgs, empty, List.map_nil]
    rfl
  by_cases list : ∃ items at_ ret, ref.args = [.bracketed items at_, ret]
  · obtain ⟨items, at_, ret, written⟩ := list
    let signatureOf (parameters : List Parameter) (ret : Ty) : Signature := { Signature.ofParameters parameters ret with
      fallback := r.instanceOf? "builtins.function" [] ref.pos, pos := ref.pos }
    have parts (parameters : List Parameter) :
        r.signature again
          (signatureOf (parameters.map (Parameter.mapType (r.trim · level.deeper))) (r.trim ret level.deeper))
          level level.deeper = r.signature again (signatureOf parameters ret) level level.deeper := by
      have trimmed := signature_trim trims (signatureOf parameters ret) level level.deeper
      simpa [signatureOf, Signature.ofParameters, Signature.of, Parameter.mapType, Function.comp_def] using trimmed
    unfold callableForm
    simp only [Reference.withArgs, written, List.map_cons, List.map_nil, trim_bracketed]
    rw [Parameter.ofItems_map fun t _ => ofItem_trim t level.deeper]
    cases (Parameter.ofItems r.table items at_).1 with
    | none => rfl
    | some parameters =>
      exact congrArg (reportAll (Parameter.ofItems r.table items at_).2 >>= fun _ => ·) (parts parameters)
  by_cases dots : ∃ at_ ret, ref.args = [.ellipsis at_, ret]
  · obtain ⟨at_, ret, written⟩ := dots
    let whole : Signature := { Signature.ofAnyArgs (.anyAt .explicit .unknown) ret with
      fallback := r.instanceOf? "builtins.function" [] ref.pos, pos := ref.pos }
    have sameVariables (scope : Scope) :
        inferTypeVariables r.table scope { whole with ret := r.trim ret level.deeper } =
          inferTypeVariables r.table scope whole := by
      unfold inferTypeVariables
      dsimp only
      rw [run_trim rfl]
      rfl
    have parts : r.signature again { whole with ret := r.trim ret level.deeper } level level.deeper = _ :=
      signature_congr whole rfl (trims ret level.deeper) sameVariables
    unfold callableForm
    simp only [Reference.withArgs, written, List.map_cons, List.map_nil, trim_ellipsis]
    exact parts
  · have notList (items at_ ret) : ref.args ≠ [.bracketed items at_, ret] := fun same => list ⟨items, at_, ret, same⟩
    have notDots (at_ ret) : ref.args ≠ [.ellipsis at_, ret] := fun same => dots ⟨at_, ret, same⟩
    rw [callableForm_fault empty notList notDots, callableForm_fault]
    · simp only [Reference.withArgs, List.length_map]
    · exact fun none_ => empty (List.map_eq_nil_iff.1 none_)
    · intro items at_ ret trimmed
      obtain ⟨first, rest, atArgs, atFirst, inRest⟩ := List.map_eq_cons_iff.1 trimmed
      obtain ⟨second, last, rfl, _, inLast⟩ := List.map_eq_cons_iff.1 inRest
      obtain rfl := List.map_eq_nil_iff.1 inLast
      obtain ⟨written, rfl⟩ := bracketed_of_trim atFirst
      exact notList written at_ second atArgs
    · intro at_ ret trimmed
      obtain ⟨first, rest, atArgs, atFirst, inRest⟩ := List.map_eq_cons_iff.1 trimmed
      obtain ⟨second, last, rfl, _, inLast⟩ := List.map_eq_cons_iff.1 inRest
      obtain rfl := List.map_eq_nil_iff.1 inLast
      exact notDots at_ second (by rw [atArgs, trim_eq_ellipsis_iff.1 atFirst])

theorem specialForm_trim [again.Steady] {form : SpecialForm} (notLiteral : form ≠ .literal) (ref : Reference)
    (level : Nesting) :
    r.specialForm again form (ref.mapArgs (r.trim · level.deeper)) level = r.specialForm again form ref level :=
  specialForm_changed (c := .exact) (arg_trim trims level) (fun _ _ => trim_eq_ellipsis_iff) (fun _ => rfl) ref
    (fun _ => callableForm_trim trims ref level) fun literal => absurd literal notLiteral

/-- Every hook resolves the arguments of its name and makes an instance of them. -/
def HooksMakeInstances (r : Resolver) : Prop :=
  ∀ fullname hook, r.hooks.find? fullname = some hook → ∃ className, hook = .instanceOf className

theorem resolveAll_trim (next : List Ty → HookScript) (ts : List Ty) :
    (Hook.resolveAll next (ts.map (r.trim · Nesting.top.deeper))).run r again = (Hook.resolveAll next ts).run r again := by
  induction ts generalizing next with
  | nil => rfl
  | cons t ts ih =>
    simp only [List.map_cons, Hook.resolveAll, HookScript.run, arg_trim trims, ih]

theorem symbolType_trim [again.Steady] (hooks : r.HooksMakeInstances) {ref : Reference} {symbol : Symbol} {d : Definition}
    (found : r.table.lookup ref.name = some symbol) (defined : symbol.definition = some d)
    (notPending : symbol.isPending = false) {level inner : Nesting} (atParts : r.partsLevel (.named ref) level = some inner)
    (inLiteral : Bool) :
    r.symbolType again d symbol.fullname (ref.mapArgs (r.trim · inner)) level inLiteral =
      r.symbolType again d symbol.fullname ref level inLiteral := by
  have hooked : r.isHooked ref = (r.hooks.find? symbol.fullname).isSome := by
    simp [isHooked, found, defined, notPending]
  cases atHook : r.hooks.find? symbol.fullname with
  | some hook =>
    obtain ⟨className, rfl⟩ := hooks symbol.fullname hook atHook
    have counted : inner = Nesting.top.deeper := by
      simp only [partsLevel, hooked, atHook, Option.isSome_some, if_true] at atParts
      exact (Option.some.inj atParts).symm
    unfold symbolType
    rw [atHook, counted]
    exact resolveAll_trim trims _ ref.args
  | none =>
    simp only [partsLevel, hooked, atHook, Option.isSome_none, Bool.false_eq_true, if_false] at atParts
    split at atParts
    · cases atParts
    · rename_i plain
      obtain rfl := Option.some.inj atParts
      have noVariable : ∀ decl, d ≠ .typeVarDef decl := by
        rintro decl rfl
        exact plain (by simp [SymbolTable.lookupTypeVar?, found, defined])
      refine symbolType_changed (c := .exact) atHook (fun form isForm => specialForm_trim trims ?_ ref level)
        (definedType_changed (c := .exact) (arg_trim trims level) (fun _ => rfl) _ ref inLiteral
          fun decl same => absurd same (noVariable decl))
      rintro rfl
      exact plain (by simp [isLiteralForm_of_form found isForm])

theorem reference_trim [again.Steady] (hooks : r.HooksMakeInstances) {ref : Reference} {level inner : Nesting}
    (atParts : r.partsLevel (.named ref) level = some inner) (inLiteral : Bool) :
    r.reference again (ref.mapArgs (r.trim · inner)) level inLiteral = r.reference again ref level inLiteral := by
  refine reference_changed (c := .exact) (fun symbol decl found defined => ?_) fun symbol d found defined notPending =>
    symbolType_trim trims hooks found defined notPending atParts inLiteral
  have notHooked : r.isHooked ref = false := by simp [isHooked, found, Symbol.isPending, defined]
  simp only [partsLevel, notHooked, Bool.false_eq_true, if_false] at atParts
  split at atParts
  · cases atParts
  · obtain rfl := Option.some.inj atParts
    exact pendingType_changed (c := .exact) (arg_trim trims level) decl ref

/-- Cutting away what is nested too deep changes nothing in how an expression is resolved. -/
theorem expr_trim [again.Steady] (hooks : r.HooksMakeInstances) (t : Ty) (level : Nesting) :
    r.expr again (r.trim t level) level = r.expr again t level := by
  rw [expr_eq, expr_eq, trim_pos]
  split
  · rfl
  rename_i shallow
  cases atParts : r.partsLevel t level with
  | none => rw [trim_whole (fun cut => shallow cut.1) atParts]
  | some inner =>
    rw [trim_parts (fun cut => shallow cut.1) atParts]
    cases t with
    | named ref => exact reference_trim trims hooks atParts false
    | bracketed | argument => rfl
    | callable s =>
      obtain rfl := Option.some.inj atParts
      have parts : (Ty.callable s).withChildren ((Ty.callable s).children.map (r.trim · level.deeper)) =
          .callable { s with args := s.args.map (r.trim · level.deeper), ret := r.trim s.ret level.deeper } := by
        simp [Ty.withChildren, Ty.children]
      rw [parts]
      exact signature_trim trims s level level.deeper
    | tuple | record | star | union | classObject =>
      obtain rfl := Option.some.inj atParts
      exact form_changed (c := .exact) (arg_trim trims level) (isStar_trim r · level.deeper) rfl
    | forward fullname args pos =>
      simp only [partsLevel] at atParts
      split at atParts
      · rename_i isClass
        obtain rfl := Option.some.inj atParts
        exact forwardType_changed (c := .exact) (arg_trim trims level) (fun _ => rfl) isClass args pos
      · cases atParts
    | _ => cases atParts

end Forms

/-- However deep the recursion goes, cutting away what is nested too deep changes nothing. -/
theorem recursion_trim (hooks : r.HooksMakeInstances) (bound : Nat) (t : Ty) (level : Nesting) :
    (r.recursion bound).expr (r.trim t level) level = (r.recursion bound).expr t level := by
  induction bound generalizing t level with
  | zero => rfl
  | succ bound ih => exact expr_trim ih hooks t level

/-- Nothing is read of what stands below the limit of nesting, counted from the nearest hooked name around it or else from
the root: expressions that differ only there are resolved alike. What stands below the limit is an error. -/
theorem belowLimit_unread (hooks : r.HooksMakeInstances) {t u : Ty} (same : r.trim t .top = r.trim u .top) (bound : Nat) :
    (r.recursion bound).expr t .top = (r.recursion bound).expr u .top ∧
      ∀ x level, maxNesting < level.level → (r.recursion (bound + 1)).expr x level = failAt x.pos .nestedTooDeep := by
  constructor
  · rw [← recursion_trim hooks bound t, same, recursion_trim hooks]
  · intro x level deep
    change r.expr (r.recursion bound) x level = _
    rw [expr_eq, if_pos deep]

/-- A module with boxes, in which `H` is hooked to make boxes. -/
def withHook : Resolver :=
  { withBoxes with
    table := withBoxes.table.define (.classDef (.generic "m.H" ["T"]))
    hooks := NameMap.empty.insert "m.H" (.instanceOf "m.Box") }

/-- `t` inside so many `H`. -/
def hooked (t : Ty) : Nat → Ty
  | 0 => t
  | n + 1 => .named (.of "H" [hooked t n])

/-- The only hook makes boxes. -/
theorem withHook_makesInstances : withHook.HooksMakeInstances := by
  intro fullname hook found
  by_cases same : fullname = "m.H"
  · rw [same] at found
    cases found
    exact ⟨_, rfl⟩
  · have none_ : withHook.hooks.find? fullname = none := NameMap.find?_insert_other _ _ same
    rw [none_] at found
    cases found

theorem trim_boxed {t u : Ty} (n : Nat) (level : Nesting) (within : level.level + n ≤ maxNesting + 1)
    (same : withHook.trim t ⟨level.level + n⟩ = withHook.trim u ⟨level.level + n⟩) :
    withHook.trim (boxed t n) level = withHook.trim (boxed u n) level := by
  induction n generalizing level with
  | zero => exact same
  | succ n ih =>
    have kept (x : Ty) : ¬ (maxNesting < level.level ∧ withHook.Unread x) := fun cut => by
      have below := cut.1
      omega
    have parts (x : Ty) : withHook.trim (boxed x (n + 1)) level =
        .named (.of "Box" [withHook.trim (boxed x n) level.deeper]) := trim_parts (kept _) rfl
    have again : level.deeper.level + n = level.level + (n + 1) := by
      change level.level + 1 + n = _
      omega
    rw [parts, parts, ih level.deeper (again ▸ within) (again ▸ same)]

/-- Inside of 100 boxes in an `H` it makes no difference what the innermost box holds. -/
theorem belowLimit_unread_box :
    (withHook.recursion 200).expr (hooked (boxed (.named (.of "int" [])) 100) 1) .top =
      (withHook.recursion 200).expr (hooked (boxed (.named (.of "str" [])) 100) 1) .top := by
  have boxes : withHook.trim (boxed (.named (.of "int" [])) 100) Nesting.top.deeper =
      withHook.trim (boxed (.named (.of "str" [])) 100) Nesting.top.deeper :=
    trim_boxed 100 Nesting.top.deeper (by decide) rfl
  have parts (t : Ty) : withHook.trim (hooked t 1) .top = .named (.of "H" [withHook.trim t Nesting.top.deeper]) :=
    trim_parts (fun cut => Nat.not_lt_zero _ cut.1) rfl
  exact (belowLimit_unread withHook_makesInstances (by rw [parts, parts, boxes]) 200).1

/-- `H` is hooked to make boxes. -/
structure KnowsHook (r : Resolver) : Prop where
  found : r.table.lookup "H" = some (.of (.classDef (.generic "m.H" ["T"])))
  hooked : r.hooks.find? "m.H" = some (.instanceOf "m.Box")
  box : r.table.findClass? "m.Box" = some (.generic "m.Box" ["T"])

theorem expr_hook (knows : r.KnowsHook) (again : Recursion) (t : Ty) {level : Nesting} (within : level.level ≤ maxNesting) :
    r.expr again (hooked t 1) level = again.expr t Nesting.top.deeper >>= fun a => pure (Boxes a 1) := by
  have made (a : Ty) : r.instanceOf? "m.Box" [a] .unknown = some (.of ⟨"m.Box", ["T"], false⟩ [a] .unknown) := by
    rw [instanceOf?, knows.box]
    rfl
  have script : r.symbolType again (.classDef (.generic "m.H" ["T"])) "m.H" (.of "H" [t]) level false =
      again.expr t Nesting.top.deeper >>= fun a => pure (Boxes a 1) := by
    unfold symbolType
    rw [knows.hooked]
    refine congrArg (again.expr t Nesting.top.deeper >>= ·) (funext fun a => ?_)
    simp only [Hook.resolveAll, HookScript.run, made]
    rfl
  have found : r.table.lookup (Reference.of "H" [t]).name = some (.of (.classDef (.generic "m.H" ["T"]))) := knows.found
  rw [expr_eq, if_neg (Nat.not_lt.2 within)]
  change r.plainReference again (.of "H" [t]) level false >>= pure = _
  rw [bind_pure, plainReference_of_symbol found rfl rfl]
  exact script

theorem le_weight_hooked (t : Ty) (n : Nat) : n ≤ (hooked t n).weight := by
  induction n with
  | zero => exact Nat.zero_le _
  | succ n ih =>
    have child : hooked t n ∈ (hooked t (n + 1)).children := List.mem_singleton_self _
    exact Nat.lt_of_le_of_lt ih (Ty.weight_child_lt child)

/-- What stands inside hooked names is resolved as an argument of the last, if there is one. -/
theorem expr_hooked (knows : r.KnowsHook) {bound n : Nat} {t a : Ty} {p q : Progress}
    (ran : ∀ level : Nesting, level.level ≤ 1 → (r.recursion bound).expr t level p = some (a, q)) {level : Nesting}
    (shallow : level.level ≤ 1) : (r.recursion (bound + n)).expr (hooked t n) level p = some (Boxes a n, q) := by
  have limit : maxNesting = 100 := rfl
  induction n generalizing level with
  | zero => exact ran level shallow
  | succ n ih =>
    change r.expr (r.recursion (bound + n)) (hooked (hooked t n) 1) level p = _
    rw [expr_hook knows _ _ (by omega)]
    have inside : (r.recursion (bound + n)).expr (hooked t n) Nesting.top.deeper p = some (Boxes a n, q) := ih (Nat.le_refl 1)
    change ((r.recursion (bound + n)).expr (hooked t n) Nesting.top.deeper p).bind _ = _
    rw [inside]
    rfl

/-- The 101st level below the root is resolved without a complaint if all the names above it are hooked, and is an error
if they are not. -/
theorem hooked_notLimited :
    ∃ q q', withHook.resolve (hooked (.noneType .unknown) 101) (.start .root) =
        some (⟨Boxes (.noneType .unknown) 101, .complete⟩, q) ∧ q.reports = [] ∧
      withHook.resolve (boxed (.noneType .unknown) 101) (.start .root) =
        some (⟨Boxes (.anyAt .error .unknown) 101, .complete⟩, q') ∧ q'.reports = [⟨.unknown, .nestedTooDeep⟩] := by
  have inHooks : withHook.resolve (hooked (.noneType .unknown) 101) (.start .root) =
      some (⟨Boxes (.noneType .unknown) 101, .complete⟩, .start .root) := by
    refine resolve_of_heavy (le_weight_hooked _ 101) (fun bound => expr_hooked ⟨rfl, rfl, rfl⟩ (fun level shallow => ?_)
      (Nat.zero_le 1)) rfl
    have limit : maxNesting = 100 := rfl
    change withHook.expr (withHook.recursion bound) (.noneType .unknown) level _ = _
    rw [expr_eq, if_neg (by omega)]
    rfl
  have inBoxes : withHook.resolve (boxed (.noneType .unknown) 101) (.start .root) =
      some (⟨Boxes (.anyAt .error .unknown) 101, .complete⟩,
        { Progress.start .root with reports := [⟨.unknown, .nestedTooDeep⟩] }) :=
    resolve_boxed ⟨rfl, rfl⟩ (by decide) (fun _ => rfl) rfl
  exact ⟨_, _, inHooks, rfl, inBoxes, rfl⟩

/-- `N` derives from a tuple with an `H[N]`. -/
def hookedBase : ClassDecl :=
  { ClassDecl.plain "m.N" with
    tupleBase := some ⟨[hooked (.named (.of "N" [])) 1], .of (.plain "builtins.tuple") [] .unknown, false, .unknown⟩ }

/-- A module with boxes and such an `N`. -/
def withHookedBase : Resolver := { withHook with table := withHook.table.define (.classDef hookedBase) }

section

variable {again : Recursion} {level : Nesting}

theorem hooked_none (kept : level.level ≤ maxNesting)
    (never : ∀ p, again.expr (.named (.of "N" [])) Nesting.top.deeper p = none) (p : Progress) :
    withHookedBase.expr again (hooked (.named (.of "N" [])) 1) level p = none := by
  rw [expr_hook ⟨rfl, rfl, rfl⟩ again _ kept]
  change (again.expr (.named (.of "N" [])) Nesting.top.deeper p).bind _ = none
  rw [never]
  rfl

theorem hookedBase_none (kept : level.level ≤ maxNesting)
    (never : ∀ p, again.expr (hooked (.named (.of "N" [])) 1) level.deeper p = none) (p : Progress) :
    withHookedBase.expr again (.named (.of "N" [])) level p = none := by
  have base (q : Progress) : again.args [hooked (.named (.of "N" [])) 1] level q = none := by
    change ((again.expr (hooked (.named (.of "N" [])) 1) level.deeper q).bind _) = none
    rw [never]
    rfl
  have asClass : withHookedBase.classType again hookedBase [] .unknown level p = none := by
    change ((again.args [hooked (.named (.of "N" [])) 1] level _).bind _) = none
    rw [base]
    rfl
  rw [expr_eq, if_neg (Nat.not_lt.2 kept)]
  change (withHookedBase.classType again hookedBase [] .unknown level p).bind _ = none
  rw [asClass]
  rfl

end

/-- The base of `N` is resolved over and over again: below a hooked name the levels start anew, so that the limit of
nesting is never reached. -/
theorem hookedBase_neverEnds (bound : Nat) (level : Nesting) (shallow : level.level ≤ 1) (p : Progress) :
    (withHookedBase.recursion bound).expr (.named (.of "N" [])) level p = none := by
  have limit : maxNesting = 100 := rfl
  induction bound using Nat.strong_induction_on generalizing level p with
  | h bound ih =>
    cases bound with
    | zero => rfl
    | succ bound =>
      refine hookedBase_none (by omega) (fun q => ?_) p
      cases bound with
      | zero => rfl
      | succ bound =>
        have deeper : level.deeper.level ≤ maxNesting := by
          change level.level + 1 ≤ _
          omega
        exact hooked_none deeper (ih bound (by omega) Nesting.top.deeper (Nat.le_refl 1)) q

end Resolver

end TypeResolution
