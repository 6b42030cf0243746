import TypeResolution.Proofs.AliasUse
import TypeResolution.Proofs.SideReports
import TypeResolution.Proofs.Throughout
import TypeResolution.Proofs.YieldedForms

namespace TypeResolution

open Resolve

/-- The problem is that something is nested too deep. -/
def Problem.IsTooDeep : Problem → Prop
  | .nestedTooDeep | .cutOff => True
  | _ => False

/-- Substitutes the formals in a type, however deep they stand. -/
def replaceFormals (formals : List String) (values : List Ty) (pos : Position) : Ty → Ty :=
  Ty.fold fun t parts =>
    match substitute? formals values t with
    | some value => value
    | none => if t.children.isEmpty then t else (t.rebuild parts).withPos pos

theorem replaceFormals_eq (formals : List String) (values : List Ty) (pos : Position) (t : Ty) :
    replaceFormals formals values pos t =
      match substitute? formals values t with
      | some value => value
      | none => if t.children.isEmpty then t else (t.rebuild (t.children.map (replaceFormals formals values pos))).withPos pos := by
  unfold replaceFormals
  rw [Ty.fold_eq]

/-- Where nothing is cut off, all formals are substituted and all else is kept. -/
theorem substituteAt_uncut {formals : List String} {values : List Ty} {pos : Position} {t : Ty} {depth : Nat}
    (uncut : (substituteAt formals values pos t depth).2 = false) :
    (substituteAt formals values pos t depth).1 = replaceFormals formals values pos t := by
  induction t using Ty.inductionOn generalizing depth with
  | step t ih =>
    rw [substituteAt_eq] at uncut ⊢
    rw [replaceFormals_eq]
    cases found : substitute? formals values t with
    | some => rfl
    | none =>
      rw [found] at uncut
      dsimp only at uncut ⊢
      split
      · rfl
      · rename_i notLeaf
        rw [if_neg notLeaf] at uncut
        split at uncut
        · cases uncut
        · rename_i notDeep
          have parts : t.children.map (Prod.fst ∘ fun c => substituteAt formals values pos c (depth + 1)) =
              t.children.map (replaceFormals formals values pos) := by
            refine List.map_congr_left fun c member => ih c member ?_
            have each := List.any_eq_false.1 uncut _ (List.mem_map_of_mem member)
            simpa using each
          rw [if_neg notDeep, List.map_map, parts]

theorem omittedAny_notDeep {disallowed : Bool} {pos : Position} {fullname : Option String} {description : String} {report : Diagnostic}
    (member : report ∈ (omittedAny disallowed pos fullname description).2) : ¬ report.problem.IsTooDeep := by
  unfold omittedAny at member
  split at member
  · rw [List.mem_singleton.1 member]
    dsimp only
    split <;> exact nofun
  · cases member

theorem fixInstance_notDeep {i : Instance} {disallowAny fromAlias : Bool} {written : Option String} {report : Diagnostic}
    (member : report ∈ (fixInstance i disallowAny fromAlias written).2) : ¬ report.problem.IsTooDeep := by
  unfold fixInstance at member
  split at member
  · cases member
  · split at member
    · exact omittedAny_notDeep member
    · rw [List.mem_singleton.1 member]
      exact nofun

namespace AliasDecl

/-- The part `t` of the target, at this depth, is or holds a type with parts of its own that stands too deep, outside of
the formals. -/
inductive Buries (a : AliasDecl) : Ty → Nat → Prop
  | here {t : Ty} {depth : Nat} : (∀ name, t.formalName? = some name → name ∉ a.formals) → t.children ≠ [] →
      maxSubstitutionDepth ≤ depth → a.Buries t depth
  | inside {t c : Ty} {depth : Nat} : (∀ name, t.formalName? = some name → name ∉ a.formals) → c ∈ t.children →
      a.Buries c (depth + 1) → a.Buries t depth

variable {a : AliasDecl} {values : List Ty} {pos : Position}

theorem Buries.notFormal {t : Ty} {depth : Nat} (buries : a.Buries t depth) :
    ∀ name, t.formalName? = some name → name ∉ a.formals := by
  cases buries with
  | here notFormal => exact notFormal
  | inside notFormal => exact notFormal

theorem Buries.notLeaf {t : Ty} {depth : Nat} (buries : a.Buries t depth) : t.children ≠ [] := by
  cases buries with
  | here _ notLeaf => exact notLeaf
  | inside _ member => exact List.ne_nil_of_mem member

/-- Something is cut off from a target exactly where the target buries something. -/
theorem substituteAt_cut_iff (sameNumber : values.length = a.formals.length) (t : Ty) (depth : Nat) :
    (substituteAt a.formals values pos t depth).2 = true ↔ a.Buries t depth := by
  induction t using Ty.inductionOn generalizing depth with
  | step t ih =>
    rw [substituteAt_eq]
    split
    · rename_i value found
      refine ⟨nofun, fun buries => ?_⟩
      have kept : substitute? a.formals values t = none := by
        unfold substitute?
        cases atName : t.formalName? with
        | none => rfl
        | some name => simp [List.idxOf?_eq_none_iff.2 (buries.notFormal name atName)]
      rw [kept] at found
      cases found
    · rename_i kept
      have notFormal := not_formal_of_substitute? sameNumber kept
      split
      · rename_i leaf
        exact ⟨nofun, fun buries => absurd (List.isEmpty_iff.1 leaf) buries.notLeaf⟩
      · rename_i notLeaf
        have inner : t.children ≠ [] := fun none => notLeaf (List.isEmpty_iff.2 none)
        split
        · rename_i deep
          exact ⟨fun _ => .here notFormal inner deep, fun _ => rfl⟩
        · rename_i notDeep
          simp only [List.any_map, List.any_eq_true, Function.comp_apply]
          constructor
          · rintro ⟨c, member, cut⟩
            exact .inside notFormal member ((ih c member _).1 cut)
          · intro buries
            cases buries with
            | here _ _ deep => exact absurd deep notDeep
            | inside _ member buries => exact ⟨_, member, (ih _ member _).2 buries⟩

/-- Too deep a substitution is reported if something is cut off. -/
theorem substitute_tooDeep_iff (sameNumber : values.length = a.formals.length) :
    (∃ report ∈ (substitute a.target a.formals values pos).2, report.problem.IsTooDeep) ↔ a.Buries a.target 0 := by
  rw [← substituteAt_cut_iff sameNumber]
  unfold substitute
  cases cut : (substituteAt a.formals values pos a.target 0).2 <;> simp [cut, Problem.IsTooDeep]

/-- An alias can be used with this number of arguments. -/
def Takes (a : AliasDecl) (number : Nat) : Prop :=
  number = 0 ∨ number = a.formals.length ∨ (a.formals = [] ∧ a.isBare ∧ a.targetClass?.isSome)

theorem substituteAny_tooDeep_iff (written : String) (disallowAny : Bool) :
    (∃ report ∈ (substituteAny a.target a.formals pos false disallowAny (some written)).2,
        report.problem.IsTooDeep) ↔ a.Buries a.target 0 := by
  have filled (filler : Ty) : (∃ report ∈ (substitute a.target a.formals (List.replicate a.formals.length filler) pos).2,
      report.problem.IsTooDeep) ↔ a.Buries a.target 0 := substitute_tooDeep_iff List.length_replicate
  unfold substituteAny
  cases disallowAny with
  | false => exact filled _
  | true =>
    rw [← filled (omittedAny true pos none written).1]
    dsimp only
    constructor
    · rintro ⟨report, member, deep⟩
      rcases List.mem_append.1 member with omitted | cut
      · rw [if_pos rfl] at omitted
        exact absurd deep (omittedAny_notDeep omitted)
      · exact ⟨report, cut, deep⟩
    · rintro ⟨report, cut, deep⟩
      exact ⟨report, List.mem_append_right _ cut, deep⟩

/-- Expanding an alias reports that something is nested too deep exactly if the alias is generic and its target buries
something. -/
theorem expand_tooDeep_iff {args : List Ty} (takes : a.Takes args.length) (pos : Position) (written : String)
    (disallowAny : Bool) :
    (∃ report ∈ (a.expand args pos (some written) disallowAny).2, report.problem.IsTooDeep) ↔
      a.formals ≠ [] ∧ a.Buries a.target 0 := by
  by_cases generic : a.formals = []
  · have use : args = [] ∨ (a.isBare ∧ a.targetClass?.isSome) := by
      rcases takes with none | same | ⟨_, bare⟩
      · exact .inl (List.length_eq_zero_iff.1 none)
      · exact .inl (List.length_eq_zero_iff.1 (by rw [same, generic, List.length_nil]))
      · exact .inr bare
    have quiet : (a.expand args pos (some written) disallowAny).2 = [] := by
      unfold expand
      rcases use with rfl | ⟨bare, isInstance⟩
      · rw [generic]
        dsimp only
        split <;> rfl
      · obtain ⟨head, isInstance⟩ := Option.isSome_iff_exists.1 isInstance
        rw [generic, bare, isInstance]
        cases args <;> rfl
    simp [quiet, generic]
  · rw [and_iff_right generic]
    rcases takes with none | same | ⟨closed, _⟩
    · rw [List.length_eq_zero_iff.1 none, expand_omitted generic]
      exact substituteAny_tooDeep_iff written disallowAny
    · rw [expand_applied generic same]
      exact substitute_tooDeep_iff same
    · exact absurd closed generic

end AliasDecl

/-- In the scope `s`, `m` gives `a` and reports `reports`. -/
def Resolve.Makes {α : Type} (m : Resolve α) (s : Scope) (a : α) (reports : List Diagnostic) : Prop :=
  ∃ q, m (.start s) = some (a, q) ∧ q.reports = reports

namespace Resolve.Makes

variable {α β : Type} {s : Scope}

theorem pure (a : α) : Makes (Pure.pure a) s a [] := ⟨.start s, rfl, rfl⟩

theorem reportAll (reports : List Diagnostic) : Makes (Resolve.reportAll reports) s () reports :=
  ⟨{ Progress.start s with reports := reports }, rfl, rfl⟩

theorem useAliases (names : List String) : Makes (Resolve.useAliases names) s () [] :=
  ⟨{ Progress.start s with aliasesUsed := names.foldl addDistinct [] }, rfl, rfl⟩

theorem bind {m : Resolve α} {f : α → Resolve β} [Steady m] [∀ a, Steady (f a)] {a : α} {b : β}
    {before after : List Diagnostic} (first : Makes m s a before) (next : Makes (f a) s b after) :
    Makes (m >>= f) s b (before ++ after) := by
  obtain ⟨q, ran, rfl⟩ := first
  obtain ⟨q', ran', rfl⟩ := next
  refine ⟨q.join q', ?_, rfl⟩
  rw [run_bind, ran, Option.bind_some, ran', Option.bind_some]

end Resolve.Makes

namespace Resolver

variable {r : Resolver} {s : Scope}

/-- What the repair of an expansion reports. -/
def repairReports (r : Resolver) (written : String) : Ty → List Diagnostic
  | .inst i => if r.flags.definingAlias then [] else (fixInstance i r.disallowsOmitted true (some written)).2
  | _ => []

theorem repairReports_notDeep {written : String} {t : Ty} {report : Diagnostic}
    (member : report ∈ r.repairReports written t) : ¬ report.problem.IsTooDeep := by
  cases t with
  | inst i =>
    simp only [repairReports] at member
    split at member
    · cases member
    · exact fixInstance_notDeep member
  | _ => cases member

theorem fixArity_makes (i : Instance) (written : String) :
    Makes (r.fixArity i true (some written)) s (r.repaired i true (some written)) (r.repairReports written (.inst i)) := by
  unfold fixArity repaired repairReports
  split
  · exact .pure i
  · have fixed := (Makes.reportAll (s := s) (fixInstance i r.disallowsOmitted true (some written)).2).bind
      (f := fun _ => pure (fixInstance i r.disallowsOmitted true (some written)).1) (.pure _)
    rwa [List.append_nil] at fixed

theorem aliasResult_makes (written : String) (t : Ty) :
    Makes (r.aliasResult written t) s (r.repairedRoot written t) (r.repairReports written t) := by
  cases t with
  | inst i =>
    have fixed := (fixArity_makes (r := r) (s := s) i written).bind (f := fun i => pure (Ty.inst i)) (.pure _)
    rwa [List.append_nil] at fixed
  | _ => exact .pure _

theorem subscriptReports_notDeep {fullname : String} {ref : Reference} {report : Diagnostic}
    (member : report ∈ r.subscriptReports fullname ref) : ¬ report.problem.IsTooDeep := by
  unfold subscriptReports at member
  split at member
  · rw [List.mem_singleton.1 member]
    unfold subscriptProblem
    dsimp only
    repeat' split
    all_goals exact nofun
  · cases member

variable {again : Recursion} [again.Steady]

/-- What a use of an alias makes and reports when its arguments are resolved silently. -/
theorem aliasUse_makes (noHooks : r.hooks = .empty) {ref : Reference} {symbol : Symbol} {decl : AliasDecl}
    (found : r.table.lookup ref.name = some symbol) (defined : symbol.definition = some (.aliasDef decl))
    (plain : SpecialForm.ofName? symbol.fullname = none) {level : Nesting} (inLiteral : Bool) {args : List Ty}
    (silent : Makes (again.args ref.args level) s args []) :
    Makes (r.plainReference again ref level inLiteral) s
      (r.repairedRoot ref.name (decl.expand args ref.pos (some ref.name) r.disallowsOmitted).1)
      (r.subscriptReports symbol.fullname ref ++ ((decl.expand args ref.pos (some ref.name) r.disallowsOmitted).2 ++
        r.repairReports ref.name (decl.expand args ref.pos (some ref.name) r.disallowsOmitted).1)) := by
  have expanded : Makes (r.aliasType again decl symbol.fullname ref level) s
      (r.repairedRoot ref.name (decl.expand args ref.pos (some ref.name) r.disallowsOmitted).1)
      ([] ++ ([] ++ ((decl.expand args ref.pos (some ref.name) r.disallowsOmitted).2 ++
        r.repairReports ref.name (decl.expand args ref.pos (some ref.name) r.disallowsOmitted).1))) := by
    rw [aliasType_eq]
    refine (Makes.useAliases _).bind (silent.bind ?_)
    exact (Makes.reportAll _).bind (aliasResult_makes ref.name _)
  have subscripted : Makes (if (builtinReplacement? symbol.fullname).isSome && !ref.args.isEmpty &&
      !r.flags.allowUnnormalized then report ref.pos (subscriptProblem symbol.fullname !r.flags.definingAlias)
      else pure ()) s () (r.subscriptReports symbol.fullname ref) := by
    unfold subscriptReports
    split
    · exact .reportAll _
    · exact .pure _
  unfold plainReference
  simp only [found, defined]
  rw [symbolType_eq noHooks]
  simp only [plain]
  refine subscripted.bind ?_
  exact expanded

/-- A use of an alias with silently resolved arguments reports that something is nested too deep exactly if the alias is
generic and its target, outside of the formals, holds a type with parts that stands too deep. Where it does not, all
formals are substituted and nothing is cut off. -/
theorem aliasUse_tooDeep_iff (noHooks : r.hooks = .empty) {ref : Reference} {symbol : Symbol} {decl : AliasDecl}
    (found : r.table.lookup ref.name = some symbol) (defined : symbol.definition = some (.aliasDef decl))
    (plain : SpecialForm.ofName? symbol.fullname = none) (takes : decl.Takes ref.args.length) {level : Nesting}
    (shallow : level.level ≤ maxNesting) {bound : Nat} {args : List Ty}
    (silent : Makes ((r.recursion bound).args ref.args level) s args []) :
    ∃ t reports, Makes ((r.recursion (bound + 1)).expr (.named ref) level) s t reports ∧
      ((∃ report ∈ reports, report.problem.IsTooDeep) ↔ decl.formals ≠ [] ∧ decl.Buries decl.target 0) ∧
      (decl.formals ≠ [] → ref.args.length = decl.formals.length → ¬ decl.Buries decl.target 0 →
        let whole := r.repairedRoot ref.name
          (AliasDecl.openFlexible (replaceFormals decl.formals args ref.pos decl.target))
        t = if ref.optional then whole.makeOptional else whole) := by
  have sameNumber : args.length = ref.args.length := by
    obtain ⟨q, ran, _⟩ := silent
    have yields : Yields (fun _ => True) ((r.recursion bound).args ref.args level) s args := ⟨q, ran, fun _ _ => trivial⟩
    exact yields.mapM.length_eq.symm
  have used := aliasUse_makes noHooks found defined plain false silent
  have deep := AliasDecl.expand_tooDeep_iff (sameNumber ▸ takes) ref.pos ref.name r.disallowsOmitted
  have applied (generic : decl.formals ≠ []) (number : args.length = decl.formals.length) :=
    AliasDecl.expand_applied generic number ref.pos (some ref.name) r.disallowsOmitted
  generalize decl.expand args ref.pos (some ref.name) r.disallowsOmitted = expanded at used deep applied
  obtain ⟨q, ran, reported⟩ := used.bind (f := fun t => pure (if ref.optional then t.makeOptional else t)) (.pure _)
  let whole := r.repairedRoot ref.name expanded.1
  refine ⟨if ref.optional then whole.makeOptional else whole, q.reports, ⟨q, ?_, rfl⟩, ?_, fun generic number uncut => ?_⟩
  · change r.expr (r.recursion bound) (.named ref) level (.start s) = _
    rw [expr_eq, if_neg (by omega)]
    exact ran
  · rw [reported, ← deep, List.append_nil]
    constructor
    · rintro ⟨report, member, tooDeep⟩
      rcases List.mem_append.1 member with subscript | member
      · exact absurd tooDeep (subscriptReports_notDeep subscript)
      · rcases List.mem_append.1 member with here | repair
        · exact ⟨report, here, tooDeep⟩
        · exact absurd tooDeep (repairReports_notDeep repair)
    · rintro ⟨report, here, tooDeep⟩
      exact ⟨report, List.mem_append_right _ (List.mem_append_left _ here), tooDeep⟩
  · have sameFormals : args.length = decl.formals.length := sameNumber.trans number
    have notCut : (substituteAt decl.formals args ref.pos decl.target 0).2 = false :=
      Bool.eq_false_iff.2 fun cut => uncut ((AliasDecl.substituteAt_cut_iff sameFormals decl.target 0).1 cut)
    have kept : expanded.1 = AliasDecl.openFlexible (replaceFormals decl.formals args ref.pos decl.target) := by
      rw [applied generic sameFormals]
      unfold substitute
      rw [substituteAt_uncut notCut]
    simp only [whole, kept]

/-- `t` in so many boxes, as it is written. -/
def boxed (t : Ty) : Nat → Ty
  | 0 => t
  | n + 1 => .named (.of "Box" [boxed t n])

/-- `t` in so many boxes. -/
def Boxes (t : Ty) : Nat → Ty
  | 0 => t
  | n + 1 => .inst (.of ⟨"m.Box", ["T"], false⟩ [Boxes t n] .unknown)

/-- A module with a generic class `Box` and a type variable `T`. -/
def withBoxes : Resolver :=
  { ofPrelude "m" with
    table := ((SymbolTable.withPrelude "m").define (.typeVarDef (.plain "m.T"))).define (.classDef (.generic "m.Box" ["T"])) }

theorem lt_allowance (r : Resolver) {n : Nat} {t : Ty} (heavy : n ≤ t.weight) : n < r.allowance t := by
  have limit : 4 * (maxNesting + 2) = 408 := rfl
  have squared := Nat.le_mul_self (r.table.weight + t.weight + 1)
  unfold allowance
  rw [limit]
  dsimp only
  omega

/-- There is recursion for at least as many calls as an expression has parts. -/
theorem resolve_of_heavy {n : Nat} {t a : Ty} {p q : Progress} (heavy : n ≤ t.weight)
    (ran : ∀ bound, (r.recursion (bound + 1 + n)).expr t .top p = some (a, q)) (complete : q.status = .complete) :
    r.resolve t p = some (⟨a, .complete⟩, q) := by
  obtain ⟨bound, atBound⟩ : ∃ bound, r.allowance t = bound + 1 + n := by
    have := r.lt_allowance heavy
    exact ⟨r.allowance t - (n + 1), by omega⟩
  unfold resolve
  rw [atBound]
  change ((r.recursion (bound + 1 + n)).expr t .top p).bind _ = _
  rw [ran bound]
  change some ((⟨a, q.status⟩ : Resolution), { q with status := .complete }) = _
  rw [← complete]

theorem le_weight_boxed (t : Ty) (n : Nat) : n ≤ (boxed t n).weight := by
  induction n with
  | zero => exact Nat.zero_le _
  | succ n ih =>
    have child : boxed t n ∈ (boxed t (n + 1)).children := List.mem_singleton_self _
    exact Nat.lt_of_le_of_lt ih (Ty.weight_child_lt child)

/-- `Box` means the class of boxes, for which there is no hook. -/
structure KnowsBoxes (r : Resolver) : Prop where
  found : r.table.lookup "Box" = some (.of (.classDef (.generic "m.Box" ["T"])))
  noHook : r.hooks.find? "m.Box" = none

section Boxes

variable (knows : r.KnowsBoxes)

include knows

theorem expr_box (again : Recursion) (t : Ty) {level : Nesting} (within : level.level ≤ maxNesting) :
    r.expr again (boxed t 1) level = again.expr t level.deeper >>= fun a => pure (Boxes a 1) := by
  have counted (a : Ty) : r.fixArity (.of ⟨"m.Box", ["T"], false⟩ [a] .unknown) false none =
      pure (.of ⟨"m.Box", ["T"], false⟩ [a] .unknown) := by
    unfold fixArity fixInstance
    split
    · rfl
    · rw [if_pos (by rfl)]
      exact reportAll_nil_bind _
  have asClass : r.symbolType again (.classDef (.generic "m.Box" ["T"])) "m.Box" (.of "Box" [t]) level false =
      r.classType again (.generic "m.Box" ["T"]) [t] .unknown level := by
    rw [symbolType_formOrDefined knows.noHook]
    rfl
  have asInstance : r.classType again (.generic "m.Box" ["T"]) [t] .unknown level =
      again.expr t level.deeper >>= fun a => pure (Boxes a 1) := by
    rw [classType_eq, if_neg nofun, classInstance_eq, Recursion.args, List.mapM_cons, List.mapM_nil]
    simp only [bind_assoc, pure_bind]
    refine congrArg (again.expr t level.deeper >>= ·) (funext fun a => ?_)
    exact congrArg (· >>= fun i => classBase again (.generic "m.Box" ["T"]) [t] .unknown level i) (counted a)
  have found : r.table.lookup (Reference.of "Box" [t]).name = some (.of (.classDef (.generic "m.Box" ["T"]))) := knows.found
  rw [expr_eq, if_neg (Nat.not_lt.2 within)]
  change r.plainReference again (.of "Box" [t]) level false >>= pure = _
  rw [bind_pure, plainReference_of_symbol found rfl rfl]
  exact asClass.trans asInstance

/-- What stands in boxes is resolved as many levels deeper. -/
theorem expr_boxed {bound n : Nat} {t a : Ty} {level : Nesting} {p q : Progress}
    (within : level.level + n ≤ maxNesting + 1)
    (ran : (r.recursion bound).expr t ⟨level.level + n⟩ p = some (a, q)) :
    (r.recursion (bound + n)).expr (boxed t n) level p = some (Boxes a n, q) := by
  induction n generalizing level with
  | zero => exact ran
  | succ n ih =>
    have below : level.deeper.level + n = level.level + (n + 1) := by
      change level.level + 1 + n = _
      omega
    have inside : (r.recursion (bound + n)).expr (boxed t n) level.deeper p = some (Boxes a n, q) :=
      ih (below ▸ within) (below ▸ ran)
    change r.expr (r.recursion (bound + n)) (boxed (boxed t n) 1) level p = _
    rw [expr_box knows _ _ (by omega)]
    change ((r.recursion (bound + n)).expr (boxed t n) level.deeper p).bind _ = _
    rw [inside]
    rfl

theorem resolve_boxed {n : Nat} {t a : Ty} {p q : Progress} (within : n ≤ maxNesting + 1)
    (ran : ∀ bound, (r.recursion (bound + 1)).expr t ⟨n⟩ p = some (a, q)) (complete : q.status = .complete) :
    r.resolve (boxed t n) p = some (⟨Boxes a n, .complete⟩, q) := by
  refine resolve_of_heavy (le_weight_boxed t n) (fun bound => ?_) complete
  have level : Nesting.top.level + n = n := Nat.zero_add n
  exact expr_boxed knows (by rwa [level]) (by rw [level]; exact ran bound)

end Boxes

/-- `A = Box[T]` -/
def boxAlias : AliasDecl := ⟨"m.A", Boxes (.named (.of "T" [])) 1, ["T"], false, []⟩

/-- `A[int]` -/
def boxAliasUse : Reference := .of "A" [.named (.of "int" [])]

/-- `A[int]` comes out whole. -/
theorem aliasUse_tooDeep_iff_box :
    ∃ reports, Makes (((withBoxes.withAlias boxAlias).recursion 3).expr (.named boxAliasUse) .top) .root
        (Boxes (.inst (.of (.plain "builtins.int") [] .unknown)) 1) reports ∧
      ¬ ∃ report ∈ reports, report.problem.IsTooDeep := by
  have found : (withBoxes.withAlias boxAlias).table.lookup boxAliasUse.name = some (.of (.aliasDef boxAlias)) := rfl
  have shallow : (Nesting.top).level ≤ maxNesting := Nat.zero_le _
  have silent : Makes (((withBoxes.withAlias boxAlias).recursion 2).args boxAliasUse.args .top) .root
      [.inst (.of (.plain "builtins.int") [] .unknown)] [] := ⟨_, rfl, rfl⟩
  have uncut : ¬ boxAlias.Buries boxAlias.target 0 := by
    rintro (⟨_, _, deep⟩ | ⟨_, member, buries⟩)
    · cases deep
    · rw [List.mem_singleton.1 member] at buries
      exact buries.notFormal "T" rfl (List.mem_singleton_self _)
  obtain ⟨t, reports, made, tooDeep, whole⟩ :=
    aliasUse_tooDeep_iff rfl found rfl rfl (.inr (.inl rfl)) shallow silent
  rw [whole (List.cons_ne_nil _ _) rfl uncut] at made
  exact ⟨reports, made, fun deep => uncut (tooDeep.1 deep).2⟩

set_option maxRecDepth 4000 in
/-- `A` is a `T` in 65 boxes, and `B = A[A[T]]` is one in 130. Both are resolved without a complaint, but `B[int]` comes
out with what stands below 128 boxes cut off. -/
theorem defineThenUse_cut :
    ∃ first second used q q' q'',
      withBoxes.resolveAlias .root (boxed (.named (.of "T" [])) 65) = some (⟨first, .complete⟩, q) ∧ q.reports = [] ∧
      (withBoxes.withAlias ⟨"m.A", first, ["T"], false, q.aliasesUsed⟩).resolveAlias .root
        (.named (.of "A" [.named (.of "A" [.named (.of "T" [])])])) = some (⟨second, .complete⟩, q') ∧ q'.reports = [] ∧
      ((withBoxes.withAlias ⟨"m.A", first, ["T"], false, q.aliasesUsed⟩).withAlias
          ⟨"m.B", second, ["T"], false, q'.aliasesUsed⟩).resolve
        (.named (.of "B" [.named (.of "int" [])])) (.start .root) = some (⟨used, .complete⟩, q'') ∧
      used = Boxes (.anyAt .error .unknown) 128 ∧ q''.reports = [⟨.unknown, .cutOff⟩] := by
  have first : withBoxes.resolveAlias .root (boxed (.named (.of "T" [])) 65) =
      some (⟨Boxes (.named (.of "T" [])) 65, .complete⟩, .start .root) :=
    resolve_boxed (r := withBoxes.forAliases) ⟨rfl, rfl⟩ (by decide) (fun _ => rfl) rfl
  exact ⟨_, Boxes (.named (.of "T" [])) 130, Boxes (.anyAt .error .unknown) 128, _, ⟨.root, .complete, ["m.A"], []⟩,
    ⟨.root, .complete, ["m.B", "m.A"], [⟨.unknown, .cutOff⟩]⟩, first, rfl, rfl, rfl, rfl, rfl, rfl⟩

end Resolver

end TypeResolution
