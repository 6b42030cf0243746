import TypeResolution.Proofs.ChangedParts
import TypeResolution.Proofs.EqualForms
import TypeResolution.Proofs.Prelude

namespace TypeResolution

open Resolve

/-- How far a run may go apart from another one that does the same, with more recursion and at levels that may differ. -/
structure Leeway where
  /-- The problems that the first run may report. -/
  allowed : Problem → Prop
  /-- The problems that the second run may pass over. -/
  omits : Problem → Bool
  /-- The levels of the first run, each with those that the second run may be at in its stead. -/
  reach : Nesting → Nesting → Prop
  deeper {level level' : Nesting} : reach level level' → reach level.deeper level'.deeper
  limit {level level' : Nesting} : reach level level' → allowed .nestedTooDeep →
    (maxNesting < level.level ↔ maxNesting < level'.level)
  shallow {level level' : Nesting} : reach level level' → level.level ≤ maxNesting → level'.level ≤ maxNesting
  place {level level' : Nesting} : reach level level' → level'.isTop = level.isTop ∨
    level'.isTop = true ∧ omits .nestedClassVar = true

namespace Leeway

/-- The same levels and the same reports. -/
def exact : Leeway where
  allowed _ := True
  omits _ := false
  reach level level' := level' = level
  deeper same := by rw [same]
  limit same _ := by rw [same]
  shallow same shallow := by rwa [same]
  place same := .inl (by rw [same])

/-- Levels that are not as deep, as long as the first run is not nested too deep. -/
def shallower : Leeway where
  allowed problem := problem ≠ .nestedTooDeep
  omits problem := problem = .nestedClassVar
  reach level level' := level'.level ≤ level.level
  deeper less := Nat.succ_le_succ less
  limit _ notDeep := absurd rfl notDeep
  shallow less shallow := Nat.le_trans less shallow
  place {level level'} less := by
    cases atTop : level'.isTop with
    | true => exact .inr ⟨rfl, by simp⟩
    | false =>
      refine .inl (Eq.symm ?_)
      simp only [Nesting.isTop, beq_eq_false_iff_ne] at atTop ⊢
      omega

/-- The second reports are the first, but for some that may be passed over. -/
structure Keeps (c : Leeway) (reports reports' : List Diagnostic) : Prop where
  among : reports'.Sublist reports
  others : reports'.filter (!c.omits ·.problem) = reports.filter (!c.omits ·.problem)

namespace Keeps

variable {c : Leeway}

theorem refl (reports : List Diagnostic) : c.Keeps reports reports := ⟨.refl _, rfl⟩

theorem append {before before' after after' : List Diagnostic} (first : c.Keeps before before')
    (next : c.Keeps after after') : c.Keeps (before ++ after) (before' ++ after') where
  among := first.among.append next.among
  others := by rw [List.filter_append, List.filter_append, first.others, next.others]

end Keeps

variable {c : Leeway} {α β : Type}

/-- Where the first step is over and reports nothing but what is allowed, the second does the same. -/
def follows (c : Leeway) : Sameness where
  same {α} (m m' : Resolve α) := ∀ s a q, m (.start s) = some (a, q) → (∀ report ∈ q.reports, c.allowed report.problem) →
    ∃ reports, m' (.start s) = some (a, { q with reports := reports }) ∧ c.Keeps q.reports reports
  refl m s a q ran _ := ⟨q.reports, ran, .refl _⟩
  bind {α β m m' f f' _ _ _ _} first next := by
    intro s b q ran reported
    rw [run_bind] at ran
    obtain ⟨⟨a, middle⟩, ranFirst, ranRest⟩ := Option.bind_eq_some_iff.1 ran
    obtain ⟨⟨_, last⟩, ranNext, made⟩ := Option.bind_eq_some_iff.1 ranRest
    cases made
    obtain ⟨reports, ranFirst', kept⟩ := first s a middle ranFirst fun report member =>
      reported report (List.mem_append_left _ member)
    obtain ⟨reports', ranNext', kept'⟩ := next a s _ last ranNext fun report member =>
      reported report (List.mem_append_right _ member)
    refine ⟨reports ++ reports', ?_, kept.append kept'⟩
    rw [run_bind, ranFirst', Option.bind_some, ranNext']
    rfl

theorem follows_stuck (m : Resolve α) : c.follows.same (fun _ => none) m := by
  rintro s a q ⟨⟩

theorem follows_within {m m' : Resolve α} (inside : c.follows.same m m') (inner : Scope) :
    c.follows.same (within inner m) (within inner m') := by
  intro s a q ran reported
  obtain ⟨⟨b, ended⟩, ranInside, same⟩ := Option.map_eq_some_iff.1 ran
  cases same
  obtain ⟨reports, ranInside', kept⟩ := inside inner _ ended ranInside reported
  refine ⟨reports, ?_, kept⟩
  change (m' (.start inner)).map _ = _
  rw [ranInside']
  rfl

theorem follows_placeReport {level level' : Nesting} (near : c.reach level level') (pos : Position) :
    c.follows.same (Resolver.placeReport pos level) (Resolver.placeReport pos level') := by
  unfold Resolver.placeReport
  rcases c.place near with same | ⟨atTop, omitted⟩
  · rw [same]
    exact c.follows.refl _
  · rw [if_pos atTop]
    cases level.isTop with
    | true => exact c.follows.refl _
    | false =>
      rintro s a q ⟨⟩ _
      exact ⟨[], rfl, List.nil_sublist _, by simp [omitted, Progress.start]⟩

end Leeway

/-- Steps for the elements of a list that are the same are collected to the same. -/
theorem Resolve.Sameness.collectWhile {c : Sameness} {α β : Type} {f f' : α → Resolve (Option (List β))} [∀ x, Steady (f x)]
    [∀ x, Steady (f' x)] (each : ∀ x, c.same (f x) (f' x)) (xs : List α) :
    c.same (TypeResolution.collectWhile f xs) (TypeResolution.collectWhile f' xs) := by
  induction xs with
  | nil => exact c.refl _
  | cons x xs ih =>
    rw [collectWhile_cons, collectWhile_cons]
    refine c.bind (each x) fun found => ?_
    cases found with
    | none => exact c.refl _
    | some found => exact Sameness.andThen ih _

/-- The recursive calls of the second recursion do what those of the first do, at any levels that may stand for theirs. -/
structure Recursion.Follows (c : Leeway) (again again' : Recursion) : Prop where
  expr {level level' : Nesting} (near : c.reach level level') (t : Ty) :
    c.follows.same (again.expr t level) (again'.expr t level')
  literalName {level level' : Nesting} (near : c.reach level level') (ref : Reference) :
    c.follows.same (again.literalName ref level) (again'.literalName ref level')
  literals {level level' : Nesting} (near : c.reach level level') (index : Nat) (t : Ty) (pos : Position) :
    c.follows.same (again.literals index t pos level) (again'.literals index t pos level')

theorem Reference.mapArgs_id (ref : Reference) : ref.mapArgs id = ref := by
  rw [Reference.mapArgs, List.map_id]
  cases ref
  rfl

/-- `(ClassVar[int]) -> None` -/
def takingClassVar : Signature :=
  .of [.named (.of "typing.ClassVar" [.named (.of "int" [])])] [.positional] [none] (.noneType .unknown)

namespace Resolver

variable {r : Resolver} {c : Leeway} {again again' : Recursion} [again.Steady] [again'.Steady]
  {level level' inner inner' : Nesting}

section Forms

variable (follows : again.Follows c again') (near : c.reach level level')

include follows near

omit [again.Steady] [again'.Steady] in
theorem arg_follows (t : Ty) : c.follows.same (again.arg (id t) level) (again'.arg t level') :=
  follows.expr (c.deeper near) t

theorem typeVarBinding_follows (binding : TypeVarBinding) :
    c.follows.same (typeVarBinding again binding level) (typeVarBinding again' binding level') := by
  have values : c.follows.same (again.args binding.values level) (again'.args binding.values level') :=
    Sameness.mapM (arg_follows follows near) binding.values
  exact c.follows.bind values fun _ => Sameness.andThen (follows.expr near _) _

theorem signature_follows (inside : c.reach inner inner') (s : Signature) :
    c.follows.same (r.signature again s level inner) (r.signature again' s level' inner') := by
  rw [signature_within, signature_within]
  refine Sameness.after scope fun outer => Sameness.after _ fun _ => Leeway.follows_within ?_ _
  refine c.follows.bind (Sameness.mapM (follows.expr inside) s.args) fun args => ?_
  refine c.follows.bind (follows.expr inside s.ret) fun ret => ?_
  exact Sameness.andThen (Sameness.mapM (typeVarBinding_follows follows near) (r.innerBindings outer s)) _

theorem callableForm_follows (ref : Reference) :
    c.follows.same (r.callableForm again ref level) (r.callableForm again' ref level') := by
  rw [callableForm_eq, callableForm_eq]
  refine Sameness.after _ fun _ => ?_
  cases r.formSignature? ref with
  | none => exact c.follows.refl _
  | some signature => exact signature_follows follows near (c.deeper near) signature

theorem literalsOf_follows (index : Nat) (t : Ty) (pos : Position) :
    c.follows.same (r.literalsOf again index t pos level) (r.literalsOf again' index t pos level') := by
  unfold literalsOf
  split
  case h_7 members _ => exact Sameness.collectWhile (fun member => follows.literals near index member pos) members
  all_goals exact c.follows.refl _

theorem literals_follows (index : Nat) (t : Ty) (pos : Position) :
    c.follows.same (r.literals again index t pos level) (r.literals again' index t pos level') := by
  unfold literals
  split
  · rename_i ref
    split
    · exact c.follows.refl _
    · exact c.follows.bind (follows.literalName (c.deeper near) ref) fun resolved =>
        literalsOf_follows follows near index resolved pos
  · exact literalsOf_follows follows near index t pos

theorem literalForm_follows (ref : Reference) :
    c.follows.same (r.literalForm again ref level) (r.literalForm again' ref level') := by
  rw [literalForm_eq, literalForm_eq]
  split
  · exact c.follows.refl _
  · have each (numbered : Ty × Nat) := literals_follows (r := r) follows near numbered.2 numbered.1 ref.pos
    exact Sameness.andThen (Sameness.collectWhile each _) _

theorem typeVarType_follows (fullname : String) (ref : Reference) :
    c.follows.same (r.typeVarType again fullname ref level) (r.typeVarType again' fullname ref level') := by
  rw [typeVarType_eq, typeVarType_eq]
  refine Sameness.after scope fun s => ?_
  cases s.find? fullname with
  | some binding => exact c.follows.refl _
  | none =>
    unfold variableFound
    dsimp only
    split
    · exact c.follows.refl _
    · have noType := noType_changed (arg_follows follows near) ref
      rw [ref.mapArgs_id] at noType
      exact noType _ _

theorem symbolType_follows (noHooks : r.hooks = .empty) (d : Definition) (fullname : String) (ref : Reference)
    (inLiteral : Bool) :
    c.follows.same (r.symbolType again d fullname ref level inLiteral)
      (r.symbolType again' d fullname ref level' inLiteral) := by
  have kept := arg_follows follows near
  have form (form : SpecialForm) : c.follows.same (r.specialForm again form (ref.mapArgs id) level)
      (r.specialForm again' form ref level') := by
    refine specialForm_changed kept (fun _ _ => .rfl) (Leeway.follows_placeReport near) ref (fun _ => ?_) fun _ => ?_
    · rw [ref.mapArgs_id]
      exact callableForm_follows follows near ref
    · rw [ref.mapArgs_id]
      exact literalForm_follows follows near ref
  have defined := definedType_changed kept kept (r := r) (d := d) fullname ref inLiteral fun _ _ => by
    rw [ref.mapArgs_id]
    exact typeVarType_follows follows near fullname ref
  have whole := symbolType_changed (unhooked noHooks fullname) (fun isForm _ => form isForm) defined
  rwa [ref.mapArgs_id] at whole

theorem reference_follows (noHooks : r.hooks = .empty) (ref : Reference) (inLiteral : Bool) :
    c.follows.same (r.reference again ref level inLiteral) (r.reference again' ref level' inLiteral) := by
  have whole : c.follows.same (r.reference again (ref.mapArgs id) level inLiteral)
      (r.reference again' ref level' inLiteral) := by
    refine reference_changed (fun _ decl _ _ => pendingType_changed (arg_follows follows near) decl ref)
      fun symbol d _ _ _ => ?_
    rw [ref.mapArgs_id]
    exact symbolType_follows follows near noHooks d symbol.fullname ref inLiteral
  rwa [ref.mapArgs_id] at whole

theorem form_follows (noHooks : r.hooks = .empty) (t : Ty) :
    c.follows.same (r.form again t level) (r.form again' t level') := by
  have kept := arg_follows follows near
  have inPlace (opens : t.opensInPlace) : c.follows.same (r.form again t level) (r.form again' t level') := by
    have whole := form_changed (r := r) kept (fun _ => rfl) opens
    rwa [List.map_id, Ty.withChildren_children] at whole
  cases t with
  | named ref => exact reference_follows follows near noHooks ref false
  | callable s => exact signature_follows follows near (c.deeper near) s
  | forward fullname args pos =>
    unfold form forwardType
    dsimp only
    split
    · have asClass := classType_changed (r := r) kept kept
      simp only [List.map_id] at asClass
      exact asClass _ args pos
    · exact c.follows.refl _
    · exact c.follows.refl _
    · exact c.follows.refl _
  | tuple shape | record shape | star item pos | union members pos | classObject item pos =>
    exact inPlace rfl
  | _ => exact c.follows.refl _

theorem expr_follows (noHooks : r.hooks = .empty) (t : Ty) :
    c.follows.same (r.expr again t level) (r.expr again' t level') := by
  rw [expr_eq, expr_eq]
  split
  · rename_i deep
    intro s a q ran reported
    have failed : Yields c.allowed (failAt t.pos .nestedTooDeep) s a := ⟨q, ran, reported⟩
    have tooDeep := failed.failAt.1
    rw [if_pos ((c.limit near tooDeep).1 deep)]
    exact c.follows.refl _ s a q ran reported
  · rename_i notDeep
    rw [if_neg (Nat.not_lt.2 (c.shallow near (Nat.not_lt.1 notDeep)))]
    exact form_follows follows near noHooks t

end Forms

/-- With more recursion, and at levels that may stand for those of the first run, a run does the same. -/
theorem follows_recursion (c : Leeway) (noHooks : r.hooks = .empty) {bound bound' : Nat} (less : bound ≤ bound') :
    (r.recursion bound).Follows c (r.recursion bound') := by
  induction bound generalizing bound' with
  | zero =>
    exact ⟨fun _ _ => Leeway.follows_stuck _, fun _ _ => Leeway.follows_stuck _, fun _ _ _ _ => Leeway.follows_stuck _⟩
  | succ bound ih =>
    cases bound' with
    | zero => exact absurd less (Nat.not_succ_le_zero bound)
    | succ bound' =>
      have inside := ih (Nat.le_of_succ_le_succ less)
      exact ⟨fun near t => expr_follows inside near noHooks t, fun near ref => reference_follows inside near noHooks ref true,
        fun near index t pos => literals_follows inside near index t pos⟩

/-- A signature is resolved like the callable type of it, whose arguments and result stand one level deeper, unless that is
nested too deep: the level tells only whether `ClassVar` is out of place. -/
theorem signature_asCallable (noHooks : r.hooks = .empty) {signature : Signature} {s : Scope} {result : Resolution}
    {q : Progress} (ran : r.resolve (.callable signature) (.start s) = some (result, q))
    (shallow : ∀ report ∈ q.reports, report.problem ≠ .nestedTooDeep) :
    ∃ reports, r.resolveSignature signature (.start s) = some (result, { q with reports := reports }) ∧
      reports.Sublist q.reports ∧
      reports.filter (·.problem ≠ .nestedClassVar) = q.reports.filter (·.problem ≠ .nestedClassVar) := by
  obtain ⟨⟨t, made⟩, ranFirst, ended⟩ := Option.bind_eq_some_iff.1 ran
  cases ended
  obtain ⟨bound, atBound⟩ : ∃ bound, r.allowance (.callable signature) = bound + 1 := by
    refine Nat.exists_eq_succ_of_ne_zero fun none_ => ?_
    rw [none_] at ranFirst
    cases ranFirst
  rw [atBound] at ranFirst
  have asCallable : r.signature (r.recursion bound) signature .top Nesting.top.deeper (.start s) = some (t, made) := ranFirst
  have inside := follows_recursion Leeway.shallower noHooks (Nat.le_succ bound)
  have higher : Leeway.shallower.reach Nesting.top.deeper .top := Nat.zero_le 1
  have similar := signature_follows (r := r) inside (Nat.le_refl Nesting.top.level) higher signature
  obtain ⟨reports, asSignature, kept⟩ := similar s t made asCallable shallow
  refine ⟨reports, ?_, kept.among, by simpa [Leeway.shallower] using kept.others⟩
  unfold resolveSignature
  rw [atBound]
  change (r.signature (r.recursion (bound + 1)) signature .top .top (.start s)).bind _ = _
  rw [asSignature]
  rfl

/-- In `(ClassVar[int]) -> None` the argument stands at the top of the signature, and inside of the callable type. -/
theorem signature_asCallable_classVar :
    ∃ result q q', (ofPrelude "m").resolve (.callable takingClassVar) (.start .root) = some (result, q) ∧
      (ofPrelude "m").resolveSignature takingClassVar (.start .root) = some (result, q') ∧
      q.reports = [⟨.unknown, .nestedClassVar⟩] ∧ q'.reports = [] := by
  have inside : ((ofPrelude "m").resolve (.callable takingClassVar) (.start .root)).map (·.2.reports) =
      some [⟨.unknown, .nestedClassVar⟩] := by decide +kernel
  have atTop : ((ofPrelude "m").resolveSignature takingClassVar (.start .root)).map (·.2.reports) = some [] := by
    decide +kernel
  obtain ⟨⟨result, q⟩, ran, reported⟩ := Option.map_eq_some_iff.1 inside
  dsimp only at reported
  obtain ⟨reports, ranSignature, _⟩ := signature_asCallable rfl ran (by simp [reported])
  rw [ranSignature] at atTop
  exact ⟨result, q, _, ran, ranSignature, reported, Option.some.inj atTop⟩

end Resolver

end TypeResolution
