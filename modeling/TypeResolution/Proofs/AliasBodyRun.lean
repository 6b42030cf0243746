import TypeResolution.Proofs.AliasBody

namespace TypeResolution

open Resolve

namespace Resolver

variable {r : Resolver} {after : SymbolTable} {s : Scope} {ends : Prop}

/-- What is asked of an expression is mirrored if its form is, one call deeper. -/
theorem mirrors_expr {r' : Resolver} {n m : Nat} {t t' : Ty} {level : Nesting} {R : Ty → Ty → Prop} (some : ends → 0 < m)
    (form : ∀ k, m = k + 1 → Mirrors ends s (r.form (r.recursion n) t level) (r'.form (r'.recursion k) t' level) R) :
    Mirrors ends s ((r.recursion (n + 1)).expr t level) ((r'.recursion m).expr t' level) R := by
  cases m with
  | zero => exact .of_stuck fun holds => Nat.lt_irrefl 0 (some holds)
  | succ m =>
    change Mirrors ends s (r.expr (r.recursion n) t level) (r'.expr (r'.recursion m) t' level) R
    rw [expr_eq, expr_eq]
    by_cases deep : maxNesting < level.level
    · rw [if_pos deep]
      exact .of_loud fun _ quiet => not_silent_failAt quiet.yields
    · rw [if_neg deep, if_neg deep]
      exact form m rfl

theorem mirrors_settled {r' : Resolver} {t : Ty} (settled : t.isSettled) {R : Ty → Ty → Prop} (related : R t t) {n m : Nat}
    (enough : ends → n ≤ m) (level : Nesting) :
    Mirrors ends s ((r.recursion n).expr t level) ((r'.recursion m).expr t level) R := by
  cases n with
  | zero => exact .of_loud fun _ quiet => quiet.yields.stuck
  | succ n =>
    refine mirrors_expr (fun holds => Nat.zero_lt_of_lt (enough holds)) fun k _ => ?_
    rw [form_of_settled settled, form_of_settled settled]
    exact .pure related

/-- An instance with the right number of arguments needs no repair. -/
theorem fixArity_of_counted {i : Instance} (counted : r.flags.definingAlias = false → i.hasExpectedArity) (fromAlias : Bool)
    (written : Option String) : r.fixArity i fromAlias written = pure i := by
  unfold fixArity fixInstance
  split
  · rfl
  · rename_i using_
    rw [if_pos (counted (Bool.eq_false_iff.2 using_))]
    exact reportAll_nil_bind _

/-- What an alias stands for without more ado is the result. -/
theorem aliasResult_of_firm {t : Ty} (firm : r.Firm t) (written : String) : r.aliasResult written t = pure t := by
  cases t with
  | inst i =>
    unfold aliasResult
    dsimp only
    rw [fixArity_of_counted firm.right]
    rfl
  | _ => rfl

section Instances

variable (same : r.table.SameClasses after)

include same

theorem instanceOf?_same (fullname : String) (args : List Ty) (pos : Position) :
    (r.withTable after).instanceOf? fullname args pos = r.forAliases.instanceOf? fullname args pos := by
  unfold instanceOf?
  rw [show (r.withTable after).table.findClass? fullname = r.forAliases.table.findClass? fullname from
    same.findClass fullname]

theorem literalOf_same (value : LiteralValue) (className : String) (pos : Position) :
    (r.withTable after).literalOf value className pos = r.forAliases.literalOf value className pos := by
  have required (fullname : String) :
      (r.withTable after).requiredInstance fullname pos = r.forAliases.requiredInstance fullname pos := by
    unfold requiredInstance
    rw [instanceOf?_same same, show (r.withTable after).table.isIncomplete _ = r.forAliases.table.isIncomplete _ from
      same.isIncomplete _]
  rw [literalOf_eq, literalOf_eq, required]
  rfl

end Instances

/-- A signature that declares no variables, and in which there are none to declare, is resolved in the frame that is opened
for it. -/
theorem inner_of_noVariable (signature : Signature) (declaresNone : signature.bindings = [])
    (noUse : r.flags.definingAlias = false → inferTypeVariables r.table s.functionFrame signature = []) :
    r.innerScope s signature = s.functionFrame ∧ r.innerBindings s signature = [] ∧ r.innerReports s signature = [] := by
  unfold innerScope innerBindings innerReports
  cases using_ : r.flags.definingAlias with
  | true => exact ⟨rfl, declaresNone, rfl⟩
  | false =>
    simp only [Bool.false_eq_true, if_false, Scope.bindSignature, declaresNone, List.isEmpty_nil, if_true, noUse using_]
    exact ⟨rfl, rfl, rfl⟩

section Parts

variable {again again' : Recursion} [again.Steady] [again'.Steady] {R : Ty → Ty → Prop} {change : Ty → Ty} {level : Nesting}

theorem mirrors_args (ts : List Ty)
    (each : ∀ t ∈ ts, Mirrors ends s (again.arg t level) (again'.arg (change t) level) R) :
    Mirrors ends s (again.args ts level) (again'.args (ts.map change) level) (List.Forall₂ R) :=
  .mapM ts each

theorem mirrors_fields {P : Ty → Prop} (fields : List (String × Ty))
    (each : ∀ field ∈ fields, Mirrors ends s (again.arg field.2 level) (again'.arg field.2 level) fun a c => P a ∧ a = c) :
    Mirrors ends s (again.fields fields level) (again'.fields fields level) fun as cs => (∀ a ∈ as, P a.2) ∧ as = cs := by
  refine .mapM_same fields fun field atField => ?_
  exact (each field atField).map fun a _ _ _ made => ⟨made.1, by rw [made.2]⟩

/-- A signature with other arguments and another result, resolved in a frame that looks like that of the first one. -/
theorem mirrors_signature {signature signature' : Signature} (level inner : Nesting) (same : r.table.SameClasses after)
    (changed : signature' = { signature with args := signature.args.map change, ret := change signature.ret })
    (declaresNone : signature.bindings = [])
    (noUse : r.flags.definingAlias = false → inferTypeVariables after s.functionFrame signature' = [])
    (each : ∀ t ∈ (Ty.callable signature).children,
      Mirrors ends s.functionFrame (again.expr t inner) (again'.expr (change t) inner) R) :
    Mirrors ends s (r.forAliases.signature again signature level inner)
      ((r.withTable after).signature again' signature' level inner) fun a c =>
      ∃ as cs ret ret' fallback, List.Forall₂ R as cs ∧ R ret ret' ∧
        a = .callable { signature with args := as, ret := ret, fallback := fallback, bindings := [] } ∧
        c = .callable { signature with args := cs, ret := ret', fallback := fallback, bindings := [] } := by
  subst changed
  obtain ⟨scope, bindings, reports⟩ := inner_of_noVariable (r := r.forAliases) (s := s) signature declaresNone nofun
  obtain ⟨scope', bindings', reports'⟩ := inner_of_noVariable (r := r.withTable after) (s := s)
    { signature with args := signature.args.map change, ret := change signature.ret } declaresNone noUse
  rw [signature_within, signature_within]
  refine .scopeThen ?_
  rw [scope, bindings, reports, scope', bindings', reports', reportAll_nil_bind, reportAll_nil_bind]
  refine .within ?_
  unfold signatureParts
  refine (Mirrors.mapM signature.args fun t member => each t (List.mem_append_left _ member)).bind fun as cs _ _ related => ?_
  refine (each signature.ret (List.mem_append_right _ (List.mem_singleton_self _))).bind fun ret ret' _ _ atRet => ?_
  dsimp only
  rw [instanceOf?_same same]
  exact .pure ⟨as, cs, ret, ret', _, related, atRet, rfl, rfl⟩

end Parts

/-- Both runs come to the same type, in which nothing has a name. -/
def SameClosed (a c : Ty) : Prop := a.WellMade [] ∧ a = c

/-- The parts of a class are of the same types for an alias as they are in its use. -/
theorem mirrors_finished (same : r.table.SameClasses after) {n m : Nat} (enough : ends → n ≤ m) {t : Ty}
    (finished : t.Everywhere Ty.IsFinished) (flat : t.Everywhere Ty.FlatUnion) (right : t.Everywhere Ty.RightCount)
    (s : Scope) (level : Nesting) :
    Mirrors ends s ((r.forAliases.recursion n).expr t level) (((r.withTable after).recursion m).expr t level) SameClosed := by
  induction n generalizing m t s level with
  | zero => exact .of_loud fun _ quiet => quiet.yields.stuck
  | succ n ih =>
    refine mirrors_expr (fun holds => Nat.zero_lt_of_lt (enough holds)) ?_
    rintro k rfl
    have below {c : Ty} (member : c ∈ t.children) (s : Scope) (level : Nesting) :
        Mirrors ends s ((r.forAliases.recursion n).expr c level) (((r.withTable after).recursion k).expr c level) SameClosed :=
      ih (fun holds => Nat.le_of_succ_le_succ (enough holds)) (finished.child member) (flat.child member)
        (right.child member) s level
    have closed : t.WellMade [] := ⟨flat, finished.imp fun _ finished => Ty.openIn_of_nameless finished.nameless, right⟩
    cases t with
    | any | noneType | never | deleted | inst | literal => exact .pure ⟨closed, rfl⟩
    | typeVar => exact finished.root.notVariable.elim
    | named | bracketed | argument | ellipsis | scalar | forward => cases finished.root.resolved
    | callable signature =>
      have declaresNone : signature.bindings = [] := finished.root.declaresNone
      have noUse : inferTypeVariables after s.functionFrame signature = [] := by
        refine inferTypeVariables_eq_nil fun ref decl inside _ => ?_
        cases (finished.of_inside inside).root.resolved
      have unchanged : signature = { signature with args := signature.args.map id, ret := id signature.ret } := by
        cases signature
        rw [List.map_id, id]
      have made := mirrors_signature level level.deeper same unchanged declaresNone (fun _ => noUse)
        fun t member => below member s.functionFrame level.deeper
      refine made.mono ?_
      rintro _ _ _ _ ⟨as, cs, ret, ret', fallback, related, ⟨closed, rfl⟩, rfl, rfl⟩
      obtain ⟨all, rfl⟩ := List.forall₂_eq_eq_eq ▸ (List.forall₂_and_left _ _).1 related
      refine ⟨.of rfl rfl trivial fun c member => ?_, rfl⟩
      rcases List.mem_append.1 member with atArg | atRet
      · exact all c atArg
      · exact List.mem_singleton.1 atRet ▸ closed
    | tuple shape =>
      change Mirrors ends s (r.forAliases.tupleType _ shape level) ((r.withTable after).tupleType _ shape level) SameClosed
      unfold tupleType
      rw [show (r.withTable after).flags.allowTupleLiteral = r.forAliases.flags.allowTupleLiteral from rfl]
      split
      · exact .of_report (List.cons_ne_nil _ _)
      · split
        · exact .of_report (List.cons_ne_nil _ _)
        · refine (Mirrors.mapM_same shape.items fun t member => below member s level.deeper).map fun items _ _ _ made => ?_
          obtain ⟨all, rfl⟩ := made
          exact ⟨.of rfl rfl trivial all, rfl⟩
    | record shape =>
      refine (mirrors_fields shape.fields fun field atField => below (List.mem_map_of_mem atField) s level.deeper).map
        fun fields _ _ _ made => ?_
      obtain ⟨all, rfl⟩ := made
      exact ⟨.of rfl rfl trivial (List.forall_mem_map.2 all), rfl⟩
    | star item pos =>
      refine (below (List.mem_singleton_self _) s level.deeper).map fun a _ _ _ made => ?_
      obtain ⟨closed, rfl⟩ := made
      exact ⟨.of rfl rfl trivial (List.forall_mem_singleton.2 closed), rfl⟩
    | union ms pos =>
      refine (Mirrors.mapM_same ms fun t member => below member s level.deeper).map fun items _ _ _ made => ?_
      obtain ⟨all, rfl⟩ := made
      exact ⟨(Ty.WellMade.ofMembers []).makeUnion all pos, rfl⟩
    | classObject item pos =>
      refine (below (List.mem_singleton_self _) s level.deeper).map fun a _ _ _ made => ?_
      obtain ⟨closed, rfl⟩ := made
      exact ⟨(Ty.WellMade.ofMembers []).makeClassObject closed pos, rfl⟩

end Resolver

end TypeResolution
