import TypeResolution.Proofs.ArgumentCount
import TypeResolution.Proofs.SameTypes

namespace TypeResolution

open Resolve

namespace Ty

/-- The class of an instance has the number of type variables that `arity` gives for its name. -/
def HeadOf (arity : String → Nat) : Ty → Prop
  | .inst i => i.head.arity = arity i.head.fullname
  | _ => True

theorem headOf_ofNodes (arity : String → Nat) : OfNodes (HeadOf arity) where
  inst {i j} sameHead _ known := by
    simp only [HeadOf] at known ⊢
    rw [sameHead, known]
  union _ _ := trivial
  move _ _ := trivial
  other {t} _ _ := by
    cases t <;> trivial

variable {arity : String → Nat}

/-- Types that equal each other have the right numbers of arguments together, if each class has one arity. -/
theorem rightCount_of_beq {a b : Ty} (equal : a.beq b = true) (headsA : a.Everywhere (HeadOf arity))
    (headsB : b.Everywhere (HeadOf arity)) (right : a.Everywhere RightCount) : b.Everywhere RightCount := by
  induction a using inductionOn generalizing b with
  | step a ih =>
    refine everywhere_iff.2 ⟨?_, fun d member => ?_⟩
    · cases matches_of_beq equal with
      | @inst i j equal =>
        obtain ⟨sameName, args, _⟩ := Instance.beq_iff.1 equal
        have known : i.head.arity = arity i.head.fullname := headsA.root
        have known' : j.head.arity = arity j.head.fullname := headsB.root
        have counted : i.hasExpectedArity := right.root
        simp only [Instance.hasExpectedArity, RightCount, beq_iff_eq] at counted ⊢
        rw [← args.length_eq, counted, known, known', sameName]
      | _ => trivial
    · obtain ⟨c, atSource, equal⟩ := child_of_beq equal member
      exact ih c atSource equal (headsA.child atSource) (headsB.child member) (right.child atSource)

theorem everywhere_of_members {P : Ty → Prop} (unions : ∀ ms pos, P (.union ms pos)) {t : Ty}
    (all : ∀ m ∈ t.members, m.Everywhere P) : t.Everywhere P := by
  induction t using inductionOn with
  | step t ih =>
    cases t with
    | union ms pos =>
      refine everywhere_iff.2 ⟨unions ms pos, fun c atChild => ih c atChild fun m member => all m ?_⟩
      rw [members, membersOfAll_eq]
      exact List.mem_flatMap.2 ⟨c, atChild, member⟩
    | _ => exact all _ (by rw [members_of_not_union rfl]; exact List.mem_singleton_self _)

/-- Something holds everywhere in a union only if it does in the items, as long as equal members share it: what is kept of
equal members is as good as the others. -/
theorem everywhere_of_makeUnion {P : Ty → Prop} (unions : ∀ ms pos, P (.union ms pos)) {ts : List Ty} {pos : Position}
    (shared : ∀ k ∈ ts.flatMap members, ∀ m ∈ ts.flatMap members, (k == m) = true → k.Everywhere P → m.Everywhere P)
    (all : (makeUnion ts pos).Everywhere P) : ∀ t ∈ ts, t.Everywhere P := by
  have kept : ∀ k ∈ firstOccurrences (ts.flatMap members), k.Everywhere P := by
    intro k atOnce
    unfold makeUnion at all
    split at all
    · rename_i none
      rw [none] at atOnce
      cases atOnce
    · rename_i t single
      rw [single] at atOnce
      rwa [List.mem_singleton.1 atOnce]
    · exact all.child atOnce
  intro t atItem
  refine everywhere_of_members unions fun m member => ?_
  have inAll : m ∈ ts.flatMap members := List.mem_flatMap.2 ⟨t, atItem, member⟩
  obtain ⟨k, atOnce, equal⟩ := kept_of_mem inAll
  exact shared k (mem_of_mem_firstOccurrences atOnce) m inAll equal (kept k atOnce)

/-- A union is right only if its items are: what is kept of equal members is as wrong as the others. -/
theorem rightCount_of_makeUnion {ts : List Ty} {pos : Position} (heads : ∀ t ∈ ts, t.Everywhere (HeadOf arity))
    (right : (makeUnion ts pos).Everywhere RightCount) : ∀ t ∈ ts, t.Everywhere RightCount := by
  have headsOfMember {m : Ty} (member : m ∈ ts.flatMap members) : m.Everywhere (HeadOf arity) := by
    obtain ⟨t, atItem, member⟩ := List.mem_flatMap.1 member
    exact (heads t atItem).of_inside (inside_of_mem_members t m member)
  refine everywhere_of_makeUnion (fun _ _ => trivial) (fun k first m second equal => ?_) right
  exact rightCount_of_beq equal (headsOfMember first) (headsOfMember second)

end Ty

namespace AliasDecl

/-- A part of the target at this depth is still there when something is substituted for the formals. -/
def Survives (a : AliasDecl) (t : Ty) (depth : Nat) : Prop :=
  (∀ name, t.formalName? = some name → name ∉ a.formals) ∧
    (a.formals = [] ∨ t.children = [] ∨ depth < maxSubstitutionDepth)

/-- The parts of a target that are there wherever the alias is used: those that stand in no formal and are not cut
off. -/
inductive Exposes (a : AliasDecl) (x : Ty) : Ty → Nat → Prop
  | here {depth : Nat} : a.Survives x depth → a.Exposes x x depth
  | inside {t c : Ty} {depth : Nat} : a.Survives t depth → c ∈ t.children → a.Exposes x c (depth + 1) →
      a.Exposes x t depth

theorem Exposes.survives {a : AliasDecl} {x t : Ty} {depth : Nat} (exposed : a.Exposes x t depth) : a.Survives t depth := by
  cases exposed with
  | here survives => exact survives
  | inside survives => exact survives

variable {a : AliasDecl} {values : List Ty} {pos : Position}

theorem substitute?_of_survives {t : Ty} {depth : Nat} (survives : a.Survives t depth) :
    substitute? a.formals values t = none := by
  unfold substitute?
  cases atName : t.formalName? with
  | none => rfl
  | some name =>
    have absent := survives.1 name atName
    simp [List.idxOf?_eq_none_iff.2 absent]

theorem not_formal_of_substitute? (sameNumber : values.length = a.formals.length) {t : Ty}
    (kept : substitute? a.formals values t = none) : ∀ name, t.formalName? = some name → name ∉ a.formals := by
  intro name atName member
  unfold substitute? at kept
  rw [atName, Option.bind_some] at kept
  obtain ⟨index, atIndex⟩ := Option.isSome_iff_exists.1 (List.isSome_idxOf?.2 member)
  obtain ⟨within, _⟩ := List.idxOf?_eq_some_iff.1 atIndex
  rw [atIndex, Option.bind_some, List.getElem?_eq_none_iff] at kept
  omega

/-- What is made of a target is right if everything is that the target exposes. -/
theorem rightCount_of_exposes (given : ∀ v ∈ values, v.Everywhere Ty.RightCount)
    (sameNumber : values.length = a.formals.length) {t : Ty} {depth : Nat}
    (right : ∀ x, a.Exposes x t depth → x.RightCount) :
    (substituteAt a.formals values pos t depth).1.Everywhere Ty.RightCount := by
  induction t using Ty.inductionOn generalizing depth with
  | step t ih =>
    rw [substituteAt_eq]
    split
    · rename_i value found
      exact given value (mem_of_substitute? found)
    · rename_i kept
      have notFormal := not_formal_of_substitute? sameNumber kept
      split
      · rename_i leaf
        have noChildren : t.children = [] := List.isEmpty_iff.1 leaf
        exact Ty.everywhere_of_leaf noChildren (right t (.here ⟨notFormal, .inr (.inl noChildren)⟩))
      · split
        · exact Ty.everywhere_of_leaf rfl trivial
        · rename_i notDeep
          have survives : a.Survives t depth := ⟨notFormal, .inr (.inr (by omega))⟩
          refine (Ty.rebuild_everywhere Ty.rightCount_ofNodes (right t (.here survives)) (by simp) ?_).withPos
            Ty.rightCount_ofNodes pos
          intro c member
          simp only [List.map_map, List.mem_map, Function.comp_apply] at member
          obtain ⟨source, atChild, rfl⟩ := member
          exact ih source atChild fun x exposed => right x (.inside survives atChild exposed)

theorem rightCount_of_withPos {t : Ty} {at_ : Position} (right : (t.withPos at_).Everywhere Ty.RightCount) :
    t.Everywhere Ty.RightCount := by
  refine Ty.everywhere_iff.2 ⟨?_, fun c member => right.child (by rwa [Ty.children_withPos])⟩
  have atRoot := right.root
  cases t <;> trivial

theorem rightCount_of_rebuild {arity : String → Nat} {t : Ty} {cs : List Ty}
    (sameLength : cs.length = t.children.length) (heads : ∀ c ∈ cs, c.Everywhere (Ty.HeadOf arity))
    (right : (t.rebuild cs).Everywhere Ty.RightCount) : t.RightCount ∧ ∀ c ∈ cs, c.Everywhere Ty.RightCount := by
  cases t with
  | union ms at_ => exact ⟨trivial, Ty.rightCount_of_makeUnion heads right⟩
  | inst i =>
    have counted : Instance.hasExpectedArity { i with args := cs } := right.root
    refine ⟨?_, fun c member => right.child member⟩
    simp only [Ty.RightCount, Instance.hasExpectedArity, beq_iff_eq] at counted ⊢
    rw [← counted]
    exact sameLength.symm
  | _ =>
    refine ⟨trivial, fun c member => right.child ?_⟩
    simp only [Ty.rebuild]
    rwa [Ty.children_withChildren _ cs sameLength]

/-- Everything that the target exposes is right if what is made of the target is. -/
theorem exposes_rightCount {arity : String → Nat} (given : ∀ v ∈ values, v.Everywhere (Ty.HeadOf arity))
    (notEmpty : a.formals ≠ []) {t : Ty} (heads : t.Everywhere (Ty.HeadOf arity)) {depth : Nat}
    (right : (substituteAt a.formals values pos t depth).1.Everywhere Ty.RightCount) :
    ∀ x, a.Exposes x t depth → x.RightCount := by
  induction t using Ty.inductionOn generalizing depth with
  | step t ih =>
    intro x exposed
    have survives := exposed.survives
    rw [substituteAt_eq, substitute?_of_survives survives] at right
    dsimp only at right
    split at right
    · rename_i leaf
      cases exposed with
      | here => exact right.root
      | inside _ member =>
        rw [List.isEmpty_iff.1 leaf] at member
        cases member
    · rename_i notLeaf
      have notDeep : ¬ maxSubstitutionDepth ≤ depth := by
        have inner : t.children ≠ [] := fun none => notLeaf (List.isEmpty_iff.2 none)
        have within := survives.2.resolve_left notEmpty
        have within := within.resolve_left inner
        omega
      rw [if_neg notDeep] at right
      have right := rightCount_of_withPos right
      have partHeads : ∀ c ∈ (t.children.map fun c => substituteAt a.formals values pos c (depth + 1)).map Prod.fst,
          c.Everywhere (Ty.HeadOf arity) := by
        intro c member
        simp only [List.map_map, List.mem_map, Function.comp_apply] at member
        obtain ⟨source, atChild, rfl⟩ := member
        exact substituteAt_everywhere (Ty.headOf_ofNodes arity) given (heads.child atChild) _
      obtain ⟨atRoot, parts⟩ := rightCount_of_rebuild (by simp) partHeads right
      cases exposed with
      | here => exact atRoot
      | inside _ atChild exposed =>
        refine ih _ atChild (heads.child atChild) (parts _ ?_) x exposed
        exact List.mem_map_of_mem (List.mem_map_of_mem atChild)

/-- What a use of an alias expands to before anything is repaired: the target, or what is made of it by
substitution. -/
theorem expand_of_use (notBare : a.isBare = false) {args : List Ty} (number : args = [] ∨ args.length = a.formals.length)
    (pos : Position) (written : Option String) (disallowAny : Bool) :
    (a.formals = [] ∧ (a.expand args pos written disallowAny).1 = a.target) ∨
    (a.formals ≠ [] ∧ ∃ values : List Ty, values.length = a.formals.length ∧
      ((args = [] ∧ (∀ v ∈ values, v.isAny) ∧
          (a.expand args pos written disallowAny).1 = (substituteAt a.formals values pos a.target 0).1) ∨
        (values = args ∧
          (a.expand args pos written disallowAny).1 = openFlexible (substituteAt a.formals args pos a.target 0).1))) := by
  unfold expand
  cases formals : a.formals with
  | nil =>
    left
    have none : args = [] := by
      rcases number with none | none
      · exact none
      · rw [formals] at none
        exact List.length_eq_zero_iff.1 none
    subst none
    simp [notBare]
  | cons name names =>
    right
    refine ⟨List.cons_ne_nil _ _, ?_⟩
    cases args with
    | nil =>
      obtain ⟨values, length, areAny, equal⟩ := substituteAny_filled a.target a.formals pos false disallowAny written
      rw [formals] at length equal
      exact ⟨values, length, .inl ⟨rfl, areAny, equal⟩⟩
    | cons arg args =>
      have sameNumber : (arg :: args).length = (name :: names).length := by
        simpa [formals] using number
      refine ⟨arg :: args, sameNumber, .inr ⟨rfl, ?_⟩⟩
      dsimp only
      rw [if_pos sameNumber]
      rfl

end AliasDecl

/-- No part of the type is to be looked up. -/
def Ty.isResolved : Ty → Bool
  | .forward .. => false
  | t => !t.isSyntactic

/-- The property holds everywhere in a type that is resolved. -/
def Ty.ResolvedWith (P : Ty → Prop) (t : Ty) : Prop := t.Everywhere fun x => P x ∧ x.isResolved

theorem Ty.OfNodes.and {P Q : Ty → Prop} (first : OfNodes P) (second : OfNodes Q) : OfNodes fun t => P t ∧ Q t where
  inst sameHead sameNumber both := ⟨first.inst sameHead sameNumber both.1, second.inst sameHead sameNumber both.2⟩
  union pos form := ⟨first.union pos form, second.union pos form⟩
  move pos both := ⟨first.move pos both.1, second.move pos both.2⟩
  other notInstance notUnion := ⟨first.other notInstance notUnion, second.other notInstance notUnion⟩

namespace Resolver

variable {r : Resolver} {P : Ty → Prop}

theorem resolvedWith_not_named {ref : Reference} (resolved : (Ty.named ref).ResolvedWith P) : False := by
  cases resolved.root.2

theorem resolvedWith_not_forward {fullname : Option String} {args : List Ty} {pos : Position}
    (resolved : (Ty.forward fullname args pos).ResolvedWith P) : False := by
  cases resolved.root.2

theorem readsClass_not_resolved {s : Scope} {decl : ClassDecl} {args : List Ty}
    (reads : r.ReadsClass (fun _ t => t.ResolvedWith P) s decl args) : False := by
  cases reads with
  | named resolved => exact resolvedWith_not_named resolved
  | forward resolved => exact resolvedWith_not_forward resolved

/-- Resolving what is resolved already looks nothing up in the table. -/
theorem rule_resolved (nodes : Ty.OfNodes P) :
    r.Rule (fun _ t => t.ResolvedWith P) fun _ _ t => t.Everywhere P := by
  have reads : r.ReadsBases fun _ t => t.ResolvedWith P :=
    { children := fun _ resolved _ member => resolved.child member
      signature := fun resolved _ member => resolved.child member
      form := fun resolved => (resolvedWith_not_named resolved).elim
      args := fun resolved => (resolvedWith_not_named resolved).elim
      forward := fun resolved => (resolvedWith_not_forward resolved).elim
      tupleBase := fun _ reads => (readsClass_not_resolved reads).elim
      recordBase := fun _ reads => (readsClass_not_resolved reads).elim }
  refine .ofNodes nodes reads (fun _ resolved => resolved.imp fun _ both => both.1)
    (fun resolved _ => (resolvedWith_not_forward resolved).elim) (fun resolved => (resolvedWith_not_named resolved).elim)
    (fun resolved => (resolvedWith_not_named resolved).elim) (fun _ _ reads => (readsClass_not_resolved reads).elim)
    (fun _ resolved => (resolvedWith_not_named resolved).elim)

/-- A use of an alias resolves the arguments, expands the alias and repairs what comes out. -/
theorem aliasUse_ensures {In : Scope → Ty → Prop} {Out : Progress → Progress → Ty → Prop} {again : Recursion}
    (rule : r.Rule In Out) (obeys : again.Obeys r In Out) (noHooks : r.hooks = .empty) {ref : Reference}
    {symbol : Symbol} {decl : AliasDecl} (found : r.table.lookup ref.name = some symbol)
    (defined : symbol.definition = some (.aliasDef decl)) (plain : SpecialForm.ofName? symbol.fullname = none)
    (level : Nesting) (inLiteral : Bool) (p : Progress) :
    r.Ensures p (r.plainReference again ref level inLiteral) fun t q => ∃ args : List Ty,
      args.length = ref.args.length ∧ ((∀ x ∈ ref.args, In p.scope x) → ∀ x ∈ args, Out p q x) ∧
      t = r.repairedRoot ref.name (decl.expand args ref.pos (some ref.name) r.disallowsOmitted).1 := by
  unfold plainReference
  simp only [found, defined]
  rw [symbolType_eq noHooks]
  refine Ensures.bind (P := fun _ q => q.scope = p.scope) ?_ fun _ q₀ first kept => ?_
  · split
    · refine (Ensures.report _ _).mono fun _ q _ reported => ?_
      rw [reported]
    · exact .pure rfl
  refine Ensures.scope.bind fun _ q₁ _ started => ?_
  obtain ⟨rfl, rfl⟩ := started
  simp only [plain]
  unfold definedType
  dsimp only
  rw [aliasType_eq]
  refine (Ensures.useAliases _).bind fun _ q₂ second used => ?_
  have opened : q₂.scope = p.scope := by
    rw [used]
    exact kept
  refine (args_ensures rule obeys ref.args level q₂).bind fun args q₃ _ made => ?_
  refine (Ensures.reportAll _).bind fun _ q₄ third _ => ?_
  refine (aliasResult_ensures _ _ q₄).mono fun t q₅ fourth result => ⟨args, made.2.1, fun readable x member => ?_, result.2⟩
  exact rule.widen (first.trans second) opened.symm (third.trans fourth) (made.2.2 (opened ▸ readable) x member)

/-- The run of a reference at the top is that of the name, if no suffix is written. -/
theorem plainReference_of_resolve {ref : Reference} (unmarked : ref.optional = false) {p q : Progress}
    {result : Resolution} (ran : r.resolve (.named ref) p = some (result, q)) :
    ∃ bound q', r.plainReference (r.recursion bound) ref .top false p = some (result.type, q') := by
  obtain ⟨⟨t, q₁⟩, ranFirst, ended⟩ := Option.bind_eq_some_iff.1 ran
  obtain ⟨rfl, _, _⟩ := settle_ensures t q₁ result q ended
  cases limit : r.allowance (.named ref) with
  | zero =>
    rw [limit] at ranFirst
    cases ranFirst
  | succ bound =>
    rw [limit] at ranFirst
    change (r.plainReference (r.recursion bound) ref .top false >>= fun resolved =>
      pure (if ref.optional then resolved.makeOptional else resolved)) p = some (result.type, q₁) at ranFirst
    obtain ⟨⟨t, q₂⟩, ranName, finished⟩ := Option.bind_eq_some_iff.1 ranFirst
    rw [unmarked] at finished
    cases finished
    exact ⟨bound, q₁, ranName⟩

end Resolver

theorem isAny_of_mem_fixInstance_args {i : Instance} (wrong : i.hasExpectedArity = false) {disallowAny fromAlias : Bool}
    {written : Option String} {t : Ty} (member : t ∈ (fixInstance i disallowAny fromAlias written).1.args) : t.isAny := by
  unfold fixInstance at member
  rw [wrong] at member
  simp only [Bool.false_eq_true, if_false] at member
  split at member
  · rw [(List.mem_replicate.1 member).2]
    exact omittedAny_isAny _ _ _ _
  · rw [(List.mem_replicate.1 member).2]
    rfl

/-- A type is no instance of a class whose instances stand for one of their arguments. -/
def Ty.NotFlexible : Ty → Prop
  | .inst i => i.head.fullname ≠ flexibleAlias
  | _ => True

theorem Ty.notFlexible_of_head {i j : Instance} (sameHead : j.head = i.head) (plain : (Ty.inst i).NotFlexible) :
    (Ty.inst j).NotFlexible := by
  simp only [NotFlexible] at plain ⊢
  rwa [sameHead]

theorem Ty.notFlexible_ofNodes : Ty.OfNodes Ty.NotFlexible where
  inst sameHead _ plain := notFlexible_of_head sameHead plain
  union _ _ := trivial
  move _ _ := trivial
  other {t} _ _ := by
    cases t <;> trivial

theorem AliasDecl.openFlexible_of_notFlexible {t : Ty} (plain : t.NotFlexible) : openFlexible t = t := by
  unfold openFlexible
  split
  · exact if_neg (by simpa [Ty.NotFlexible] using plain)
  · rfl

theorem AliasDecl.openFlexible_inst {i : Instance} (flexible : i.head.fullname = flexibleAlias) :
    openFlexible (.inst i) = i.args.getLast?.getD (.anyAt .specialForm .unknown) := by
  simp [openFlexible, flexible]

theorem AliasDecl.openFlexible_congr {a b : Ty} (equal : a ≈ b) : openFlexible a ≈ openFlexible b := by
  cases Ty.matches_of_beq equal with
  | @inst i j same =>
    obtain ⟨sameName, args, _⟩ := Instance.beq_iff.1 same
    by_cases flexible : i.head.fullname = flexibleAlias
    · rw [openFlexible_inst flexible, openFlexible_inst (sameName.symm.trans flexible)]
      rw [List.getLast?_eq_head?_reverse, List.getLast?_eq_head?_reverse]
      have backwards := List.rel_reverse args
      generalize i.args.reverse = xs, j.args.reverse = ys at backwards ⊢
      cases backwards with
      | nil => exact Setoid.refl _
      | cons here => exact here
    · have plain : (Ty.inst i).NotFlexible := flexible
      have plain' : (Ty.inst j).NotFlexible := fun named => flexible (sameName.trans named)
      rwa [openFlexible_of_notFlexible plain, openFlexible_of_notFlexible plain']
  | _ => exact equal

theorem AliasDecl.Exposes.reached {a : AliasDecl} {x t : Ty} {depth : Nat} (exposed : a.Exposes x t depth) :
    Ty.Inside x t := by
  induction exposed with
  | here => exact .here
  | inside _ member _ ih => exact .child member ih

/-- Without formals a target exposes all that is in it. -/
theorem AliasDecl.exposes_of_inside {a : AliasDecl} (closed : a.formals = []) {x t : Ty} (reached : Ty.Inside x t)
    (depth : Nat) : a.Exposes x t depth := by
  have survives (t : Ty) (depth : Nat) : a.Survives t depth := ⟨by simp [closed], .inl closed⟩
  induction reached generalizing depth with
  | here => exact .here (survives _ depth)
  | child member _ ih => exact .inside (survives _ depth) member (ih (depth + 1))

namespace Resolver

variable {r : Resolver}

/-- Only an instance is changed by the repair, and only one with the wrong number of arguments. -/
theorem repairedRoot_eq (written : String) {t : Ty}
    (right : ¬ ∃ i, t = .inst i ∧ i.hasExpectedArity = false) : r.repairedRoot written t = t := by
  unfold repairedRoot
  split
  · rename_i i
    have counted : i.hasExpectedArity := by
      rw [← Bool.not_eq_false]
      exact fun wrong => right ⟨i, rfl, wrong⟩
    unfold repaired fixInstance
    rw [if_pos counted]
    split <;> rfl
  · rfl

/-- A use of an alias, bare or with as many resolved arguments as there are formals, comes out with the right
numbers of arguments exactly in two cases: the expansion is itself an instance with a wrong one, so that the repair
of the root replaces all its arguments, or the target exposes no instance with a wrong one. -/
theorem aliasUse_rightCount_iff (noHooks : r.hooks = .empty) (using_ : r.flags.definingAlias = false)
    {ref : Reference} {symbol : Symbol} {decl : AliasDecl} {arity : String → Nat}
    (found : r.table.lookup ref.name = some symbol) (defined : symbol.definition = some (.aliasDef decl))
    (plain : SpecialForm.ofName? symbol.fullname = none) (notBare : decl.isBare = false)
    (unmarked : ref.optional = false) (number : ref.args = [] ∨ ref.args.length = decl.formals.length)
    (resolved : ∀ t ∈ ref.args, t.ResolvedWith fun x => (x.RightCount ∧ x.HeadOf arity) ∧ x.NotFlexible)
    (heads : decl.target.Everywhere (Ty.HeadOf arity))
    (notFlexible : ref.args = [] ∨ decl.target.Everywhere Ty.NotFlexible) {p q : Progress} {result : Resolution}
    (ran : r.resolve (.named ref) p = some (result, q)) :
    ∃ args : List Ty, args.length = ref.args.length ∧
      result.type = r.repairedRoot ref.name (decl.expand args ref.pos (some ref.name) r.disallowsOmitted).1 ∧
      (result.type.Everywhere Ty.RightCount ↔
        (∃ i, (decl.expand args ref.pos (some ref.name) r.disallowsOmitted).1 = .inst i ∧
          i.hasExpectedArity = false) ∨
        ∀ x, decl.Exposes x decl.target 0 → x.RightCount) := by
  obtain ⟨bound, q', ranName⟩ := plainReference_of_resolve unmarked ran
  have rule : r.Rule _ _ := rule_resolved ((Ty.rightCount_ofNodes.and (Ty.headOf_ofNodes arity)).and Ty.notFlexible_ofNodes)
  obtain ⟨_, args, sameNumber, made, result_eq⟩ :=
    aliasUse_ensures rule (recursion_obeys rule noHooks bound) noHooks found defined plain .top false p _ q' ranName
  have given := made resolved
  refine ⟨args, sameNumber, result_eq, ?_⟩
  rw [result_eq]
  have sameUse : args = [] ∨ args.length = decl.formals.length := by
    rcases number with none | number
    · left
      rw [none] at sameNumber
      exact List.length_eq_zero_iff.1 sameNumber
    · exact .inr (sameNumber.trans number)
  have use := decl.expand_of_use notBare sameUse ref.pos (some ref.name) r.disallowsOmitted
  generalize (decl.expand args ref.pos (some ref.name) r.disallowsOmitted).1 = expanded at use ⊢
  constructor
  · intro right
    by_cases wrongRoot : ∃ i, expanded = .inst i ∧ i.hasExpectedArity = false
    · exact .inl wrongRoot
    right
    rw [repairedRoot_eq ref.name wrongRoot] at right
    rcases use with ⟨_, rfl⟩ | ⟨open_, values, sameLength, ⟨_, areAny, rfl⟩ | ⟨rfl, rfl⟩⟩
    · exact fun x exposed => right x exposed.reached
    · refine AliasDecl.exposes_rightCount (fun v member => ?_) open_ heads right
      exact (Ty.headOf_ofNodes arity).everywhere_of_isAny (areAny v member)
    · have plainTarget : decl.target.Everywhere Ty.NotFlexible := by
        refine notFlexible.resolve_left fun none => open_ ?_
        rw [none] at sameNumber
        exact List.length_eq_zero_iff.1 (sameLength.symm.trans sameNumber)
      have plainResult : (substituteAt decl.formals values ref.pos decl.target 0).1.Everywhere Ty.NotFlexible :=
        substituteAt_everywhere Ty.notFlexible_ofNodes (fun v member => (given v member).imp fun _ all => all.2)
          plainTarget 0
      rw [AliasDecl.openFlexible_of_notFlexible plainResult.root] at right
      exact AliasDecl.exposes_rightCount (fun v member => (given v member).imp fun _ all => all.1.2) open_ heads right
  · rintro (⟨i, rfl, wrong⟩ | exposes)
    · simp only [repairedRoot, repaired, using_, Bool.false_eq_true, if_false]
      refine Ty.everywhere_iff.2 ⟨fixInstance_hasExpectedArity _ _ _ _, fun t member => ?_⟩
      exact Ty.rightCount_ofNodes.everywhere_of_isAny (isAny_of_mem_fixInstance_args wrong member)
    · have all : expanded.Everywhere Ty.RightCount := by
        rcases use with ⟨closed, rfl⟩ | ⟨open_, values, sameLength, ⟨_, areAny, rfl⟩ | ⟨rfl, rfl⟩⟩
        · exact fun x reached => exposes x (AliasDecl.exposes_of_inside closed reached 0)
        · exact AliasDecl.rightCount_of_exposes
            (fun v member => Ty.rightCount_ofNodes.everywhere_of_isAny (areAny v member)) sameLength exposes
        · exact AliasDecl.openFlexible_everywhere Ty.rightCount_ofNodes (AliasDecl.rightCount_of_exposes
            (fun v member => (given v member).imp fun _ all => all.1.1) sameLength exposes)
      exact repairedRoot_rightCount using_ ref.name fun c member => all.child member

end Resolver

/-- The same resolver after the definition of an alias. -/
def Resolver.withAlias (r : Resolver) (decl : AliasDecl) : Resolver :=
  { r with table := r.table.define (.aliasDef decl) }

namespace Resolver

/-- `A = List[T]`, resolved. -/
def listAlias : AliasDecl :=
  ⟨"m.A", .inst (.of ⟨"builtins.list", ["T"], false⟩ [.named (.of "T" [])] .unknown), ["T"], false, ["typing.List"]⟩

/-- `A[int]`, with the class resolved. -/
def listAliasUse : Reference := .of "A" [.inst (.of (.plain "builtins.int") [] .unknown)]

theorem aliasUse_rightCount_iff_list :
    ∃ result q args, ((ofPrelude "m").withAlias listAlias).resolve (.named listAliasUse) (.start .root) =
        some (result, q) ∧ args.length = 1 ∧
      result.type = (ofPrelude "m").repairedRoot "A" (listAlias.expand args .unknown (some "A") false).1 ∧
      (result.type.Everywhere Ty.RightCount ↔
        (∃ i, (listAlias.expand args .unknown (some "A") false).1 = .inst i ∧ i.hasExpectedArity = false) ∨
        ∀ x, listAlias.Exposes x listAlias.target 0 → x.RightCount) := by
  have ends : (((ofPrelude "m").withAlias listAlias).resolve (.named listAliasUse) (.start .root)).isSome := rfl
  obtain ⟨⟨result, q⟩, ran⟩ := Option.isSome_iff_exists.1 ends
  let arity (fullname : String) : Nat := if fullname = "builtins.list" then 1 else 0
  have heads : listAlias.target.Everywhere (Ty.HeadOf arity) := by
    refine Ty.everywhere_iff.2 ⟨by simp [listAlias, Ty.HeadOf, Instance.of, ClassHead.arity, arity], fun c member => ?_⟩
    rw [List.mem_singleton.1 member]
    exact Ty.everywhere_of_leaf rfl trivial
  have plainTarget : listAlias.target.Everywhere Ty.NotFlexible := by
    refine Ty.everywhere_iff.2 ⟨by simp [listAlias, Ty.NotFlexible, Instance.of, flexibleAlias], fun c member => ?_⟩
    rw [List.mem_singleton.1 member]
    exact Ty.everywhere_of_leaf rfl trivial
  have resolved : ∀ t ∈ listAliasUse.args,
      t.ResolvedWith fun x => (x.RightCount ∧ x.HeadOf arity) ∧ x.NotFlexible := by
    intro t member
    rw [List.mem_singleton.1 member]
    refine Ty.everywhere_of_leaf rfl ⟨⟨⟨rfl, ?_⟩, ?_⟩, rfl⟩
    · simp [Ty.HeadOf, Instance.of, ClassHead.plain, ClassHead.arity, arity]
    · simp [Ty.NotFlexible, Instance.of, ClassHead.plain, flexibleAlias]
  have found : ((ofPrelude "m").withAlias listAlias).table.lookup listAliasUse.name =
      some (.of (.aliasDef listAlias)) := rfl
  have defined : (Symbol.of (.aliasDef listAlias)).definition = some (.aliasDef listAlias) := rfl
  obtain ⟨args, sameNumber, expanded, right⟩ :=
    aliasUse_rightCount_iff rfl rfl found defined rfl rfl rfl (.inr rfl) resolved heads (.inr plainTarget) ran
  exact ⟨result, q, args, ran, sameNumber, expanded, right⟩

/-- `Union[List, int]`. -/
def bareListOrInt : Ty := .named (.of "typing.Union" [.named (.of "typing.List" []), .named (.of "int" [])])

/-- `A = Union[List, int]` is resolved without a complaint, and so is `A`, but the list has no argument in either:
only an instance at the root is repaired. -/
theorem defineThenUse_wrongCount :
    ∃ target used q q',
      (ofPrelude "m").resolveAlias .root bareListOrInt = some (⟨target, .complete⟩, q) ∧ q.reports = [] ∧
      ((ofPrelude "m").withAlias ⟨"m.A", target, [], false, q.aliasesUsed⟩).resolve (.named (.of "A" [])) (.start .root) =
        some (⟨used, .complete⟩, q') ∧
      q'.reports = [] ∧ ¬ used.Everywhere Ty.RightCount := by
  let bareList : Ty := .inst (.of ⟨"builtins.list", ["T"], false⟩ [] .unknown)
  let int : Ty := .inst (.of (.plain "builtins.int") [] .unknown)
  refine ⟨.union [bareList, int] .unknown, .union [bareList, int] .unknown, ⟨.root, .complete, ["typing.List"], []⟩,
    ⟨.root, .complete, ["m.A", "typing.List"], []⟩, rfl, rfl, rfl, rfl, fun right => ?_⟩
  have counted : bareList.RightCount := (right.child List.mem_cons_self).root
  cases counted

end Resolver

end TypeResolution
