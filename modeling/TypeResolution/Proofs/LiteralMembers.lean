import TypeResolution.Proofs.SameTypes
import TypeResolution.Proofs.YieldedForms

namespace TypeResolution

open Resolve

/-- No problem at all. -/
def Problem.Never (_ : Problem) : Prop := False

theorem Resolve.not_silent_reportAll {s : Scope} {reports : List Diagnostic} (some : reports ≠ []) {u : Unit} :
    ¬ Yields Problem.Never (reportAll reports) s u := by
  intro yields
  obtain ⟨report, member⟩ := List.exists_mem_of_ne_nil reports some
  exact yields.reportAll report member

theorem Resolve.not_silent_report {s : Scope} {pos : Position} {problem : Problem} {u : Unit} :
    ¬ Yields Problem.Never (report pos problem) s u := fun yields => yields.report

theorem Resolve.not_silent_failAt {s : Scope} {pos : Position} {problem : Problem} {t : Ty} :
    ¬ Yields Problem.Never (failAt pos problem) s t := fun yields => yields.failAt.1

/-- Without a report no name is left that is no type. -/
theorem Resolver.not_silent_noType {again : Recursion} [again.Steady] {s : Scope} {ref : Reference} {level : Nesting}
    {problem : Problem} {notes : List Problem} {t : Ty} : ¬ Yields Problem.Never (noType again ref level problem notes) s t := by
  intro yields
  obtain ⟨_, _, next⟩ := yields.bind
  obtain ⟨_, reported⟩ := next.andThen.1
  exact Resolve.not_silent_report reported

/-- What is collected of a list: all that there is of its elements, or nothing if there is nothing of one of them. -/
inductive Collected {α : Type} (P : α → Option (List Ty) → Prop) (xs : List α) : Option (List Ty) → Prop
  | all {fs : List (List Ty)} : List.Forall₂ (fun x f => P x (some f)) xs fs → Collected P xs (some fs.flatten)
  | stopped {x : α} : x ∈ xs → P x none → Collected P xs none

/-- The same literals are found, or none are to be found. -/
inductive LiteralsAlike : Option (List Ty) → Option (List Ty) → Prop
  | none : LiteralsAlike none none
  | some {fs gs : List Ty} : SameTypes fs gs → (∀ t ∈ fs, t.IsLiteral) → LiteralsAlike (some fs) (some gs)

namespace Collected

variable {α : Type} {P Q : α → Option (List Ty) → Prop} {xs : List α} {f : Option (List Ty)}

theorem single {x : α} (here : P x f) : Collected P [x] f := by
  cases f with
  | none => exact .stopped (List.mem_singleton_self x) here
  | some f =>
    have one : Collected P [x] (some [f].flatten) := .all (.cons here .nil)
    simpa using one

theorem imp (collected : Collected P xs f) (weaken : ∀ x ∈ xs, ∀ f, P x f → Q x f) : Collected Q xs f := by
  cases collected with
  | all each =>
    refine .all ?_
    induction each with
    | nil => exact .nil
    | @cons x _ xs _ here _ ih =>
      exact .cons (weaken x List.mem_cons_self _ here) (ih fun z member => weaken z (List.mem_cons_of_mem x member))
  | stopped member none => exact .stopped member (weaken _ member _ none)

theorem append {ys : List α} {g : Option (List Ty)} (first : Collected P xs f) (second : Collected P ys g) :
    Collected P (xs ++ ys) (f.bind fun f => g.map (f ++ ·)) := by
  cases first with
  | stopped member none => exact .stopped (List.mem_append_left _ member) none
  | @all fs each =>
    cases second with
    | stopped member none => exact .stopped (List.mem_append_right _ member) none
    | @all gs each' =>
      have both : Collected P (xs ++ ys) (some (fs ++ gs).flatten) := .all (List.rel_append each each')
      simpa using both

theorem flatMap {β : Type} {g : β → List α} {ys : List β} (collected : Collected (fun y f => Collected P (g y) f) ys f) :
    Collected P (ys.flatMap g) f := by
  cases collected with
  | stopped member none =>
    cases none with
    | stopped inside none => exact .stopped (List.mem_flatMap.2 ⟨_, member, inside⟩) none
  | all each =>
    induction each with
    | nil => exact .all .nil
    | @cons y f ys fs here _ ih =>
      have both := here.append ih
      simpa using both

/-- Where what is collected of related elements is alike, what is collected of lists of them is alike. -/
theorem alike {β : Type} {R : α → β → Prop} {Q : β → Option (List Ty) → Prop} {ys : List β} {g : Option (List Ty)}
    (first : Collected P xs f) (second : Collected Q ys g) (left : ∀ x ∈ xs, ∃ y ∈ ys, R x y)
    (right : ∀ y ∈ ys, ∃ x ∈ xs, R x y)
    (each : ∀ x ∈ xs, ∀ y f g, R x y → P x f → Q y g → LiteralsAlike f g) : LiteralsAlike f g := by
  cases first with
  | @stopped x member none =>
    cases second with
    | stopped => exact .none
    | all each' =>
      obtain ⟨y, atTarget, related⟩ := left x member
      obtain ⟨g, _, some⟩ := forall₂_source each'.flip atTarget
      cases each x member y _ _ related none some
  | @all fs each₁ =>
    cases second with
    | @stopped y member none =>
      obtain ⟨x, atSource, related⟩ := right y member
      obtain ⟨f, _, some⟩ := forall₂_source each₁.flip atSource
      cases each x atSource y _ _ related some none
    | @all gs each₂ =>
      refine .some ⟨fun t inside => ?_, fun t inside => ?_⟩ fun t inside => ?_
      · obtain ⟨f, atPart, inside⟩ := List.mem_flatten.1 inside
        obtain ⟨x, atSource, some⟩ := forall₂_source each₁ atPart
        obtain ⟨y, atTarget, related⟩ := left x atSource
        obtain ⟨g, atPart', some'⟩ := forall₂_source each₂.flip atTarget
        cases each x atSource y _ _ related some some' with
        | some same =>
          obtain ⟨u, inside', equal⟩ := same.left t inside
          exact ⟨u, List.mem_flatten.2 ⟨g, atPart', inside'⟩, equal⟩
      · obtain ⟨g, atPart, inside⟩ := List.mem_flatten.1 inside
        obtain ⟨y, atTarget, some⟩ := forall₂_source each₂ atPart
        obtain ⟨x, atSource, related⟩ := right y atTarget
        obtain ⟨f, atPart', some'⟩ := forall₂_source each₁.flip atSource
        cases each x atSource y _ _ related some' some with
        | some same =>
          obtain ⟨u, inside', equal⟩ := same.right t inside
          exact ⟨u, List.mem_flatten.2 ⟨f, atPart', inside'⟩, equal⟩
      · obtain ⟨f, atPart, inside⟩ := List.mem_flatten.1 inside
        obtain ⟨x, atSource, some⟩ := forall₂_source each₁ atPart
        obtain ⟨y, atTarget, related⟩ := left x atSource
        obtain ⟨g, _, some'⟩ := forall₂_source each₂.flip atTarget
        cases each x atSource y _ _ related some some' with
        | some _ literal => exact literal t inside

end Collected

namespace Resolver

section Runs

variable {r : Resolver} {allowed : Problem → Prop} {s : Scope}

theorem yields_collectWhile {α : Type} {f : α → Resolve (Option (List Ty))} [each : ∀ x, Steady (f x)] {xs : List α}
    {found : Option (List Ty)} (yields : Yields allowed (collectWhile f xs) s found) :
    Collected (fun x found => Yields allowed (f x) s found) xs found := by
  induction xs generalizing found with
  | nil =>
    rw [← yields.pure]
    exact .all .nil
  | cons x xs ih =>
    rw [collectWhile_cons] at yields
    obtain ⟨head, atHead, next⟩ := yields.bind
    cases head with
    | none =>
      rw [← next.pure]
      exact .stopped List.mem_cons_self atHead
    | some head =>
      obtain ⟨tail, inTail, made⟩ := next.map
      rw [made]
      have both := (Collected.single (P := fun x found => Yields allowed (f x) s found) atHead).append (ih inTail)
      simpa using both

/-- The literals that a type stands for that is no union, nor a name that is looked up. -/
def literalLeaf (r : Resolver) (index : Nat) (t : Ty) (pos : Position) : Resolve (Option (List Ty)) :=
  match t with
  | .named ref =>
    match ref.quoted with
    | some value => r.literalOf (.str value) (ref.quotedClass.getD "builtins.str") ref.pos
    | none => pure none
  | t => r.literalsOf .exhausted index t pos .top

theorem literalsOf_leaf {t : Ty} (notUnion : t.isUnion = false) (notNamed : ∀ ref, t ≠ .named ref) (again : Recursion)
    (index : Nat) (pos : Position) (level : Nesting) : r.literalsOf again index t pos level = r.literalLeaf index t pos := by
  cases t with
  | named ref => exact absurd rfl (notNamed ref)
  | union => cases notUnion
  | inst i =>
    obtain ⟨head, args, invalid, known, at_⟩ := i
    cases known <;> rfl
  | scalar value => cases value <;> rfl
  | _ => rfl

/-- A type that is no name is read as it is. -/
theorem literals_of_not_named {t : Ty} (notNamed : ∀ ref, t ≠ .named ref) (again : Recursion) (index : Nat) (pos : Position)
    (level : Nesting) : r.literals again index t pos level = r.literalsOf again index t pos level := by
  cases t with
  | named ref => exact absurd rfl (notNamed ref)
  | _ => rfl

section Flat

variable {P : Ty → Option (List Ty) → Prop} {index : Nat} {pos : Position} {level : Nesting}

/-- The literals of a type are those of its members: of those that are names still to be looked up, and of others. -/
theorem literals_flat (n : Nat) {t : Ty} {f : Option (List Ty)}
    (leaf : ∀ m ∈ t.members, ∀ f, (∀ ref, m = .named ref → ref.quoted.isSome) →
      Yields allowed (r.literalLeaf index m pos) s f → P m f)
    (name : ∀ ref, .named ref ∈ t.members → ref.quoted = none → ∀ k f,
      Yields allowed ((r.recursion k).literals index (.named ref) pos level) s f → P (.named ref) f)
    (yields : Yields allowed ((r.recursion n).literals index t pos level) s f) : Collected P t.members f := by
  induction n generalizing t f with
  | zero => exact yields.stuck.elim
  | succ n ih =>
    cases t using Ty.unionCases with
    | union ms at_ =>
      have yields : Yields allowed (collectWhile (fun m => (r.recursion n).literals index m pos level) ms) s f := yields
      rw [Ty.members, Ty.membersOfAll_eq] at leaf name ⊢
      refine Collected.flatMap ((yields_collectWhile yields).imp fun c member g inside => ?_)
      exact ih (fun m atMember => leaf m (List.mem_flatMap.2 ⟨c, member, atMember⟩))
        (fun ref atMember => name ref (List.mem_flatMap.2 ⟨c, member, atMember⟩)) inside
    | other t notUnion =>
      rw [Ty.members_of_not_union notUnion] at leaf name ⊢
      refine .single ?_
      by_cases isNamed : ∃ ref, t = .named ref
      · obtain ⟨ref, rfl⟩ := isNamed
        cases quoted : ref.quoted with
        | none => exact name ref (List.mem_singleton_self _) quoted (n + 1) f yields
        | some value =>
          refine leaf _ (List.mem_singleton_self _) f (fun ref' same => ?_) ?_
          · cases same
            rw [quoted]
            rfl
          · have yields : Yields allowed (r.literals (r.recursion n) index (.named ref) pos level) s f := yields
            simp only [literals, quoted] at yields
            simpa only [literalLeaf, quoted] using yields
      · have notNamed (ref : Reference) : t ≠ .named ref := fun same => isNamed ⟨ref, same⟩
        refine leaf _ (List.mem_singleton_self _) f (fun ref same => absurd same (notNamed ref)) ?_
        rw [← literalsOf_leaf notUnion notNamed (r.recursion n) index pos level, ← literals_of_not_named notNamed]
        exact yields

end Flat

theorem yields_noLiteral {pos : Position} {problem : Problem} {f : Option (List Ty)}
    (yields : Yields allowed (noLiteral pos problem) s f) : allowed problem ∧ f = none := by
  obtain ⟨_, reported, next⟩ := yields.bind
  exact ⟨reported.report, next.pure.symm⟩

/-- Without a report a type variable is resolved to itself, bound or free. -/
theorem silent_variable (noHooks : r.hooks = .empty) {ref : Reference} {symbol : Symbol} {decl : TypeVarDecl}
    (found : r.table.lookup ref.name = some symbol) (plain : SpecialForm.ofName? symbol.fullname = none)
    (defined : symbol.definition = some (.typeVarDef decl)) {again : Recursion} [again.Steady] {level : Nesting}
    {inLiteral : Bool} {t : Ty} (yields : Yields Problem.Never (r.plainReference again ref level inLiteral) s t) :
    t = .named ref ∨ ∃ binding, t = .typeVar binding ref.pos := by
  have notPending : symbol.isPending = false := by rw [Symbol.isPending, defined]
  rw [plainReference_of_symbol found defined notPending] at yields
  have next := yields_symbolType noHooks yields
  unfold formOrDefined at next
  rw [plain] at next
  have variable_ : Yields Problem.Never (r.typeVarType again symbol.fullname ref level) s t := next
  have last := yields_typeVarType variable_
  cases bound : s.find? symbol.fullname with
  | some binding =>
    simp only [bound, variableFound] at last
    split at last
    · exact (not_silent_failAt last).elim
    · refine .inr ⟨binding, ?_⟩
      split at last
      · exact last.pure.symm
      · exact last.andThen.2.pure.symm
  | none =>
    simp only [bound, variableFound] at last
    split at last
    · exact .inl last.pure.symm
    · exact (not_silent_noType last).elim

/-- A type variable is no literal. -/
theorem not_silent_variable (noHooks : r.hooks = .empty) {ref : Reference} {symbol : Symbol} {decl : TypeVarDecl}
    (found : r.table.lookup ref.name = some symbol) (plain : SpecialForm.ofName? symbol.fullname = none)
    (defined : symbol.definition = some (.typeVarDef decl)) (unquoted : ref.quoted = none) (n : Nat) {index : Nat}
    {pos : Position} {level : Nesting} {f : Option (List Ty)} :
    ¬ Yields Problem.Never ((r.recursion n).literals index (.named ref) pos level) s f := by
  induction n generalizing level f with
  | zero => exact Yields.stuck
  | succ n ih =>
    intro yields
    have yields : Yields Problem.Never (r.literals (r.recursion n) index (.named ref) pos level) s f := yields
    simp only [literals, unquoted] at yields
    obtain ⟨t, named, next⟩ := yields.bind
    cases n with
    | zero => exact named.stuck
    | succ k =>
      have named : Yields Problem.Never (r.reference (r.recursion k) ref level.deeper true) s t := named
      obtain ⟨u, looked, made⟩ := named.map
      have single : u.isUnion = false ∧ u.isNone = false := by
        rcases silent_variable noHooks found plain defined looked with rfl | ⟨binding, rfl⟩ <;> exact ⟨rfl, rfl⟩
      have notLiteral (level : Nesting) (g : Option (List Ty)) :
          ¬ Yields Problem.Never (r.literalsOf (r.recursion (k + 1)) index u pos level) s g := by
        intro read
        rcases silent_variable noHooks found plain defined looked with rfl | ⟨binding, rfl⟩
        · exact (yields_noLiteral read).1
        · exact (yields_noLiteral read).1
      cases optional : ref.optional with
      | false =>
        rw [optional] at made
        exact notLiteral _ _ (made ▸ next)
      | true =>
        rw [optional] at made
        have asUnion : t = .union [u, .noneType .unknown] u.pos := made.trans (Ty.makeOptional_of_single single.1 single.2)
        subst asUnion
        have read : Yields Problem.Never (collectWhile (fun m => (r.recursion (k + 1)).literals index m pos level)
            [u, .noneType .unknown]) s f := next
        have ofVariable (g : Option (List Ty)) :
            ¬ Yields Problem.Never ((r.recursion (k + 1)).literals index u pos level) s g := by
          intro readVariable
          rcases silent_variable noHooks found plain defined looked with rfl | ⟨binding, rfl⟩
          · exact ih readVariable
          · exact notLiteral level g readVariable
        rw [collectWhile_cons] at read
        obtain ⟨g, atVariable, _⟩ := read.bind
        exact ofVariable g atVariable

end Runs

end Resolver

end TypeResolution
