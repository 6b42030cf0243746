import TypeResolution.Proofs.AliasDepth
import TypeResolution.Proofs.InferredVariables
import TypeResolution.Proofs.MetVariables

namespace TypeResolution

open Resolve

/-- A form that has a meaning only as a part of another one. -/
def Ty.isMark : Ty → Bool
  | .star .. | .bracketed .. | .argument .. | .ellipsis _ => true
  | _ => false

instance (table : SymbolTable) : DecidablePred table.NoVariable := fun t => by
  cases t with
  | named ref =>
    have iff : (table.lookupTypeVar? ref.name).isNone = true ↔ table.NoVariable (.named ref) :=
      ⟨fun none_ _ same => Ty.named.inj same ▸ Option.isNone_iff_eq_none.1 none_,
        fun free => Option.isNone_iff_eq_none.2 (free ref rfl)⟩
    exact decidable_of_iff _ iff
  | _ => exact isTrue fun _ same => nomatch same

namespace Resolver

variable {r : Resolver}

/-- A hook stands in for the resolution of the name. -/
def isHooked (r : Resolver) (ref : Reference) : Bool :=
  (r.table.lookup ref.name).any fun symbol =>
    symbol.definition.isSome && !symbol.isPending && (r.hooks.find? symbol.fullname).isSome

/-- The level at which the parts of a type are resolved if the type is at `level`: below a hooked name levels are counted
anew. Parts that are no types to be resolved, or are left as they are, have none. -/
def partsLevel (r : Resolver) (t : Ty) (level : Nesting) : Option Nesting :=
  match t with
  | .named ref =>
    if r.isHooked ref then some Nesting.top.deeper
    else if r.isLiteralForm ref || (r.table.lookupTypeVar? ref.name).isSome then none
    else some level.deeper
  | .bracketed .. | .argument .. => some level
  | .callable _ | .tuple _ | .record _ | .star .. | .union .. | .classObject .. => some level.deeper
  | .forward fullname _ _ => if (fullname.bind r.table.findClass?).isSome then some level.deeper else none
  | _ => none

/-- A type that may be cut away where it is nested too deep: nothing is read of it but its position. -/
def Unread (r : Resolver) (t : Ty) : Prop := t.isMark = false ∧ t.Everywhere r.table.NoVariable

instance : DecidablePred r.Unread := fun _ => inferInstanceAs (Decidable (_ ∧ _))

/-- The type that is left at `level` when all is cut away in it that is nested too deep. -/
def trim (r : Resolver) : Ty → Nesting → Ty :=
  Ty.fold fun t parts level =>
    if maxNesting < level.level ∧ r.Unread t then .anyAt .error t.pos
    else
      match r.partsLevel t level with
      | some inner => t.withChildren (parts.map (· inner))
      | none => t

theorem trim_eq (r : Resolver) (t : Ty) (level : Nesting) :
    r.trim t level =
      if maxNesting < level.level ∧ r.Unread t then .anyAt .error t.pos
      else
        match r.partsLevel t level with
        | some inner => t.withChildren (t.children.map (r.trim · inner))
        | none => t := by
  unfold trim
  rw [Ty.fold_eq]
  simp only [List.map_map]
  rfl

theorem pos_withChildren (t : Ty) (cs : List Ty) : (t.withChildren cs).pos = t.pos := by
  cases t <;> rfl

theorem trim_pos (r : Resolver) (t : Ty) (level : Nesting) : (r.trim t level).pos = t.pos := by
  rw [trim_eq]
  split
  · rfl
  · split
    · exact pos_withChildren _ _
    · rfl

theorem trim_parts {t : Ty} {level inner : Nesting} (kept : ¬ (maxNesting < level.level ∧ r.Unread t))
    (atParts : r.partsLevel t level = some inner) : r.trim t level = t.withChildren (t.children.map (r.trim · inner)) := by
  rw [trim_eq, if_neg kept, atParts]

theorem trim_whole {t : Ty} {level : Nesting} (kept : ¬ (maxNesting < level.level ∧ r.Unread t))
    (noParts : r.partsLevel t level = none) : r.trim t level = t := by
  rw [trim_eq, if_neg kept, noParts]

theorem mark_kept {t : Ty} {level : Nesting} (mark : t.isMark = true) : ¬ (maxNesting < level.level ∧ r.Unread t) := by
  rintro ⟨_, noMark, _⟩
  rw [mark] at noMark
  cases noMark

theorem trim_ellipsis (r : Resolver) (pos : Position) (level : Nesting) : r.trim (.ellipsis pos) level = .ellipsis pos :=
  trim_whole (mark_kept rfl) rfl

theorem trim_bracketed (r : Resolver) (items : List Ty) (pos : Position) (level : Nesting) :
    r.trim (.bracketed items pos) level = .bracketed (items.map (r.trim · level)) pos :=
  trim_parts (mark_kept rfl) rfl

theorem trim_argument (r : Resolver) (item : Ty) (name form : Option String) (pos : Position) (level : Nesting) :
    r.trim (.argument item name form pos) level = .argument (r.trim item level) name form pos :=
  trim_parts (mark_kept rfl) rfl

theorem trim_star (r : Resolver) (item : Ty) (pos : Position) (level : Nesting) :
    r.trim (.star item pos) level = .star (r.trim item level.deeper) pos :=
  trim_parts (mark_kept rfl) rfl

theorem isMark_trim (r : Resolver) (t : Ty) (level : Nesting) : (r.trim t level).isMark = t.isMark := by
  rw [trim_eq]
  split
  · rename_i cut
    exact cut.2.1.symm
  · split
    · cases t <;> rfl
    · rfl

/-- A mark stays what it is, and nothing else becomes one. -/
theorem form_of_trim {t : Ty} {level : Nesting} (mark : (r.trim t level).isMark = true) :
    t.ctorIdx = (r.trim t level).ctorIdx := by
  rw [isMark_trim] at mark
  cases t with
  | ellipsis => rw [trim_ellipsis]
  | bracketed => rw [trim_bracketed]; rfl
  | argument => rw [trim_argument]; rfl
  | star => rw [trim_star]; rfl
  | _ => cases mark

theorem trim_eq_ellipsis_iff {t : Ty} {level : Nesting} {pos : Position} :
    r.trim t level = .ellipsis pos ↔ t = .ellipsis pos := by
  constructor
  · intro trimmed
    have sameForm : t.ctorIdx = (Ty.ellipsis pos).ctorIdx := trimmed ▸ form_of_trim (by rw [trimmed]; rfl)
    cases t <;> cases sameForm
    rwa [trim_ellipsis] at trimmed
  · rintro rfl
    exact trim_ellipsis r pos level

theorem bracketed_of_trim {t : Ty} {level : Nesting} {items : List Ty} {pos : Position}
    (trimmed : r.trim t level = .bracketed items pos) : ∃ written, t = .bracketed written pos := by
  have sameForm : t.ctorIdx = (Ty.bracketed items pos).ctorIdx := trimmed ▸ form_of_trim (by rw [trimmed]; rfl)
  cases t <;> cases sameForm
  rw [trim_bracketed] at trimmed
  cases trimmed
  exact ⟨_, rfl⟩

theorem argument_of_trim {t : Ty} {level : Nesting} {item : Ty} {name form : Option String} {pos : Position}
    (trimmed : r.trim t level = .argument item name form pos) : ∃ written, t = .argument written name form pos := by
  have sameForm : t.ctorIdx = (Ty.argument item name form pos).ctorIdx := trimmed ▸ form_of_trim (by rw [trimmed]; rfl)
  cases t <;> cases sameForm
  rw [trim_argument] at trimmed
  cases trimmed
  exact ⟨_, rfl⟩

theorem isStar_trim (r : Resolver) (t : Ty) (level : Nesting) : (r.trim t level).isStar = t.isStar := by
  cases mark : (r.trim t level).isMark with
  | true =>
    have sameForm := form_of_trim mark
    generalize r.trim t level = u at sameForm
    cases t <;> cases u <;> first | rfl | cases sameForm
  | false =>
    have noMark : t.isMark = false := isMark_trim r t level ▸ mark
    have notStar {t : Ty} (noMark : t.isMark = false) : t.isStar = false := by
      cases t <;> first | rfl | cases noMark
    rw [notStar mark, notStar noMark]

theorem seemsCallable_trim (r : Resolver) (ref : Reference) (level : Nesting) :
    VariableSearch.seemsCallable (ref.withArgs (ref.args.map (r.trim · level))) = VariableSearch.seemsCallable ref := by
  unfold VariableSearch.seemsCallable Reference.withArgs
  cases ref.args with
  | nil => rfl
  | cons first others =>
    rw [List.map_cons, List.head?_cons, List.head?_cons]
    cases first with
    | ellipsis => rw [trim_ellipsis]
    | bracketed => rw [trim_bracketed]
    | _ =>
      split
      · rename_i trimmed
        cases trim_eq_ellipsis_iff.1 (Option.some.inj trimmed)
      · rename_i trimmed
        obtain ⟨_, same⟩ := bracketed_of_trim (Option.some.inj trimmed)
        cases same
      · rfl

/-- No type variable is cut away. -/
theorem run_trim {search : VariableSearch} (sameTable : search.table = r.table) (t : Ty) (level : Nesting) :
    search.run (r.trim t level) = search.run t := by
  induction t using Ty.inductionOn generalizing level with
  | step t ih =>
    rw [trim_eq]
    split
    · rename_i cut
      have none_ : search.run t = [] := by
        refine List.eq_nil_iff_forall_not_mem.2 fun use member => ?_
        obtain ⟨ref, decl, inside, found, _⟩ := VariableSearch.found_of_mem_run member
        have absent : r.table.lookupTypeVar? ref.name = none := cut.2.2 _ inside ref rfl
        obtain ⟨known, _⟩ := Option.filter_eq_some_iff.1 found
        rw [sameTable, absent] at known
        cases known
      rw [none_, VariableSearch.run_eq]
      rfl
    · split
      · rename_i inner _
        have parts : (t.withChildren (t.children.map (r.trim · inner))).children.map search.run =
            t.children.map search.run := by
          rw [Ty.children_withChildren _ _ (List.length_map _), List.map_map]
          exact List.map_congr_left fun c member => ih c member inner
        rw [VariableSearch.run_eq, VariableSearch.run_eq, parts]
        cases t with
        | named ref =>
          have sameEntry : search.entersReference (ref.withArgs (ref.args.map (r.trim · inner))) =
              search.entersReference ref := by
            simp only [VariableSearch.entersReference, seemsCallable_trim]
            rfl
          simp only [Ty.withChildren, Ty.children, sameEntry]
          rfl
        | _ => rfl
      · rfl

end Resolver

end TypeResolution
