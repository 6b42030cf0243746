import TypeResolution.Proofs.LaterTable
import TypeResolution.Proofs.LiteralMembers

namespace TypeResolution

open Resolve

theorem Ty.isSyntactic_of_equal {a b : Ty} (equal : a ≈ b) : a.isSyntactic = b.isSyntactic := by
  cases Ty.matches_of_beq equal <;> rfl

/-- The types that are never literals. -/
def Ty.isNoLiteral : Ty → Bool
  | .any .. | .noneType _ | .literal _ | .inst _ | .named _ | .scalar .. | .union .. => false
  | _ => true

theorem Resolver.not_silent_noLiteral {s : Scope} {pos : Position} {problem : Problem} {f : Option (List Ty)} :
    ¬ Yields Problem.Never (noLiteral pos problem) s f := fun yields => (yields_noLiteral yields).1

theorem Resolver.yields_literalOf {r : Resolver} {allowed : Problem → Prop} {s : Scope} {value : LiteralValue}
    {className : String} {pos : Position} {f : Option (List Ty)} (yields : Yields allowed (r.literalOf value className pos) s f) :
    f = (r.instanceOf? (r.stringClass className) [] pos).map fun fallback => [.literal ⟨value, fallback, pos⟩] := by
  rw [literalOf_eq] at yields
  obtain ⟨found, required, rfl⟩ := yields.map
  unfold requiredInstance at required
  split at required
  · rename_i i atClass
    rw [atClass, ← required.pure]
  · rename_i absent
    rw [absent]
    split at required
    · rw [← required.andThen.2.pure]
    · rw [← required.andThen.2.pure]

theorem LiteralsAlike.single {a b : Ty} (equal : a ≈ b) (literal : a.IsLiteral) : LiteralsAlike (Option.some [a]) (Option.some [b]) :=
  .some (.of_forall₂ (.cons equal .nil)) fun _ member => List.mem_singleton.1 member ▸ literal

namespace Resolver

/-- The second type is read as a literal after the classes have come as the first is before. -/
inductive ReadsAlike (r : Resolver) (after : SymbolTable) : Ty → Ty → Prop
  | any {x y : Ty} : x.isAny → y.isAny → ReadsAlike r after x y
  | noneType {p q : Position} : ReadsAlike r after (.noneType p) (.noneType q)
  | literal {a b : Literal} : a.beq b = true → ReadsAlike r after (.literal a) (.literal b)
  | inst {i j : Instance} : Literal.beqOption i.lastKnown j.lastKnown = true → ReadsAlike r after (.inst i) (.inst j)
  | quoted {a b : Reference} : r.SameString after a → b.quoted = a.quoted → b.quotedClass = a.quotedClass →
      ReadsAlike r after (.named a) (.named b)
  | scalar {value : Option LiteralValue} {className : String} {note : Option String} {p q : Position} :
      r.table.arrived? after (r.stringClass className) = none →
      ReadsAlike r after (.scalar value className note p) (.scalar value className note q)
  | never {x y : Ty} : x.isNoLiteral → ReadsAlike r after x y

namespace Arrives

variable {r : Resolver} {after : SymbolTable} (arrives : r.Arrives after) {s : Scope} {allowed : Problem → Prop}

include arrives

theorem literalOf_alike {value : LiteralValue} {className : String} {pos pos' : Position} {f g : Option (List Ty)}
    (absent : r.table.arrived? after (r.stringClass className) = none)
    (first : Yields Problem.Never (r.literalOf value className pos) s f)
    (second : Yields allowed ((r.withTable after).literalOf value className pos') s g) : LiteralsAlike f g := by
  rw [yields_literalOf first, yields_literalOf second]
  have sameClass : after.findClass? (r.stringClass className) = r.table.findClass? (r.stringClass className) :=
    arrives.matures.findClass?_eq absent
  have sameName : (r.withTable after).stringClass className = r.stringClass className := rfl
  rw [sameName]
  unfold instanceOf?
  rw [sameClass]
  cases r.table.findClass? (r.stringClass className) with
  | none => exact .none
  | some decl =>
    refine .single (Ty.Matches.beq (.literal (Literal.beq_iff.2 ⟨rfl, ?_⟩))) trivial
    exact Instance.of_congr decl.head (forall₂_refl_of fun t _ => Setoid.refl t) pos pos'

theorem leaf_alike {x y : Ty} (alike : r.ReadsAlike after x y) (quoted : ∀ ref, x = .named ref → ref.quoted.isSome)
    {index index' : Nat} {pos pos' : Position} {f g : Option (List Ty)}
    (first : Yields Problem.Never (r.literalLeaf index x pos) s f)
    (second : Yields allowed ((r.withTable after).literalLeaf index' y pos') s g) : LiteralsAlike f g := by
  cases alike with
  | any anyX anyY =>
    have noneOfAny {r : Resolver} {allowed : Problem → Prop} {t : Ty} {index : Nat} {pos : Position}
        {f : Option (List Ty)} (isAny : t.isAny) (yields : Yields allowed (r.literalLeaf index t pos) s f) : f = none := by
      cases t with
      | any origin missing at_ =>
        have yields : Yields allowed (if origin = .error ∨ origin = .specialForm then pure none
          else noLiteral pos (.literalOfAny index)) s f := yields
        split at yields
        · exact yields.pure.symm
        · exact (yields_noLiteral yields).2
      | _ => cases isAny
    rw [noneOfAny anyX first, noneOfAny anyY second]
    exact .none
  | noneType =>
    rw [← first.pure, ← second.pure]
    exact .single (Ty.Matches.beq .noneType) trivial
  | literal equal =>
    rw [← first.pure, ← second.pure]
    exact .single (Ty.Matches.beq (.literal equal)) trivial
  | @inst i j sameKnown =>
    obtain ⟨head, args, invalid, known, at_⟩ := i
    obtain ⟨head', args', invalid', known', at_'⟩ := j
    cases known with
    | none => exact (not_silent_noLiteral first).elim
    | some l =>
      cases known' with
      | none => cases sameKnown
      | some l' =>
        rw [← first.pure, ← second.pure]
        exact .single (Ty.Matches.beq (.literal sameKnown)) trivial
  | @quoted a b sameString sameText sameClass =>
    obtain ⟨text, isText⟩ := Option.isSome_iff_exists.1 (quoted a rfl)
    have isText' : b.quoted = some text := sameText.trans isText
    simp only [literalLeaf, isText] at first
    simp only [literalLeaf, isText', sameClass] at second
    exact literalOf_alike arrives (sameString (by rw [isText]; rfl)) first second
  | @scalar value className note p q absent =>
    cases value with
    | none =>
      have reported : Yields Problem.Never (if shortName className = "float" ∨ shortName className = "complex" then
        noLiteral pos (.literalOfKind index (shortName className)) else noLiteral pos .literalOfExpression) s f := first
      split at reported
      · exact (not_silent_noLiteral reported).elim
      · exact (not_silent_noLiteral reported).elim
    | some value => exact literalOf_alike arrives absent first second
  | never none => cases x <;> first | exact (not_silent_noLiteral first).elim | cases none

omit arrives in
/-- Only a name comes to a name. -/
theorem named_of_fulfil {r : Resolver} (new : Arrivals r) {t : Ty} {ref : Reference} (single : t.isUnion = false)
    (equal : Ty.named ref ≈ new.fulfil t) : ∃ ref', t = .named ref' := by
  have sameForm := Ty.form_of_beq equal
  cases here : new.awaits t with
  | true =>
    cases t with
    | forward fullname args pos =>
      cases fullname with
      | none => cases here
      | some fullname =>
        obtain ⟨decl, come⟩ := Option.isSome_iff_exists.1 (show (new.class? fullname).isSome = true from here)
        have resolved : (new.applied decl (args.map new.fulfil) pos).isSyntactic = false := by
          unfold Arrivals.applied
          split
          · exact new.bare_not_syntactic decl
          · split <;> rfl
        have alike := Ty.isSyntactic_of_equal equal
        rw [new.fulfil_forward come, resolved] at alike
        cases alike
    | _ => cases here
  | false =>
    rw [new.fulfil_of_form single here] at sameForm
    cases t <;> first | exact ⟨_, rfl⟩ | cases sameForm

theorem not_due_of_named {ref : Reference} (node : arrives.LiteralNode (.named ref)) :
    arrives.new.due (.named ref) = false := by
  rw [arrives.new.due_eq, show arrives.new.awaits (.named ref) = false from rfl, Bool.false_or, List.any_eq_false]
  exact fun t member => Bool.not_eq_true _ ▸ node.2.1 t member

/-- The members of what has been resolved are read as literals as what they come to. -/
theorem readsAlike_of_follow {x y : Ty} (node : arrives.LiteralNode x) (single : x.isUnion = false)
    (follow : y ≈ arrives.new.fulfil x) : r.ReadsAlike after x y := by
  cases x with
  | any => exact .any rfl (by
      rw [arrives.new.fulfil_of_isAny rfl] at follow
      cases Ty.matches_of_beq follow
      rfl)
  | noneType =>
    rw [arrives.new.fulfil_of_form rfl rfl] at follow
    cases Ty.matches_of_beq follow
    exact .noneType
  | literal l =>
    rw [arrives.new.fulfil_of_form rfl rfl] at follow
    cases Ty.matches_of_beq (Setoid.symm follow) with
    | literal equal => exact .literal equal
  | inst i =>
    rw [arrives.new.fulfil_inst] at follow
    cases Ty.matches_of_beq (Setoid.symm follow) with
    | inst equal => exact .inst (Literal.beqOption_iff.2 (Instance.beq_iff.1 equal).2.2)
  | named ref =>
    rw [arrives.new.fulfil_of_not_due (not_due_of_named arrives node)] at follow
    cases Ty.matches_of_beq follow with
    | named _ _ _ _ quoted quotedClass => exact .quoted node.1 quoted quotedClass
  | scalar => exact node.elim
  | union => cases single
  | _ => exact .never rfl

theorem literalNode_of_members {t : Ty} (parts : arrives.LiteralParts t) : ∀ m ∈ t.members, arrives.LiteralNode m := by
  induction parts with
  | @of t node _ ih =>
    intro m member
    cases t using Ty.unionCases with
    | union ms pos =>
      rw [Ty.members, Ty.membersOfAll_eq] at member
      obtain ⟨c, atChild, member⟩ := List.mem_flatMap.1 member
      exact ih rfl c atChild m member
    | other t notUnion =>
      rw [Ty.members_of_not_union notUnion] at member
      rw [List.mem_singleton.1 member]
      exact node

/-- The members of what a type comes to are those that its members come to. -/
theorem members_of_follow {x y : Ty} (kempt : arrives.new.Kempt x) (follow : y ≈ arrives.new.fulfil x) :
    SameTypes (x.members.map arrives.new.fulfil) y.members :=
  (arrives.new.members_fulfil kempt).symm.trans (Ty.members_of_equal follow).symm

/-- What has been resolved comes to a name only if it is one. -/
theorem named_of_follow {x : Ty} {ref : Reference} (parts : arrives.LiteralParts x) (kempt : arrives.new.Kempt x)
    (follow : .named ref ≈ arrives.new.fulfil x) : ∃ ref', x = .named ref' := by
  cases x using Ty.unionCases with
  | union ms pos =>
    have notDue : arrives.new.due (.union ms pos) = false := by
      refine Bool.eq_false_iff.2 fun dueness => ?_
      have flat := arrives.new.flatUnion_of_due kempt dueness
      have members := members_of_follow arrives kempt follow
      rw [flat.members_union] at members
      rw [arrives.new.due_eq, show arrives.new.awaits (.union ms pos) = false from rfl, Bool.false_or,
        List.any_eq_true] at dueness
      obtain ⟨m, member, dueness⟩ := dueness
      obtain ⟨_, atName, equal⟩ := members.left _ (List.mem_map_of_mem member)
      rw [List.mem_singleton.1 atName] at equal
      obtain ⟨ref', rfl⟩ := named_of_fulfil arrives.new (flat.flat m member) (Setoid.symm equal)
      have node : arrives.LiteralNode (.named ref') := by
        refine literalNode_of_members arrives parts _ ?_
        rw [flat.members_union]
        exact member
      rw [not_due_of_named arrives node] at dueness
      cases dueness
    rw [arrives.new.fulfil_of_not_due notDue] at follow
    cases Ty.isUnion_of_equal follow
  | other x notUnion =>
    exact named_of_fulfil arrives.new notUnion follow

/-- What has been resolved without a report is read as a literal as what it comes to. -/
theorem literalsOf_follow (noHooks : r.hooks = .empty) {x y : Ty} (parts : arrives.LiteralParts x)
    (kempt : arrives.new.Kempt x) (follow : y ≈ arrives.new.fulfil x) {n m index : Nat} {pos : Position} {level : Nesting}
    {f g : Option (List Ty)} (first : Yields Problem.Never (r.literalsOf (r.recursion n) index x pos level) s f)
    (second : Yields allowed ((r.withTable after).literalsOf ((r.withTable after).recursion m) index y pos level) s g) :
    LiteralsAlike f g := by
  have node := literalNode_of_members arrives parts
  have notNamed (ref : Reference) : x ≠ .named ref := by
    rintro rfl
    exact not_silent_noLiteral first
  have notNamed' (ref : Reference) : y ≠ .named ref := by
    rintro rfl
    obtain ⟨ref', same⟩ := named_of_follow arrives parts kempt follow
    exact notNamed ref' same
  have members := members_of_follow arrives kempt follow
  rw [← literals_of_not_named notNamed] at first
  rw [← literals_of_not_named notNamed'] at second
  have before : Collected (fun x f => (∀ ref, x = .named ref → ref.quoted.isSome) ∧
      Yields Problem.Never (r.literalLeaf index x pos) s f) x.members f := by
    refine literals_flat (n + 1) (fun _ _ _ quoted leaf => ⟨quoted, leaf⟩) (fun ref member unquoted k f name => ?_) first
    obtain ⟨_, _, symbol, decl, found, plain, defined⟩ := node _ member
    exact (not_silent_variable noHooks found plain defined unquoted k name).elim
  have later : Collected (fun y g => (∃ ref, y = .named ref ∧ ref.quoted = none) ∨
      Yields allowed ((r.withTable after).literalLeaf index y pos) s g) y.members g :=
    literals_flat (m + 1) (fun _ _ _ _ leaf => .inr leaf) (fun ref _ unquoted _ _ _ => .inl ⟨ref, rfl, unquoted⟩) second
  refine before.alike (R := fun x y => y ≈ arrives.new.fulfil x) later (fun u member => ?_) (fun v member => ?_) ?_
  · obtain ⟨v, atTarget, equal⟩ := members.left _ (List.mem_map_of_mem member)
    exact ⟨v, atTarget, Setoid.symm equal⟩
  · obtain ⟨_, made, equal⟩ := members.right v member
    obtain ⟨u, atSource, rfl⟩ := List.mem_map.1 made
    exact ⟨u, atSource, equal⟩
  · rintro u member v f g related ⟨quoted, leaf⟩ other
    have single := Ty.not_union_of_mem_members x u member
    have alike := readsAlike_of_follow arrives (node u member) single related
    rcases other with ⟨ref, rfl, unquoted⟩ | leaf'
    · obtain ⟨ref', rfl⟩ := named_of_fulfil arrives.new single related
      cases alike with
      | quoted _ sameText =>
        have isSome := quoted ref' rfl
        rw [← sameText, unquoted] at isSome
        cases isSome
      | any isAny => cases isAny
      | never none => cases none
    · exact leaf_alike arrives alike quoted leaf leaf'

end Arrives

end Resolver

end TypeResolution
