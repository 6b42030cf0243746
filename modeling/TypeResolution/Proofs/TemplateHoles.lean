import Mathlib.Data.List.Induction
import Mathlib.Data.List.Infix
import TypeResolution.ParameterList

namespace TypeResolution

namespace Template

/-- The number of the hole that the text begins with, if it is one of those below `n`. -/
def holeAtHead? (n : Nat) (text : List Char) : Option Nat :=
  (List.range n).find? fun i => (hole i).toList.isPrefixOf text

/-- Puts the arguments in the places of their holes, all at once: what comes in with an argument is not read again. The
counter says how many of the next characters belong to a hole that was filled already. -/
def fillHoles (args : List String) : Nat → List Char → List Char
  | _, [] => []
  | passed + 1, _ :: rest => fillHoles args passed rest
  | 0, c :: rest =>
    match holeAtHead? args.length (c :: rest) with
    | some i => (args.getD i "").toList ++ fillHoles args ((hole i).toList.length - 1) rest
    | none => c :: fillHoles args 0 rest

/-- The text of `template` with its holes filled at the same time, and all else as it is. -/
def fillAtOnce (template : String) (args : List String) : String := .ofList (fillHoles args 0 template.toList)

/-- The number of the places where hole number `i` stands. -/
def holeCount (i : Nat) (text : List Char) : Nat :=
  text.tails.countP fun rest => (hole i).toList.isPrefixOf rest

section Holes

variable {i j : Nat} {c : Char} {text : List Char}

theorem hole_toList (i : Nat) : (hole i).toList = '\x7b' :: (Nat.toDigits 10 i ++ ['\x7d']) := by
  simp [hole]

theorem hole_append (i : Nat) (text : List Char) :
    (hole i).toList ++ text = '\x7b' :: ((hole i).toList.tail ++ text) := by
  rw [hole_toList]
  rfl

theorem drop_hole_tail (i : Nat) (text : List Char) :
    ((hole i).toList.tail ++ text).drop ((hole i).toList.length - 1) = text :=
  List.drop_left' List.length_tail

theorem plain_of_mem_toDigits (member : c ∈ Nat.toDigits 10 i) : c ≠ '\x7b' ∧ c ≠ '\x7d' := by
  have digit := Nat.isDigit_of_mem_toDigits (by decide) (by decide) member
  constructor <;> rintro rfl <;> cases digit

/-- A text that ends with its only `z` begins no other such text. -/
theorem eq_of_prefix_closed {z : Char} {xs ys : List Char} (begins : xs ++ [z] <+: ys ++ [z]) (apart : z ∉ ys) :
    xs = ys := by
  induction xs generalizing ys with
  | nil =>
    cases ys with
    | nil => rfl
    | cons y ys =>
      have same : z = y := (List.cons_prefix_cons.1 begins).1
      exact absurd (same ▸ List.mem_cons_self) apart
  | cons x xs ih =>
    cases ys with
    | nil => simp at begins
    | cons y ys =>
      obtain ⟨same, begins⟩ := List.cons_prefix_cons.1 begins
      rw [same, ih begins fun member => apart (List.mem_cons_of_mem y member)]

theorem eq_of_hole_begins (begins : (hole i).toList <+: (hole j).toList) : i = j := by
  rw [hole_toList, hole_toList] at begins
  have digits := eq_of_prefix_closed (List.cons_prefix_cons.1 begins).2 fun member =>
    (plain_of_mem_toDigits member).2 rfl
  have read := congrArg (Nat.ofDigitChars 10 · 0) digits
  simpa using read

/-- No two holes stand in one place. -/
theorem hole_prefix_iff : (hole i).toList <+: (hole j).toList ++ text ↔ i = j := by
  constructor
  · intro begins
    rcases List.prefix_or_prefix_of_prefix begins (List.prefix_append _ text) with shorter | longer
    · exact eq_of_hole_begins shorter
    · exact (eq_of_hole_begins longer).symm
  · rintro rfl
    exact List.prefix_append _ text

/-- A hole begins with a brace. -/
theorem no_hole_begins (plain : c ≠ '\x7b') : ¬ (hole i).toList <+: c :: text := by
  rw [hole_toList]
  exact fun begins => plain (List.cons_prefix_cons.1 begins).1.symm

theorem hole_tail_plain (i : Nat) : ∀ c ∈ (hole i).toList.tail, c ≠ '\x7b' := by
  intro c member
  rw [hole_toList, List.tail_cons] at member
  rcases List.mem_append.1 member with member | member
  · exact (plain_of_mem_toDigits member).1
  · rw [List.mem_singleton.1 member]
    decide

/-- A text is read from the left: a hole at a time where one of the given holes stands, and else a character at a time. -/
theorem holesInduction (given : Nat → Prop) {motive : List Char → Prop} (nil : motive [])
    (hole : ∀ i text, given i → motive text → motive ((hole i).toList ++ text))
    (char : ∀ c text, (∀ i, given i → ¬ (Template.hole i).toList <+: c :: text) → motive text → motive (c :: text))
    (text : List Char) : motive text := by
  induction size : text.length using Nat.strongRecOn generalizing text with
  | ind n ih =>
    cases text with
    | nil => exact nil
    | cons c text =>
      by_cases stands : ∃ i, given i ∧ (Template.hole i).toList <+: c :: text
      · obtain ⟨i, isGiven, rest, whole⟩ := stands
        rw [← whole] at size ⊢
        have shorter : rest.length < n := by
          rw [hole_toList] at size
          simp only [List.cons_append, List.length_cons, List.length_append] at size
          omega
        exact hole i rest isGiven (ih rest.length shorter rest rfl)
      · have shorter : text.length < n := by
          simp only [List.length_cons] at size
          omega
        exact char c text (fun i isGiven begins => stands ⟨i, isGiven, begins⟩) (ih text.length shorter text rfl)

theorem holeCount_nil (i : Nat) : holeCount i [] = 0 := by
  simp [holeCount, hole_toList]

theorem holeCount_cons (i : Nat) (c : Char) (text : List Char) :
    holeCount i (c :: text) = holeCount i text + if (hole i).toList <+: c :: text then 1 else 0 := by
  simp only [holeCount, List.tails_cons, List.countP_cons, List.isPrefixOf_iff_prefix]

theorem holeCount_append_le (i : Nat) (before text : List Char) : holeCount i text ≤ holeCount i (before ++ text) := by
  induction before with
  | nil => exact le_rfl
  | cons c before ih =>
    rw [List.cons_append, holeCount_cons]
    omega

theorem holeCount_plain {before : List Char} (plain : ∀ c ∈ before, c ≠ '\x7b') (i : Nat) (text : List Char) :
    holeCount i (before ++ text) = holeCount i text := by
  induction before with
  | nil => rfl
  | cons c before ih =>
    have here : ¬ (hole i).toList <+: c :: (before ++ text) := no_hole_begins (plain c List.mem_cons_self)
    rw [List.cons_append, holeCount_cons, if_neg here, Nat.add_zero,
      ih fun d member => plain d (List.mem_cons_of_mem c member)]

theorem holeCount_hole (i j : Nat) (text : List Char) :
    holeCount i ((hole j).toList ++ text) = holeCount i text + if i = j then 1 else 0 := by
  rw [hole_append, holeCount_cons, ← hole_append, holeCount_plain (hole_tail_plain j)]
  simp only [hole_prefix_iff]

end Holes

section Replacing

variable {pattern replacement text : List Char}

theorem replaceAll_passed (passed : Nat) (text : List Char) :
    replaceAll pattern replacement passed text = replaceAll pattern replacement 0 (text.drop passed) := by
  induction text generalizing passed with
  | nil => cases passed <;> rfl
  | cons c text ih =>
    cases passed with
    | zero => rfl
    | succ passed => exact ih passed

theorem replaceAll_hole (i : Nat) (replacement text : List Char) :
    replaceAll (hole i).toList replacement 0 ((hole i).toList ++ text) =
      replacement ++ replaceAll (hole i).toList replacement 0 text := by
  have begins : (hole i).toList.isPrefixOf ((hole i).toList ++ text) = true := by
    rw [List.isPrefixOf_iff_prefix]
    exact List.prefix_append _ text
  rw [hole_append] at begins ⊢
  rw [replaceAll, if_pos begins, replaceAll_passed, drop_hole_tail]

theorem replaceAll_char {i : Nat} {c : Char} (other : ¬ (hole i).toList <+: c :: text) :
    replaceAll (hole i).toList replacement 0 (c :: text) = c :: replaceAll (hole i).toList replacement 0 text := by
  rw [replaceAll, if_neg (by rwa [List.isPrefixOf_iff_prefix])]

/-- What a hole does not reach into is left alone. -/
theorem replaceAll_before {i : Nat} {before : List Char} (none : holeCount i (before ++ text) = holeCount i text) :
    replaceAll (hole i).toList replacement 0 (before ++ text) =
      before ++ replaceAll (hole i).toList replacement 0 text := by
  induction before with
  | nil => rfl
  | cons c before ih =>
    have within := holeCount_append_le i before text
    rw [List.cons_append, holeCount_cons] at none
    have other : ¬ (hole i).toList <+: c :: (before ++ text) := by
      intro begins
      rw [if_pos begins] at none
      omega
    rw [if_neg other] at none
    rw [List.cons_append, replaceAll_char other, ih none, List.cons_append]

/-- Each replacement changes the length by as much as the argument and the hole differ in length. -/
theorem length_replaceAll (i : Nat) (replacement text : List Char) :
    (replaceAll (hole i).toList replacement 0 text).length + holeCount i text * (hole i).toList.length =
      text.length + holeCount i text * replacement.length := by
  induction text using holesInduction (· = i) with
  | nil => simp [replaceAll, holeCount_nil]
  | hole j text same ih =>
    subst same
    rw [replaceAll_hole, holeCount_hole, if_pos rfl]
    simp only [List.length_append, Nat.add_mul, Nat.one_mul]
    omega
  | char c text other ih =>
    have here := other i rfl
    rw [replaceAll_char here, holeCount_cons, if_neg here]
    simp only [List.length_cons, Nat.add_zero]
    omega

end Replacing

section Filling

variable {args : List String} {text : List Char}

theorem fillHoles_passed (passed : Nat) (text : List Char) :
    fillHoles args passed text = fillHoles args 0 (text.drop passed) := by
  induction text generalizing passed with
  | nil => cases passed <;> rfl
  | cons c text ih =>
    cases passed with
    | zero => rfl
    | succ passed => exact ih passed

theorem holeAtHead?_hole {n i : Nat} (bound : i < n) (text : List Char) :
    holeAtHead? n ((hole i).toList ++ text) = some i := by
  have atHead : (fun j => (hole j).toList.isPrefixOf ((hole i).toList ++ text)) = (· == i) := by
    funext j
    rw [Bool.eq_iff_iff, List.isPrefixOf_iff_prefix, hole_prefix_iff, beq_iff_eq]
  rw [holeAtHead?, atHead, List.find?_range_eq_some]
  simp only [beq_self_eq_true, Bool.not_eq_eq_eq_not, Bool.not_true, beq_eq_false_iff_ne]
  exact ⟨trivial, List.mem_range.2 bound, fun j earlier => earlier.ne⟩

theorem holeAtHead?_char {n : Nat} (none : ∀ i < n, ¬ (hole i).toList <+: text) : holeAtHead? n text = Option.none := by
  rw [holeAtHead?, List.find?_eq_none]
  intro i member
  rw [List.isPrefixOf_iff_prefix]
  exact none i (List.mem_range.1 member)

theorem fillHoles_hole {i : Nat} {arg : String} (given : args[i]? = some arg) (text : List Char) :
    fillHoles args 0 ((hole i).toList ++ text) = arg.toList ++ fillHoles args 0 text := by
  obtain ⟨bound, _⟩ := List.getElem?_eq_some_iff.1 given
  have atHead := holeAtHead?_hole bound text
  rw [hole_append] at atHead ⊢
  rw [fillHoles, atHead]
  dsimp only
  rw [fillHoles_passed, List.getD_eq_getElem?_getD, given, Option.getD_some, drop_hole_tail]

theorem fillHoles_char {c : Char} (none : ∀ i < args.length, ¬ (hole i).toList <+: c :: text) :
    fillHoles args 0 (c :: text) = c :: fillHoles args 0 text := by
  rw [fillHoles, holeAtHead?_char none]

theorem fillHoles_plain {before : List Char} (plain : ∀ c ∈ before, c ≠ '\x7b') (text : List Char) :
    fillHoles args 0 (before ++ text) = before ++ fillHoles args 0 text := by
  induction before with
  | nil => rfl
  | cons c before ih =>
    rw [List.cons_append, fillHoles_char fun i _ => no_hole_begins (plain c List.mem_cons_self),
      ih fun d member => plain d (List.mem_cons_of_mem c member), List.cons_append]

/-- A hole without an argument stays. -/
theorem fillHoles_later {i : Nat} (later : args.length ≤ i) (text : List Char) :
    fillHoles args 0 ((hole i).toList ++ text) = (hole i).toList ++ fillHoles args 0 text := by
  have other : ∀ j < args.length, ¬ (hole j).toList <+: (hole i).toList ++ text := by
    intro j bound
    rw [hole_prefix_iff]
    omega
  rw [hole_append] at other ⊢
  rw [fillHoles_char other, fillHoles_plain (hole_tail_plain i), ← hole_append]

theorem fillHoles_nil (text : List Char) : fillHoles [] 0 text = text := by
  induction text with
  | nil => rfl
  | cons c text ih => rw [fillHoles_char (by simp), ih]

theorem fillHoles_earlier {i : Nat} (earlier : i < args.length) (text : List Char) :
    fillHoles args 0 ((hole i).toList ++ text) = args[i].toList ++ fillHoles args 0 text :=
  fillHoles_hole (List.getElem?_eq_getElem earlier) text

section Next

/-! The same with one argument more -/

variable (arg : String)

theorem fillHoles_next_earlier {i : Nat} (earlier : i < args.length) (text : List Char) :
    fillHoles (args ++ [arg]) 0 ((hole i).toList ++ text) = args[i].toList ++ fillHoles (args ++ [arg]) 0 text := by
  have given : (args ++ [arg])[i]? = some args[i] := by
    rw [List.getElem?_append_left earlier, List.getElem?_eq_getElem earlier]
  exact fillHoles_hole given text

theorem fillHoles_next_hole (text : List Char) :
    fillHoles (args ++ [arg]) 0 ((hole args.length).toList ++ text) = arg.toList ++ fillHoles (args ++ [arg]) 0 text := by
  have given : (args ++ [arg])[args.length]? = some arg := by simp
  exact fillHoles_hole given text

theorem fillHoles_next_char {c : Char} (none : ∀ i ≤ args.length, ¬ (hole i).toList <+: c :: text) :
    fillHoles (args ++ [arg]) 0 (c :: text) = c :: fillHoles (args ++ [arg]) 0 text := by
  refine fillHoles_char fun i bound => none i ?_
  rw [List.length_append, List.length_singleton] at bound
  exact Nat.le_of_lt_succ bound

end Next

end Filling

/-- The holes in a text of which the first ones have been filled: they are those that were there before, and others that the
arguments brought in or that have come together at their ends. -/
theorem holeCount_le_fillHoles (args : List String) (text : List Char) :
    holeCount args.length text ≤ holeCount args.length (fillHoles args 0 text) := by
  induction text using holesInduction (· ≤ args.length) with
  | nil => exact le_rfl
  | hole i text bound ih =>
    rcases Nat.lt_or_eq_of_le bound with earlier | rfl
    · rw [holeCount_hole, if_neg earlier.ne', fillHoles_earlier earlier]
      exact ih.trans (holeCount_append_le _ _ _)
    · rw [fillHoles_later le_rfl, holeCount_hole, holeCount_hole]
      omega
  | char c text none ih =>
    rw [fillHoles_char fun i bound => none i bound.le, holeCount_cons, holeCount_cons, if_neg (none _ le_rfl)]
    omega

/-- If no hole for the next argument has come in, that argument is put in its places in the text as it was. -/
theorem replaceAll_fillHoles {args : List String} {text : List Char}
    (same : holeCount args.length (fillHoles args 0 text) = holeCount args.length text) (arg : String) :
    replaceAll (hole args.length).toList arg.toList 0 (fillHoles args 0 text) = fillHoles (args ++ [arg]) 0 text := by
  induction text using holesInduction (· ≤ args.length) with
  | nil => rfl
  | hole i text bound ih =>
    have grown := holeCount_le_fillHoles args text
    rcases Nat.lt_or_eq_of_le bound with earlier | rfl
    · have within := holeCount_append_le args.length args[i].toList (fillHoles args 0 text)
      rw [fillHoles_earlier earlier, holeCount_hole, if_neg earlier.ne'] at same
      rw [fillHoles_earlier earlier, fillHoles_next_earlier arg earlier, replaceAll_before (by omega), ih (by omega)]
    · rw [fillHoles_later le_rfl, holeCount_hole, holeCount_hole] at same
      rw [fillHoles_later le_rfl, fillHoles_next_hole, replaceAll_hole, ih (by omega)]
  | char c text none ih =>
    have grown := holeCount_le_fillHoles args text
    have before : ∀ i < args.length, ¬ (hole i).toList <+: c :: text := fun i bound => none i bound.le
    rw [fillHoles_char before, holeCount_cons, holeCount_cons, if_neg (none _ le_rfl)] at same
    have other : ¬ (hole args.length).toList <+: c :: fillHoles args 0 text := by
      intro begins
      rw [if_pos begins] at same
      omega
    rw [if_neg other] at same
    rw [fillHoles_char before, fillHoles_next_char arg none, replaceAll_char other, ih (by omega)]

/-- One argument more changes the length by its own for each hole that it fills. -/
theorem length_fillHoles (args : List String) (arg : String) (text : List Char) :
    (fillHoles (args ++ [arg]) 0 text).length + holeCount args.length text * (hole args.length).toList.length =
      (fillHoles args 0 text).length + holeCount args.length text * arg.toList.length := by
  induction text using holesInduction (· ≤ args.length) with
  | nil => simp [fillHoles, holeCount_nil]
  | hole i text bound ih =>
    rcases Nat.lt_or_eq_of_le bound with earlier | rfl
    · rw [fillHoles_earlier earlier, fillHoles_next_earlier arg earlier, holeCount_hole, if_neg earlier.ne']
      simp only [List.length_append, Nat.add_zero]
      omega
    · rw [fillHoles_later le_rfl, fillHoles_next_hole, holeCount_hole, if_pos rfl]
      simp only [List.length_append, Nat.add_mul, Nat.one_mul]
      omega
  | char c text none ih =>
    rw [fillHoles_char fun i bound => none i bound.le, fillHoles_next_char arg none, holeCount_cons,
      if_neg (none _ le_rfl)]
    simp only [List.length_cons, Nat.add_zero]
    omega

theorem fillFrom_append (i : Nat) (args : List String) (arg text : String) :
    fillFrom i (args ++ [arg]) text =
      .ofList (replaceAll (hole (i + args.length)).toList arg.toList 0 (fillFrom i args text).toList) := by
  induction args generalizing i text with
  | nil => rfl
  | cons first args ih =>
    rw [List.cons_append, fillFrom, ih, fillFrom, List.length_cons, Nat.add_right_comm, Nat.add_assoc]

theorem fill_append (template : String) (args : List String) (arg : String) :
    fill template (args ++ [arg]) =
      .ofList (replaceAll (hole args.length).toList arg.toList 0 (fill template args).toList) := by
  rw [fill, fillFrom_append, Nat.zero_add, fill]

/-- When the turn of an argument comes, the text has as many holes for it as the template. -/
def KeepsHoles (template : String) (args : List String) : Prop :=
  ∀ j < args.length, holeCount j (fill template (args.take j)).toList = holeCount j template.toList

theorem keepsHoles_append {template : String} {args : List String} {arg : String} :
    KeepsHoles template (args ++ [arg]) ↔
      KeepsHoles template args ∧ holeCount args.length (fill template args).toList = holeCount args.length template.toList := by
  constructor
  · intro keeps
    refine ⟨fun j bound => ?_, ?_⟩
    · have here := keeps j (by simp; omega)
      rwa [List.take_append_of_le_length bound.le] at here
    · have here := keeps args.length (by simp)
      rwa [List.take_append_of_le_length le_rfl, List.take_length] at here
  · rintro ⟨keeps, last⟩ j bound
    rw [List.length_append, List.length_singleton] at bound
    rw [List.take_append_of_le_length (by omega)]
    rcases Nat.lt_or_eq_of_le (Nat.le_of_lt_succ bound) with earlier | rfl
    · exact keeps j earlier
    · rw [List.take_length]
      exact last

theorem fillAtOnce_nil (template : String) : fillAtOnce template [] = template := by
  rw [fillAtOnce, fillHoles_nil, String.ofList_toList]

theorem KeepsHoles.fill_eq {template : String} {args : List String} (keeps : KeepsHoles template args) :
    fill template args = fillAtOnce template args := by
  induction args using List.reverseRecOn with
  | nil => exact (fillAtOnce_nil template).symm
  | append_singleton args arg ih =>
    obtain ⟨keeps, last⟩ := keepsHoles_append.1 keeps
    rw [ih keeps, fillAtOnce, String.toList_ofList] at last
    rw [fill_append, ih keeps, fillAtOnce, String.toList_ofList, replaceAll_fillHoles last, fillAtOnce]

/-- If a long argument is put in its places in the template, there are no other places for it. -/
theorem holeCount_of_fill_eq {template : String} {args : List String} (before : fill template args = fillAtOnce template args)
    {arg : String} (longer : (hole args.length).toList.length < arg.toList.length)
    (after : fill template (args ++ [arg]) = fillAtOnce template (args ++ [arg])) :
    holeCount args.length (fill template args).toList = holeCount args.length template.toList := by
  have grown := holeCount_le_fillHoles args template.toList
  have byOne := length_replaceAll args.length arg.toList (fillHoles args 0 template.toList)
  have atOnce := length_fillHoles args arg template.toList
  rw [fill_append, before, fillAtOnce, String.toList_ofList, fillAtOnce, String.ofList_inj] at after
  rw [after] at byOne
  rw [before, fillAtOnce, String.toList_ofList]
  generalize holeCount args.length (fillHoles args 0 template.toList) = came at *
  generalize holeCount args.length template.toList = were at *
  refine Nat.le_antisymm ?_ grown
  by_contra more
  obtain ⟨extra, rfl⟩ := Nat.exists_eq_add_of_lt (Nat.lt_of_not_le more)
  have fewer : (extra + 1) * (hole args.length).toList.length < (extra + 1) * arg.toList.length :=
    Nat.mul_lt_mul_of_pos_left longer (Nat.succ_pos extra)
  simp only [Nat.add_assoc, Nat.add_mul were] at byOne
  omega

/-- Every opening brace is that of one of the holes below `n`. -/
def BracesAreHoles (n : Nat) (text : List Char) : Prop :=
  ∀ rest ∈ text.tails, rest.head? = some '\x7b' → ∃ i < n, (hole i).toList <+: rest

theorem BracesAreHoles.rest {n : Nat} {before text : List Char} (own : BracesAreHoles n (before ++ text)) :
    BracesAreHoles n text := by
  intro rest member
  refine own rest ?_
  rw [List.mem_tails] at member ⊢
  exact member.trans (List.suffix_append before text)

/-- Arguments without opening braces bring no holes into a template that has no other braces than those of its holes. -/
theorem holeCount_fillHoles {args : List String} (plain : ∀ arg ∈ args, '\x7b' ∉ arg.toList) {n : Nat} {text : List Char}
    (own : BracesAreHoles n text) (i : Nat) (later : args.length ≤ i) :
    holeCount i (fillHoles args 0 text) = holeCount i text := by
  induction text using holesInduction (· < n) with
  | nil => rfl
  | hole j text _ ih =>
    have rest := ih own.rest
    rcases Nat.lt_or_ge j args.length with earlier | notFilled
    · have noBrace : ∀ c ∈ args[j].toList, c ≠ '\x7b' := by
        rintro c member rfl
        exact plain args[j] (List.getElem_mem earlier) member
      rw [fillHoles_earlier earlier, holeCount_plain noBrace, holeCount_hole, rest,
        if_neg (by omega), Nat.add_zero]
    · rw [fillHoles_later notFilled, holeCount_hole, holeCount_hole, rest]
  | char c text none ih =>
    have noBrace : c ≠ '\x7b' := by
      rintro rfl
      obtain ⟨j, bound, begins⟩ := own _ ((List.mem_tails _ _).2 (List.suffix_refl _)) rfl
      exact none j bound begins
    have after : BracesAreHoles n ([c] ++ text) := own
    have rest := ih after.rest
    rw [fillHoles_char fun _ _ => no_hole_begins noBrace, holeCount_cons, holeCount_cons, rest,
      if_neg (no_hole_begins noBrace), if_neg (no_hole_begins noBrace)]

theorem keepsHoles_of_plain {n : Nat} {template : String} (own : BracesAreHoles n template.toList) {args : List String}
    (plain : ∀ arg ∈ args.dropLast, '\x7b' ∉ arg.toList) : KeepsHoles template args := by
  induction args using List.reverseRecOn with
  | nil => simp [KeepsHoles]
  | append_singleton args arg ih =>
    rw [List.dropLast_concat] at plain
    have keeps : KeepsHoles template args := ih fun arg member => plain arg (List.dropLast_subset args member)
    refine keepsHoles_append.2 ⟨keeps, ?_⟩
    rw [keeps.fill_eq, fillAtOnce, String.toList_ofList]
    exact holeCount_fillHoles plain own args.length le_rfl

theorem bracesAreHoles_plain {n : Nat} {text : List Char} (plain : '\x7b' ∉ text) : BracesAreHoles n text := by
  intro rest member brace
  obtain ⟨tail, rfl⟩ := List.head?_eq_some_iff.1 brace
  exact absurd (((List.mem_tails _ _).1 member).subset List.mem_cons_self) plain

theorem bracesAreHoles_append {n : Nat} {before : List Char} (plain : '\x7b' ∉ before) (text : List Char) :
    BracesAreHoles n (before ++ text) ↔ BracesAreHoles n text := by
  refine ⟨BracesAreHoles.rest, fun own => ?_⟩
  induction before with
  | nil => exact own
  | cons c before ih =>
    intro rest member brace
    rw [List.cons_append, List.tails_cons] at member
    rcases List.mem_cons.1 member with rfl | member
    · exact absurd (Option.some.inj brace ▸ List.mem_cons_self) plain
    · exact ih (fun inside => plain (List.mem_cons_of_mem c inside)) rest member brace

theorem bracesAreHoles_hole {n i : Nat} (bound : i < n) (text : List Char) :
    BracesAreHoles n ((hole i).toList ++ text) ↔ BracesAreHoles n text := by
  refine ⟨BracesAreHoles.rest, fun own rest member brace => ?_⟩
  have plain : '\x7b' ∉ (hole i).toList.tail := fun inside => hole_tail_plain i _ inside rfl
  rw [hole_append, List.tails_cons] at member
  rcases List.mem_cons.1 member with rfl | member
  · rw [← hole_append]
    exact ⟨i, bound, List.prefix_append _ text⟩
  · exact (bracesAreHoles_append plain text).2 own rest member brace

theorem bracesAreHoles_lastHole {n i : Nat} (bound : i < n) : BracesAreHoles n (hole i).toList := by
  have alone := (bracesAreHoles_hole bound []).2 (bracesAreHoles_plain List.not_mem_nil)
  rwa [List.append_nil] at alone

end Template

open Template

/-- The templates have no other braces than those of the holes for their details. -/
theorem Problem.bracesAreHoles (p : Problem) (detailed : p.details ≠ []) :
    BracesAreHoles p.details.length p.template.toList := by
  cases p <;> first
    | exact absurd rfl detailed
    | (unfold template details
       simp (disch := simp) only [List.length_cons, List.length_nil, String.toList_append, List.append_assoc,
         bracesAreHoles_append, bracesAreHoles_hole, bracesAreHoles_lastHole, bracesAreHoles_plain])

/-- The holes of a template are filled one after the other. An argument is put in its places in the template, and there only,
whatever it is, exactly if the arguments before it have brought no holes for it into the text, on their own or together with
what stands around them. Then all holes are filled as if at once; in particular if the template has no other opening braces
than those of its holes, as those of all problems, and no argument but the last one has any. -/
theorem Template.fill_atOnce_iff (template : String) (args : List String) :
    ((∀ j < args.length, ∀ arg, fill template (args.take j ++ [arg]) = fillAtOnce template (args.take j ++ [arg])) ↔
      ∀ j < args.length, holeCount j (fill template (args.take j)).toList = holeCount j template.toList) ∧
    ((∀ j < args.length, holeCount j (fill template (args.take j)).toList = holeCount j template.toList) →
      fill template args = fillAtOnce template args) ∧
    (BracesAreHoles args.length template.toList → (∀ arg ∈ args.dropLast, '\x7b' ∉ arg.toList) →
      fill template args = fillAtOnce template args) ∧
    (∀ p : Problem, (∀ detail ∈ p.details.dropLast, '\x7b' ∉ detail.toList) →
      p.text = fillAtOnce p.template p.details) := by
  refine ⟨⟨fun all j bound => ?_, fun keeps j bound arg => ?_⟩, KeepsHoles.fill_eq, fun own plain => ?_, fun p plain => ?_⟩
  · have before : fill template (args.take j) = fillAtOnce template (args.take j) := by
      cases j with
      | zero => exact (fillAtOnce_nil template).symm
      | succ j =>
        have earlier : j < args.length := Nat.lt_of_succ_lt bound
        rw [← List.take_concat_get' args j earlier]
        exact all j earlier args[j]
    have length : (args.take j).length = j := List.length_take_of_le bound.le
    -- any argument that is longer than the hole tells the places apart
    have after := all j bound (.ofList (List.replicate ((hole j).toList.length + 1) ' '))
    have here := holeCount_of_fill_eq before (by simp [length]) after
    rwa [length] at here
  · have before : KeepsHoles template (args.take j) := by
      intro i earlier
      rw [List.length_take_of_le bound.le] at earlier
      rw [List.take_take, Nat.min_eq_left earlier.le]
      exact keeps i (earlier.trans bound)
    refine KeepsHoles.fill_eq (keepsHoles_append.2 ⟨before, ?_⟩)
    rw [List.length_take_of_le bound.le]
    exact keeps j bound
  · exact (keepsHoles_of_plain own plain).fill_eq
  · by_cases detailed : p.details = []
    · rw [Problem.text, detailed, fillAtOnce_nil]
      rfl
    · exact (keepsHoles_of_plain (p.bracesAreHoles detailed) plain).fill_eq

/-- The name of an argument is put in one hole, and what it holds is no other one. -/
theorem Template.fill_atOnce_iff_name :
    (Problem.duplicateArgument "x" "\x7b0\x7d").text = fillAtOnce (Problem.duplicateArgument "x" "\x7b0\x7d").template
      ["x", "\x7b0\x7d"] :=
  (fill_atOnce_iff "" []).2.2.2 _ (by simp [Problem.details])

/-- The name of an argument may hold a hole that is filled after it. -/
theorem Template.duplicateArgument_refilled :
    (checkNames [some "\x7b1\x7d", some "\x7b1\x7d"] "Callable").map Problem.text =
      some "Duplicate argument \"Callable\" in Callable" ∧
    fillAtOnce (Problem.duplicateArgument "\x7b1\x7d" "Callable").template ["\x7b1\x7d", "Callable"] =
      "Duplicate argument \"\x7b1\x7d\" in Callable" ∧
    ¬ ∀ template args, fill template args = fillAtOnce template args := by
  have oneByOne : (Problem.duplicateArgument "\x7b1\x7d" "Callable").text = "Duplicate argument \"Callable\" in Callable" := by
    decide +kernel
  have atOnce : fillAtOnce (Problem.duplicateArgument "\x7b1\x7d" "Callable").template ["\x7b1\x7d", "Callable"] =
      "Duplicate argument \"\x7b1\x7d\" in Callable" := by
    decide +kernel
  have repeated : checkNames [some "\x7b1\x7d", some "\x7b1\x7d"] "Callable" =
      some (.duplicateArgument "\x7b1\x7d" "Callable") := by
    decide
  refine ⟨?_, atOnce, fun always => ?_⟩
  · rw [repeated, Option.map_some, oneByOne]
  · have same := always (Problem.duplicateArgument "\x7b1\x7d" "Callable").template ["\x7b1\x7d", "Callable"]
    rw [atOnce] at same
    have read := oneByOne.symm.trans same
    exact absurd read (by decide)

end TypeResolution
