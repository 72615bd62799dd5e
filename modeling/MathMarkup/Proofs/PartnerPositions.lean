import MathMarkup.Proofs.Matching
import MathMarkup.Proofs.TextEscapes
import MathMarkup.Tex.Parser

/-!
# Where the partner of an opener stands

The scan for a partner keeps a depth. Counting says the same without it: the partner is the
first item up to which more is closed than opened. This holds for tokens and, with the escaped
braces left out of the count, for the characters of a text. Which braces are escaped is seen
from left to right, beginning behind the opener.
-/

namespace MathMarkup.Nesting

section Counting

variable {α : Type} [BEq α] {opener closer : α} {items : List α}

/-- The positions from `first` on up to which more is closed than opened, counted from `first`
to the position itself. -/
def overclosed (opener closer : α) (items : List α) (first : Nat) : Set Nat :=
  {position | first ≤ position ∧ position < items.length ∧
    ((items.take (position + 1)).drop first).count opener <
      ((items.take (position + 1)).drop first).count closer}

theorem mem_overclosed_zero_iff {position : Nat} :
    position ∈ overclosed opener closer items 0 ↔
      position < items.length ∧
        (items.take (position + 1)).count opener < (items.take (position + 1)).count closer := by
  simp [overclosed]

/-- What stands before the first position does not matter. -/
theorem add_mem_overclosed_iff {first offset : Nat} :
    first + offset ∈ overclosed opener closer items first ↔
      offset ∈ overclosed opener closer (items.drop first) 0 := by
  have sameItems : (items.take (first + offset + 1)).drop first =
      (items.drop first).take (offset + 1) := by
    rw [List.drop_take]
    congr 1
    omega
  have sameBound : first + offset < items.length ↔ offset < (items.drop first).length := by
    rw [List.length_drop]
    omega
  rw [mem_overclosed_zero_iff, ← sameItems, ← sameBound]
  simp [overclosed]

theorem isLeast_overclosed_add_iff {first offset : Nat} :
    IsLeast (overclosed opener closer items first) (first + offset) ↔
      IsLeast (overclosed opener closer (items.drop first) 0) offset := by
  refine and_congr add_mem_overclosed_iff ?_
  constructor
  · intro least other member
    have further := least (add_mem_overclosed_iff.mpr member)
    omega
  · intro least other member
    obtain ⟨beyond, rfl⟩ := Nat.exists_eq_add_of_le member.1
    have further := least (add_mem_overclosed_iff.mp member)
    omega

variable [LawfulBEq α]

/-- The invariant of the scan: no front of the items closes more than was open before it, and
what is open in the end is what the counts leave. -/
theorem depthAfter?_eq_some_iff (distinct : opener ≠ closer) {depth reached : Nat} :
    depthAfter? (· == opener) (· == closer) depth items = some reached ↔
      (∀ length, (items.take length).count closer ≤ depth + (items.take length).count opener) ∧
        reached + items.count closer = depth + items.count opener := by
  induction items generalizing depth with
  | nil => simp [depthAfter?, eq_comm]
  | cons item rest inductionHypothesis =>
    -- The empty front is harmless; any other one is the item with a front of the rest.
    rw [← Nat.and_forall_add_one]
    simp only [List.take_zero, List.take_succ_cons, List.count_nil, List.count_cons, depthAfter?,
      Nat.zero_le, true_and]
    by_cases opening : item = opener
    · have noCloser : (item == closer) = false := beq_false_of_ne (opening ▸ distinct)
      simp only [beq_iff_eq.mpr opening, noCloser, if_true, Bool.false_eq_true, if_false,
        inductionHypothesis]
      refine and_congr (forall_congr' fun length => ?_) ?_ <;> omega
    have noOpener : (item == opener) = false := beq_false_of_ne opening
    by_cases closing : item = closer
    · simp only [noOpener, beq_iff_eq.mpr closing, if_true, Bool.false_eq_true, if_false]
      cases depth with
      | zero =>
        refine iff_of_false (by simp) fun fits => ?_
        simpa using fits.1 0
      | succ outer =>
        simp only [inductionHypothesis]
        refine and_congr (forall_congr' fun length => ?_) ?_ <;> omega
    · have noCloser : (item == closer) = false := beq_false_of_ne closing
      simp only [noOpener, noCloser, Bool.false_eq_true, if_false, inductionHypothesis,
        Nat.add_zero]

/-- Items are balanced if no front of them has more closers than openers and they have as many
of both. -/
theorem balanced_iff_count (distinct : opener ≠ closer) :
    Balanced (· == opener) (· == closer) items ↔
      (∀ length, (items.take length).count closer ≤ (items.take length).count opener) ∧
        items.count closer = items.count opener := by
  unfold Balanced
  simp only [depthAfter?_eq_some_iff distinct, Nat.zero_add]

/-- The closer behind a balanced list is the first item up to which more is closed than opened. -/
theorem isLeast_overclosed_append (distinct : opener ≠ closer) {body : List α}
    (balanced : Balanced (· == opener) (· == closer) body) (tail : List α) :
    IsLeast (overclosed opener closer (body ++ closer :: tail) 0) body.length := by
  obtain ⟨fronts, equal⟩ := (balanced_iff_count distinct).mp balanced
  constructor
  · rw [mem_overclosed_zero_iff, List.take_length_add_append]
    simp [List.count_append, equal, distinct.symm]
  · intro position member
    by_contra earlier
    have inside : (body ++ closer :: tail).take (position + 1) = body.take (position + 1) :=
      List.take_append_of_le_length (by omega)
    have exceeds := (mem_overclosed_zero_iff.mp member).2
    rw [inside] at exceeds
    exact absurd (fronts (position + 1)) (by omega)

/-- Before the first item up to which more is closed than opened the items are balanced, and
the item is a closer. -/
theorem exists_of_isLeast_overclosed (distinct : opener ≠ closer) {position : Nat}
    (least : IsLeast (overclosed opener closer items 0) position) :
    ∃ body tail, items = body ++ closer :: tail ∧ body.length = position ∧
      Balanced (· == opener) (· == closer) body := by
  obtain ⟨inside, exceeds⟩ := mem_overclosed_zero_iff.mp least.1
  have fronts (length : Nat) (early : length ≤ position) :
      (items.take length).count closer ≤ (items.take length).count opener := by
    cases length with
    | zero => simp
    | succ earlier =>
      by_contra more
      have member : earlier ∈ overclosed opener closer items 0 :=
        mem_overclosed_zero_iff.mpr ⟨by omega, by omega⟩
      have notEarlier := least.2 member
      omega
  have before := fronts position le_rfl
  -- One item more turns the counts around, so that it closes and they were equal.
  rw [← List.take_concat_get' items position inside, List.count_append, List.count_append,
    List.count_singleton, List.count_singleton] at exceeds
  have isCloser : items[position] = closer := by
    by_contra other
    simp only [beq_iff_eq, other, if_false] at exceeds
    omega
  simp only [beq_iff_eq, isCloser, distinct.symm, if_true, if_false] at exceeds
  refine ⟨items.take position, items.drop (position + 1), ?_, List.length_take_of_le inside.le, ?_⟩
  · rw [← isCloser, List.getElem_cons_drop, List.take_append_drop]
  · refine (balanced_iff_count distinct).mpr ⟨fun length => ?_, by omega⟩
    rw [List.take_take]
    exact fronts _ (by omega)

/-- The scan finds the first item up to which more is closed than opened. -/
theorem closingOffset?_eq_some_iff_isLeast (distinct : opener ≠ closer) {offset : Nat} :
    closingOffset? (· == opener) (· == closer) items = some offset ↔
      IsLeast (overclosed opener closer items 0) offset := by
  rw [closingOffset?_eq_some_iff]
  constructor
  · rintro ⟨body, found, tail, rfl, rfl, balanced, -, isCloser⟩
    rw [eq_of_beq isCloser]
    exact isLeast_overclosed_append distinct balanced tail
  · intro least
    obtain ⟨body, tail, rfl, rfl, balanced⟩ := exists_of_isLeast_overclosed distinct least
    exact ⟨body, closer, tail, rfl, rfl, balanced, by simp [distinct.symm], by simp⟩

/-- The scan behind `start` finds the first position after it up to which more is closed than
opened, counted in the whole list. -/
theorem partner_eq_some_iff (distinct : opener ≠ closer) {start position : Nat} :
    (closingOffset? (· == opener) (· == closer) (items.drop (start + 1))).map (start + 1 + ·) =
        some position ↔
      IsLeast (overclosed opener closer items (start + 1)) position := by
  rw [Option.map_eq_some_iff]
  constructor
  · rintro ⟨offset, found, rfl⟩
    rw [isLeast_overclosed_add_iff]
    exact (closingOffset?_eq_some_iff_isLeast distinct).mp found
  · intro least
    obtain ⟨offset, rfl⟩ := Nat.exists_eq_add_of_le least.1.1
    rw [isLeast_overclosed_add_iff] at least
    exact ⟨offset, (closingOffset?_eq_some_iff_isLeast distinct).mpr least, rfl⟩

/-- The scan finds nothing exactly if there is no such position: of several one would be first. -/
theorem partner_eq_none_iff (distinct : opener ≠ closer) {start : Nat} :
    closingOffset? (· == opener) (· == closer) (items.drop (start + 1)) = none ↔
      overclosed opener closer items (start + 1) = ∅ := by
  rw [← Option.map_eq_none_iff (f := (start + 1 + ·)), Option.eq_none_iff_forall_ne_some,
    Set.eq_empty_iff_forall_notMem]
  simp only [ne_eq, partner_eq_some_iff distinct]
  constructor
  · intro notFound position member
    exact notFound _ (isLeast_csInf ⟨position, member⟩)
  · intro empty position least
    exact empty position least.1

end Counting

end MathMarkup.Nesting

namespace MathMarkup.Tex

section Units

/-- The units in which a text is searched for braces: an escaped brace is one together with its
backslash, and any other character by itself. -/
def braceUnits : List Char → List (List Char)
  | [] => []
  | '\\' :: '{' :: rest => ['\\', '{'] :: braceUnits rest
  | '\\' :: '}' :: rest => ['\\', '}'] :: braceUnits rest
  | character :: rest => [character] :: braceUnits rest

/-- The places of a unit with the character that counts there: its first one. -/
def countedInUnit : List Char → List (Option Char)
  | [] => []
  | first :: others => some first :: others.map fun _ => none

/-- The places of a text with the character that counts there. An escaped brace does not. -/
def countedCharacters (text : List Char) : List (Option Char) :=
  (braceUnits text).flatMap countedInUnit

/-- The places of a text with the character that counts there, if escapes are told apart only
from `first` on. -/
def countedFrom (first : Nat) (text : List Char) : List (Option Char) :=
  (text.take first).map some ++ countedCharacters (text.drop first)

/-- The units are the text. -/
theorem flatten_braceUnits (text : List Char) : (braceUnits text).flatten = text := by
  fun_induction braceUnits text with
  | case1 => rfl
  | case2 rest inductionHypothesis => simp [inductionHypothesis]
  | case3 rest inductionHypothesis => simp [inductionHypothesis]
  | case4 character rest _ _ inductionHypothesis => simp [inductionHypothesis]

theorem length_countedInUnit (unit : List Char) : (countedInUnit unit).length = unit.length := by
  cases unit with
  | nil => rfl
  | cons first others => simp [countedInUnit]

theorem length_countedCharacters (text : List Char) :
    (countedCharacters text).length = text.length := by
  calc (countedCharacters text).length = (braceUnits text).flatten.length := by
        simp [countedCharacters, List.length_flatMap, List.length_flatten, length_countedInUnit]
    _ = text.length := by rw [flatten_braceUnits]

/-- The scan for a brace is the scan for a partner among the characters that count. -/
theorem closingBraceFrom?_eq_closingOffsetFrom? (depth : Nat) (text : List Char) :
    closingBraceFrom? depth text =
      Nesting.closingOffsetFrom? (· == some '{') (· == some '}') depth
        (countedCharacters text) := by
  unfold countedCharacters
  fun_induction braceUnits text generalizing depth with
  | case1 => rfl
  | case2 rest inductionHypothesis =>
    rw [closingBraceFrom?_escape (.inl rfl), inductionHypothesis]
    simp [countedInUnit, Nesting.closingOffsetFrom?, Function.comp_def, Nat.add_assoc]
  | case3 rest inductionHypothesis =>
    rw [closingBraceFrom?_escape (.inr rfl), inductionHypothesis]
    simp [countedInUnit, Nesting.closingOffsetFrom?, Function.comp_def, Nat.add_assoc]
  | case4 character rest noOpening noClosing inductionHypothesis =>
    by_cases opening : character = '{'
    · subst opening
      simp [closingBraceFrom?, countedInUnit, Nesting.closingOffsetFrom?, inductionHypothesis]
    by_cases closing : character = '}'
    · subst closing
      cases depth with
      | zero => simp [closingBraceFrom?, countedInUnit, Nesting.closingOffsetFrom?]
      | succ outer =>
        simp [closingBraceFrom?, countedInUnit, Nesting.closingOffsetFrom?, inductionHypothesis]
    · have plain : character = '\\' → ¬ StartsWithBrace rest := by
        rintro isBackslash (starts | starts)
        · obtain ⟨tail, rfl⟩ := List.head?_eq_some_iff.mp starts
          exact noOpening tail isBackslash rfl
        · obtain ⟨tail, rfl⟩ := List.head?_eq_some_iff.mp starts
          exact noClosing tail isBackslash rfl
      rw [closingBraceFrom?_cons ⟨opening, closing⟩ plain, inductionHypothesis]
      simp [countedInUnit, Nesting.closingOffsetFrom?, opening, closing]

theorem length_countedFrom (first : Nat) (text : List Char) :
    (countedFrom first text).length = text.length := by
  simp only [countedFrom, List.length_append, List.length_map, List.length_take,
    length_countedCharacters, List.length_drop]
  omega

theorem drop_countedFrom (first : Nat) (text : List Char) :
    (countedFrom first text).drop first = countedCharacters (text.drop first) := by
  rcases Nat.lt_or_ge text.length first with beyond | within
  · have nothing : text.drop first = [] := List.drop_eq_nil_of_le beyond.le
    rw [nothing, List.drop_eq_nil_of_le (by rw [length_countedFrom]; exact beyond.le)]
    rfl
  · have front : ((text.take first).map some).length = first := by simp [within]
    exact List.drop_left' front

end Units

section Partners

variable {text : List Char} {start : Nat}

/-- The positions after `start` up to which a text closes more braces than it opens. -/
def overclosedBraces (text : List Char) (start : Nat) : Set Nat :=
  Nesting.overclosed (some '{') (some '}') (countedFrom (start + 1) text) (start + 1)

theorem closingBrace?_drop_eq (text : List Char) (start : Nat) :
    closingBrace? (text.drop (start + 1)) =
      Nesting.closingOffset? (· == some '{') (· == some '}')
        ((countedFrom (start + 1) text).drop (start + 1)) := by
  rw [drop_countedFrom]
  exact closingBraceFrom?_eq_closingOffsetFrom? 0 _

theorem closingBrace?_drop_eq_some_iff {position : Nat} :
    (closingBrace? (text.drop (start + 1))).map (start + 1 + ·) = some position ↔
      IsLeast (overclosedBraces text start) position := by
  rw [closingBrace?_drop_eq]
  exact Nesting.partner_eq_some_iff (by decide)

theorem closingBrace?_drop_eq_none_iff :
    closingBrace? (text.drop (start + 1)) = none ↔ overclosedBraces text start = ∅ := by
  rw [closingBrace?_drop_eq]
  exact Nesting.partner_eq_none_iff (by decide)

/-- A text argument whose brace has no partner is refused, and no other one for its braces. -/
theorem textArgument_eq_unmatched_iff (command : Token) (opens : text[start]? = some '{') :
    Lexer.textArgument command (text.drop start) = .error (.unmatchedBraces none) ↔
      closingBrace? (text.drop (start + 1)) = none := by
  obtain ⟨inside, isOpener⟩ := List.getElem?_eq_some_iff.mp opens
  rw [List.drop_eq_getElem_cons inside, isOpener]
  refine ⟨fun refused => ?_, textArgument_unclosed command⟩
  by_contra found
  obtain ⟨offset, found⟩ := Option.ne_none_iff_exists'.mp found
  have noSpace (body : List Char) : ('{' :: body).dropWhile Lexer.isSpace = '{' :: body := rfl
  simp only [Lexer.textArgument, noSpace, found] at refused
  cases refused

/-- The partner of an opener stands at the first position after it up to which there are more
closers than openers, and there is none exactly if there is no such position. Among characters
the same holds of the braces that count; a text argument without a partner is refused. -/
theorem partner_is_least_overclosed :
    (∀ (tokens : List Token) (start : Nat) (opener closer : Token), opener ≠ closer →
      (∀ position,
        (Parser.closing? opener closer (tokens.drop (start + 1))).map (start + 1 + ·) =
            some position ↔
          IsLeast (Nesting.overclosed opener closer tokens (start + 1)) position) ∧
      (Parser.closing? opener closer (tokens.drop (start + 1)) = none ↔
        Nesting.overclosed opener closer tokens (start + 1) = ∅)) ∧
    (∀ (text : String) (start : Nat),
      (∀ position,
        (closingBrace? (text.toList.drop (start + 1))).map (start + 1 + ·) = some position ↔
          IsLeast (overclosedBraces text.toList start) position) ∧
      (closingBrace? (text.toList.drop (start + 1)) = none ↔
        overclosedBraces text.toList start = ∅) ∧
      (text.toList[start]? = some '{' → ∀ command,
        (Lexer.textArgument command (text.toList.drop start) = .error (.unmatchedBraces none) ↔
          overclosedBraces text.toList start = ∅))) ∧
    (ParseError.unmatchedBraces none).message = "Unmatched curly brackets" := by
  refine ⟨fun tokens start opener closer distinct => ?_, fun text start => ?_, rfl⟩
  · exact ⟨fun position => Nesting.partner_eq_some_iff distinct,
      Nesting.partner_eq_none_iff distinct⟩
  · refine ⟨fun position => closingBrace?_drop_eq_some_iff, closingBrace?_drop_eq_none_iff, ?_⟩
    intro opens command
    rw [textArgument_eq_unmatched_iff command opens, closingBrace?_drop_eq_none_iff]

/-- A pair between an opener and its partner, an escaped brace before the partner, and a text in
which the only other brace is escaped. -/
theorem partner_is_least_overclosed_nested :
    Token.openBrace ≠ Token.closeBrace ∧
      IsLeast (Nesting.overclosed Token.openBrace .closeBrace [.openBrace, ⟨.element, "a"⟩,
        .openBrace, ⟨.element, "b"⟩, .closeBrace, ⟨.element, "c"⟩, .closeBrace,
        ⟨.element, "d"⟩] 1) 6 ∧
      IsLeast (overclosedBraces "\x7b\\\x7d\x7d".toList 0) 3 ∧
      overclosedBraces "\x7b\\\\\x7d".toList 0 = ∅ ∧
      Lexer.textArgument ⟨.command, "\\text"⟩ "\x7b\\\\\x7d".toList =
        .error (.unmatchedBraces none) := by
  obtain ⟨ofTokens, ofTexts, -⟩ := partner_is_least_overclosed
  have unmatched : overclosedBraces "\x7b\\\\\x7d".toList 0 = ∅ := (ofTexts _ 0).2.1.mp rfl
  refine ⟨by decide, (ofTokens _ 0 _ _ (by decide)).1 6 |>.mp rfl, (ofTexts _ 0).1 3 |>.mp rfl,
    unmatched, ?_⟩
  exact ((ofTexts "\x7b\\\\\x7d" 0).2.2 rfl _).mpr unmatched

end Partners

end MathMarkup.Tex
