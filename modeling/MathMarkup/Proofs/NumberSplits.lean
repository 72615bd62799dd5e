import MathMarkup.Proofs.Discipline

/-!
# What reading does to the tokens

A reader moves to the right and splits numbers. It does nothing else to the tokens, whether
it succeeds or fails: each step that readers are made of does only this. Since an operand
with its scripts takes at least one token, the loops over the parts of a sequence and of an
environment come to an end.
-/

namespace MathMarkup.Tex

section Splitting

/-- An element of more than one character that starts with a digit, as its first character
and the rest. -/
def IsSplit (number digit remainder : Token) : Prop :=
  ∃ first second rest, first.isDigit = true ∧
    number = ⟨.element, String.ofList (first :: second :: rest)⟩ ∧
    digit = ⟨.element, String.ofList [first]⟩ ∧
    remainder = ⟨.element, String.ofList (second :: rest)⟩

/-- The second list is the first one with some of its numbers split. The rest of a number
may be split again. -/
inductive Splits : List Token → List Token → Prop where
  | nil : Splits [] []
  | keep (token : Token) {tokens others : List Token} (rest : Splits tokens others) :
      Splits (token :: tokens) (token :: others)
  | split {number digit remainder : Token} {tokens others : List Token}
      (isSplit : IsSplit number digit remainder) (rest : Splits (remainder :: tokens) others) :
      Splits (number :: tokens) (digit :: others)

/-- A digit by itself is not split. -/
theorem IsSplit.whole {number digit remainder other rest : Token}
    (isSplit : IsSplit number digit remainder) : ¬ IsSplit digit other rest := by
  obtain ⟨first, second, more, -, -, rfl, -⟩ := isSplit
  rintro ⟨one, two, others, -, same, -⟩
  have characters := String.ofList_inj.mp (Token.mk.inj same).2
  cases characters

theorem IsSplit.splitFirst_eq {number digit remainder : Token}
    (isSplit : IsSplit number digit remainder) (tail : List Token) :
    Grammar.splitFirst (number :: tail) = digit :: remainder :: tail := by
  obtain ⟨first, second, rest, isDigit, rfl, rfl, rfl⟩ := isSplit
  simp [Grammar.splitFirst, Cursor.splitNumber?, isDigit]

namespace Splits

variable {tokens others : List Token}

theorem refl (tokens : List Token) : Splits tokens tokens := by
  induction tokens with
  | nil => exact .nil
  | cons token rest inductionHypothesis => exact .keep token inductionHypothesis

theorem append_left (front : List Token) (splits : Splits tokens others) :
    Splits (front ++ tokens) (front ++ others) := by
  induction front with
  | nil => exact splits
  | cons token rest inductionHypothesis => exact .keep token inductionHypothesis

/-- What was split may be split further. The induction is on the later splits, since the rest
of a number can have been left whole by the earlier ones. -/
theorem trans {middle : List Token} (earlier : Splits tokens middle)
    (later : Splits middle others) : Splits tokens others := by
  induction later generalizing tokens with
  | nil => exact earlier
  | keep token rest inductionHypothesis =>
    cases earlier with
    | keep token first => exact .keep token (inductionHypothesis first)
    | split isSplit first => exact .split isSplit (inductionHypothesis first)
  | split isSplit rest inductionHypothesis =>
    cases earlier with
    | keep token first => exact .split isSplit (inductionHypothesis (.keep _ first))
    | split earlierSplit first => exact absurd isSplit earlierSplit.whole

theorem length_le (splits : Splits tokens others) : tokens.length ≤ others.length := by
  induction splits with
  | nil => exact Nat.le_refl 0
  | keep token rest inductionHypothesis => exact Nat.succ_le_succ inductionHypothesis
  | split isSplit rest inductionHypothesis => exact Nat.le_succ_of_le inductionHypothesis

/-- Only an element is split. -/
theorem head_eq {token : Token} (noElement : token.kind ≠ .element)
    (splits : Splits (token :: tokens) others) :
    ∃ rest, others = token :: rest ∧ Splits tokens rest := by
  cases splits with
  | keep token rest => exact ⟨_, rfl, rest⟩
  | split isSplit rest =>
    obtain ⟨first, second, more, -, rfl, -⟩ := isSplit
    exact absurd rfl noElement

end Splits

end Splitting

namespace Cursor

/-- The second place is reached from the first by going to the right over tokens, some of
which, or of those that are left, are split on the way. -/
def Moves (start stop : Cursor) : Prop :=
  ∃ passed, stop.before = passed.reverse ++ start.before ∧
    Splits start.after (passed ++ stop.after)

namespace Moves

variable {start middle stop : Cursor}

theorem refl (place : Cursor) : Moves place place :=
  ⟨[], rfl, .refl place.after⟩

theorem trans (first : Moves start middle) (second : Moves middle stop) : Moves start stop := by
  obtain ⟨passed, before, splits⟩ := first
  obtain ⟨morePassed, laterBefore, laterSplits⟩ := second
  refine ⟨passed ++ morePassed, by simp [laterBefore, before], ?_⟩
  rw [List.append_assoc]
  exact splits.trans (laterSplits.append_left passed)

theorem advance (count : Nat) (place : Cursor) : Moves place (place.advance count) := by
  refine ⟨place.after.take count, rfl, ?_⟩
  change Splits place.after (place.after.take count ++ place.after.drop count)
  rw [List.take_append_drop]
  exact .refl place.after

theorem splitNumber (place : Cursor) : Moves place place.splitNumber := by
  obtain ⟨before, after⟩ := place
  unfold Cursor.splitNumber
  split
  · split
    · rename_i token rest starts _ digit remainder split
      change after = token :: rest at starts
      subst starts
      exact ⟨[], rfl, .split (Grammar.splitNumber?_eq_some split) (.keep remainder (.refl rest))⟩
    · exact refl _
  · exact refl _

/-- The tokens before the place stay as they are. -/
theorem tokens_eq (moves : Moves start stop) :
    ∃ rest, Splits start.after rest ∧ stop.tokens = start.before.reverse ++ rest := by
  obtain ⟨passed, before, splits⟩ := moves
  exact ⟨_, splits, by simp [Cursor.tokens, before]⟩

/-- Fewer tokens are left only at a place further to the right. -/
theorem position_lt (moves : Moves start stop) (shorter : stop.after.length < start.after.length) :
    start.position < stop.position := by
  obtain ⟨passed, before, splits⟩ := moves
  have longer := splits.length_le
  simp only [Cursor.position, before, List.length_append, List.length_reverse] at longer ⊢
  omega

end Moves
end Cursor

section Readers

open MathMarkup.Tex.Parser

/-- Where a reading ends, also when it fails. -/
def Reader.stop {α : Type} : EStateM.Result ParseError Cursor α → Cursor
  | .ok _ place => place
  | .error _ place => place

/-- From the given tokens the reader only moves. -/
def OnlyMoves {α : Type} (input : List Token) (reader : Reader α) : Prop :=
  ∀ before, Cursor.Moves ⟨before, input⟩ (Reader.stop (reader ⟨before, input⟩))

theorem OnlyMoves.bind {α β : Type} {input : List Token} {first : Reader α} {next : α → Reader β}
    (moves : OnlyMoves input first) (later : ∀ value rest, OnlyMoves rest (next value)) :
    OnlyMoves input (first >>= next) := by
  intro before
  change Cursor.Moves _ (Reader.stop (EStateM.bind first next ⟨before, input⟩))
  unfold EStateM.bind
  have reached := moves before
  generalize first ⟨before, input⟩ = result at reached
  cases result with
  | ok value middle => exact reached.trans (later value middle.after middle.before)
  | error cause middle => exact reached

/-- Every reader only moves. Nothing is asked of the second reader. -/
def moving : Grammar.Discipline .free where
  Keeps _ input reader _ := OnlyMoves input reader
  congr moves same _ before := by
    rw [same]
    exact moves before
  lookBack moves := moves
  pure _ _ _ := .refl _
  throw _ _ := .refl _
  bind moves later := moves.bind fun value rest => later value rest trivial
  previous_bind moves before := moves before.head? before
  skip_bind {_ _ input count _ _} moves before :=
    (Cursor.Moves.advance count ⟨before, input⟩).trans (moves _)
  take_bind {_ token tail _ _} moves before :=
    (Cursor.Moves.advance 1 ⟨before, token :: tail⟩).trans (moves (token :: before))
  splitNumber_bind {_ _ input next _} moves before := by
    refine (Cursor.Moves.splitNumber ⟨before, input⟩).trans ?_
    change Cursor.Moves _ (Reader.stop (next ⟨⟩ (Cursor.splitNumber ⟨before, input⟩)))
    rw [Grammar.splitNumber_eq]
    exact moves before
  -- The place does not change while another list is read, whatever happens to that list.
  within _ _ _ := by
    unfold Reader.within
    split <;> exact .refl _

theorem moving_operandAt (options : ParseOptions) (depth : Nat) :
    moving.Inner (operandAt options depth) (operandAt options depth) :=
  moving.inner_operandAt Grammar.Terms.nested_free options (fun _ => trivial) depth

theorem onlyMoves_scripted (options : ParseOptions) (depth : Nat) (token : Token)
    (tail : List Token) : OnlyMoves (token :: tail) (scripted (operandAt options depth)) :=
  Grammar.keeps_scripted Grammar.Terms.lawful_free (moving_operandAt options depth) trivial

end Readers

section FirstToken

open MathMarkup.Tex.Parser

/-- At an element the place moves past it before anything can be split. -/
theorem moves_scripted_element (options : ParseOptions) (depth : Nat) (value : String)
    (before after : List Token) :
    Cursor.Moves ⟨⟨.element, value⟩ :: before, after⟩
      (Reader.stop (scripted (operandAt options (depth + 1))
        ⟨before, ⟨.element, value⟩ :: after⟩)) :=
  Grammar.keeps_allScripts Grammar.Terms.lawful_free (moving_operandAt options (depth + 1))
    (·.attach (.leaf .element value)) trivial (⟨.element, value⟩ :: before)

/-- The token at the place is not split, and neither are those before it. -/
theorem tokens_scripted (options : ParseOptions) (depth : Nat) (token : Token)
    (before after : List Token) :
    ∃ rest, Splits after rest ∧
      (Reader.stop (scripted (operandAt options depth) ⟨before, token :: after⟩)).tokens =
        before.reverse ++ token :: rest := by
  by_cases element : token.kind = .element
  · obtain ⟨kind, value⟩ := token
    cases element
    cases depth with
    | zero => exact ⟨after, .refl after, rfl⟩
    | succ depth =>
      obtain ⟨rest, splits, tokens⟩ :=
        (moves_scripted_element options depth value before after).tokens_eq
      exact ⟨rest, splits, by simp [tokens]⟩
  · obtain ⟨others, splits, tokens⟩ :=
      (onlyMoves_scripted options depth token after before).tokens_eq
    obtain ⟨rest, rfl, restSplits⟩ := splits.head_eq element
    exact ⟨rest, restSplits, tokens⟩

end FirstToken

section Loops

open MathMarkup.Tex.Parser

/-- The loop that reads items for as long as there are tokens, as it runs: it ends when the
tokens are used up, or with the first item that fails. -/
inductive Loop {α : Type} (item : Reader α) :
    Cursor → EStateM.Result ParseError Cursor (List α) → Prop where
  | done {place : Cursor} (ends : place.after = []) : Loop item place (.ok [] place)
  | fail {place stopped : Cursor} {cause : ParseError} (continues : place.after ≠ [])
      (failed : item place = .error cause stopped) : Loop item place (.error cause stopped)
  | next {place next last : Cursor} {value : α} {values : List α}
      (continues : place.after ≠ []) (read : item place = .ok value next)
      (others : Loop item next (.ok values last)) : Loop item place (.ok (value :: values) last)
  | failLater {place next stopped : Cursor} {value : α} {cause : ParseError}
      (continues : place.after ≠ []) (read : item place = .ok value next)
      (others : Loop item next (.error cause stopped)) : Loop item place (.error cause stopped)

/-- Every item takes at least one token. -/
def TakesToken {α : Type} (item : Reader α) : Prop :=
  ∀ place value next, item place = .ok value next → next.after.length < place.after.length

/-- The loop ends if every item takes a token. -/
theorem TakesToken.loop {α : Type} {item : Reader α} (takes : TakesToken item) (place : Cursor) :
    Loop item place (Reader.untilEnd item place) := by
  -- The induction follows the number of tokens that are left.
  induction count : place.after.length using Nat.strongRecOn generalizing place with
  | ind count inductionHypothesis =>
    subst count
    rw [Reader.untilEnd]
    split
    · rename_i ends
      exact .done ends
    · rename_i token rest continues
      have continues : place.after ≠ [] := by simp [continues]
      split
      · rename_i cause stopped failed
        exact .fail continues failed
      · rename_i value next read
        have shorter := takes place value next read
        have later := inductionHypothesis _ shorter next rfl
        rw [if_pos shorter]
        split
        · rename_i cause stopped failed
          rw [failed] at later
          exact .failLater continues read later
        · rename_i values last others
          rw [others] at later
          exact .next continues read later

theorem takesToken_scripted (options : ParseOptions) (depth : Nat) :
    TakesToken (scripted (operandAt options depth)) := by
  rintro ⟨before, after⟩ node ⟨passed, rest⟩ read
  have progresses := Grammar.Reads.progresses options depth
  have scripted := (Grammar.realizes_scripted (Grammar.realizes_operandAt options depth)
    progresses after before node rest).mp ⟨passed, read⟩
  exact scripted.length_lt progresses

theorem takesToken_part (options : ParseOptions) (depth : Nat) :
    TakesToken (part (operandAt options depth)) := by
  rintro ⟨before, after⟩ node ⟨passed, rest⟩ read
  have progresses := Grammar.Reads.progresses options depth
  have part := (Grammar.realizes_part (Grammar.realizes_operandAt options depth)
    progresses after before node rest).mp ⟨passed, read⟩
  exact part.1.length_lt progresses

/-- An operand with its scripts is read to the right of where it starts, with fewer tokens
left, also when numbers are split on the way. -/
theorem position_scripted {options : ParseOptions} {depth : Nat} {place next : Cursor}
    {node : Node} (read : scripted (operandAt options depth) place = .ok node next) :
    place.position < next.position ∧ next.after.length < place.after.length := by
  have shorter := takesToken_scripted options depth place node next read
  obtain ⟨before, after⟩ := place
  cases after with
  | nil => exact absurd shorter (Nat.not_lt_zero _)
  | cons token tail =>
    have moves := onlyMoves_scripted options depth token tail before
    rw [read] at moves
    exact ⟨moves.position_lt shorter, shorter⟩

end Loops

/-- Reading an operand with its scripts splits numbers after the token it starts at and does
nothing else to the tokens, whether it succeeds or fails. If it succeeds, it ends further to
the right, inside the list, with fewer tokens left. So the loops over the parts of a sequence
and over those of an environment come to an end on every list. All of this holds for every
number of levels that are left. -/
theorem reading_splits_and_progresses (options : ParseOptions) (depth : Nat)
    (tokens : List Token) (start : Nat) (inside : start < tokens.length) :
    (∃ rest, Splits (tokens.drop (start + 1)) rest ∧
      (Reader.stop (Parser.scripted (Parser.operandAt options depth)
        (Cursor.ofPosition tokens start))).tokens = tokens.take (start + 1) ++ rest) ∧
    (∀ node next, Parser.scripted (Parser.operandAt options depth)
        (Cursor.ofPosition tokens start) = .ok node next →
      start < next.position ∧ next.position ≤ next.tokens.length ∧
      next.tokens.length - next.position < tokens.length - start) ∧
    (∀ place, Loop (Parser.part (Parser.operandAt options depth)) place
      (Reader.untilEnd (Parser.part (Parser.operandAt options depth)) place)) ∧
    ∀ place, Loop (Parser.scripted (Parser.operandAt options depth)) place
      (Reader.untilEnd (Parser.scripted (Parser.operandAt options depth)) place) := by
  have starts : tokens.drop start = tokens[start] :: tokens.drop (start + 1) :=
    List.drop_eq_getElem_cons inside
  refine ⟨?_, ?_, (takesToken_part options depth).loop, (takesToken_scripted options depth).loop⟩
  · obtain ⟨rest, splits, result⟩ := tokens_scripted options depth tokens[start]
      (tokens.take start).reverse (tokens.drop (start + 1))
    refine ⟨rest, splits, ?_⟩
    rw [Cursor.ofPosition, starts, result, List.reverse_reverse,
      List.take_succ_eq_append_getElem inside, List.append_assoc, List.singleton_append]
  · intro node next read
    obtain ⟨further, shorter⟩ := position_scripted read
    have place : (Cursor.ofPosition tokens start).position = start := by
      simp [Cursor.ofPosition, Cursor.position, inside.le]
    have left : (Cursor.ofPosition tokens start).after.length = tokens.length - start :=
      List.length_drop
    have whole : next.tokens.length = next.position + next.after.length := by
      simp [Cursor.tokens, Cursor.position]
    omega

/-- A fraction takes both its parts from one number, which is split twice. -/
theorem fraction_splits_number_twice :
    let tokens : List Token := [⟨.command, "\\frac"⟩, ⟨.element, "123"⟩]
    ∃ node next, 0 < tokens.length ∧
      Parser.scripted (Parser.operandAt {} 2) (Cursor.ofPosition tokens 0) = .ok node next ∧
      next.tokens =
        [⟨.command, "\\frac"⟩, ⟨.element, "1"⟩, ⟨.element, "2"⟩, ⟨.element, "3"⟩] ∧
      0 < next.position ∧ next.position ≤ next.tokens.length ∧
      next.tokens.length - next.position < tokens.length - 0 := by
  refine ⟨.binaryFunc "\\frac" (.leaf .element "1") (.leaf .element "2"),
    ⟨[⟨.element, "2"⟩, ⟨.element, "1"⟩, ⟨.command, "\\frac"⟩], [⟨.element, "3"⟩]⟩,
    by decide, rfl, rfl, ?_⟩
  exact (reading_splits_and_progresses {} 2 [⟨.command, "\\frac"⟩, ⟨.element, "123"⟩] 0
    (by decide)).2.1 _ _ rfl

end MathMarkup.Tex
