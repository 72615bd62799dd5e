import MathMarkup.Proofs.RoundingCalls
import MathMarkup.Typst.Writer

/-!
# Texts in quotes

A text is written between quotes, with a backslash before every quote and backslash of it.
`readLiteral?` takes such a literal back. Fences are replaced in all that is written, also
between quotes. So a text comes back exactly if no fence finds anything to replace in it.
-/

namespace MathMarkup.Text

section Counts

variable {old new : List Char} {character : Char}

/-- A text is taken apart in the order in which occurrences are replaced. -/
theorem replaceAll_induction {motive : List Char → List Char → Prop} (nonempty : old ≠ [])
    (nil : motive [] [])
    (found : ∀ rest result, motive rest result → motive (old ++ rest) (new ++ result))
    (other : ∀ character rest result, ¬ old <+: character :: rest → motive rest result →
      motive (character :: rest) (character :: result))
    (text : List Char) : motive text (replaceAll old new text) := by
  induction count : text.length using Nat.strongRecOn generalizing text with
  | ind count inductionHypothesis =>
    subst count
    cases text with
    | nil => exact nil
    | cons first rest =>
      by_cases starts : old <+: first :: rest
      · obtain ⟨tail, split⟩ := starts
        have shorter : tail.length < (first :: rest).length := by
          have positive := List.length_pos_iff.mpr nonempty
          rw [← split, List.length_append]
          omega
        rw [← split, replaceAll_append_self nonempty]
        exact found _ _ (inductionHypothesis _ shorter tail rfl)
      · rw [replaceAll_cons_of_absent starts]
        exact other _ _ _ starts (inductionHypothesis _ (by simp) rest rfl)

/-- Without an occurrence nothing is replaced. -/
theorem replaceAll_of_absent {text : List Char} (absent : ¬ old <:+: text) :
    replaceAll old new text = text := by
  induction text with
  | nil => rfl
  | cons first rest inductionHypothesis =>
    rw [List.infix_cons_iff, not_or] at absent
    rw [replaceAll_cons_of_absent absent.1, inductionHypothesis absent.2]

/-- A character that no replacement takes away gets no rarer. -/
theorem count_le_count_replaceAll (nonempty : old ≠ [])
    (kept : old.count character ≤ new.count character) (text : List Char) :
    text.count character ≤ (replaceAll old new text).count character := by
  refine replaceAll_induction (motive := fun text result =>
    text.count character ≤ result.count character) nonempty ?_ ?_ ?_ text
  · exact le_rfl
  · intro rest result later
    simp only [List.count_append]
    omega
  · intro first rest result _ later
    simp only [List.count_cons]
    omega

/-- A character that is as frequent in the replacement stays as frequent. -/
theorem count_replaceAll (nonempty : old ≠ [])
    (same : old.count character = new.count character) (text : List Char) :
    (replaceAll old new text).count character = text.count character := by
  refine replaceAll_induction (motive := fun text result =>
    result.count character = text.count character) nonempty ?_ ?_ ?_ text
  · rfl
  · intro rest result later
    simp only [List.count_append]
    omega
  · intro first rest result _ later
    simp only [List.count_cons]
    omega

/-- An occurrence that is replaced brings in the characters of its replacement. -/
theorem count_lt_count_replaceAll (nonempty : old ≠ [])
    (more : old.count character < new.count character) {text : List Char} (occurs : old <:+: text) :
    text.count character < (replaceAll old new text).count character := by
  induction text with
  | nil => exact absurd (List.infix_nil.mp occurs) nonempty
  | cons first rest inductionHypothesis =>
    by_cases starts : old <+: first :: rest
    · obtain ⟨tail, split⟩ := starts
      have later := count_le_count_replaceAll nonempty more.le tail
      rw [← split, replaceAll_append_self nonempty]
      simp only [List.count_append]
      omega
    · have later := inductionHypothesis ((List.infix_cons_iff.mp occurs).resolve_left starts)
      rw [replaceAll_cons_of_absent starts]
      simp only [List.count_cons]
      omega

/-- Only blanks are trimmed. -/
theorem count_trim (solid : isBlank character = false) (text : List Char) :
    (trim text).count character = text.count character := by
  have dropped (text : List Char) :
      (text.dropWhile isBlank).count character = text.count character := by
    have passed : (text.takeWhile isBlank).count character = 0 := by
      refine List.count_eq_zero.mpr fun member => ?_
      have blank := List.all_eq_true.mp List.all_takeWhile _ member
      simp [solid] at blank
    conv_rhs => rw [← List.takeWhile_append_dropWhile (p := isBlank) (l := text)]
    rw [List.count_append, passed, Nat.zero_add]
  rw [trim, List.count_reverse, dropped, List.count_reverse, dropped]

end Counts

end MathMarkup.Text

namespace MathMarkup.Typst

open Text
open scoped List

namespace Fence

variable {fence : Fence} {text : List Char}

/-- The fence has nothing to replace in the text: no opening glyph stands before a closing
one, and no call is without an argument. -/
structure Spares (fence : Fence) (text : List Char) : Prop where
  noPair : ¬ [fence.opening, fence.closing] <+ text
  noCall : ¬ fence.emptyCall <:+: text

theorem emptyCall_ne_nil (fence : Fence) : fence.emptyCall ≠ [] := by
  simp [emptyCall]

theorem toList_apply_eq (fence : Fence) (text : String) :
    (fence.apply text).toList =
      replaceAll fence.emptyCall fence.filledCall (fence.replacePairs text.toList) := by
  rw [apply, String.toList_ofList]
  rfl

/-- A closing glyph behind an opening one makes a pair. -/
theorem pair_cons_iff {character : Char} :
    [fence.opening, fence.closing] <+ character :: text ↔
      [fence.opening, fence.closing] <+ text ∨ character = fence.opening ∧ fence.closing ∈ text := by
  rw [List.sublist_cons_iff]
  simp [@eq_comm _ character]

theorem replaceInnermost_of_noPair (noPair : ¬ [fence.opening, fence.closing] <+ text) :
    fence.replaceInnermost none text = text := by
  induction text with
  | nil => rfl
  | cons character rest inductionHypothesis =>
    rw [pair_cons_iff, not_or, not_and] at noPair
    rw [replaceInnermost]
    split
    · rename_i opening
      rw [replaceInnermost_of_not_mem (noPair.2 opening), opening]
      rfl
    · rw [inductionHypothesis noPair.1]

theorem Spares.apply_eq {text : String} (spares : fence.Spares text.toList) :
    fence.apply text = text := by
  rw [← String.toList_inj, toList_apply_eq, replacePairs,
    replaceTimes_of_stays (replaceInnermost_of_noPair spares.noPair),
    replaceAll_of_absent spares.noCall]

theorem Proper.count_replaceInnermost_of_pair (proper : fence.Proper)
    (pair : [fence.opening, fence.closing] <+ text) :
    (fence.replaceInnermost none text).count fence.closing < text.count fence.closing := by
  induction text with
  | nil => simp at pair
  | cons character rest inductionHypothesis =>
    rw [replaceInnermost]
    split
    · rename_i opening
      have closes : fence.closing ∈ rest := by
        rcases pair_cons_iff.mp pair with later | ⟨-, closes⟩
        · exact later.subset (by simp)
        · exact closes
      rw [opening, List.count_cons_of_ne proper.distinct]
      exact proper.count_replaceInnermost_lt (by simp) closes
    · rename_i notOpening
      have later := (pair_cons_iff.mp pair).resolve_right fun first => notOpening first.1
      have fewer := inductionHypothesis later
      simp only [List.count_cons]
      omega

theorem Proper.count_replaceTimes_le (proper : fence.Proper) (count : Nat) (text : List Char) :
    (fence.replaceTimes count text).count fence.closing ≤ text.count fence.closing := by
  induction count generalizing text with
  | zero => exact le_rfl
  | succ count inductionHypothesis =>
    exact (inductionHypothesis _).trans (proper.count_replaceInnermost_le text)

/-- A pair is replaced, so that a closing glyph goes away. -/
theorem Proper.count_replacePairs_of_pair (proper : fence.Proper)
    (pair : [fence.opening, fence.closing] <+ text) :
    (fence.replacePairs text).count fence.closing < text.count fence.closing := by
  have closes : fence.closing ∈ text := pair.subset (by simp)
  obtain ⟨others, counted⟩ := Nat.exists_eq_succ_of_ne_zero (List.count_pos_iff.mpr closes).ne'
  rw [replacePairs, counted, replaceTimes, ← counted]
  exact (proper.count_replaceTimes_le others _).trans_lt (proper.count_replaceInnermost_of_pair pair)

/-- A character that is neither a glyph nor blank nor in the call stays as frequent. -/
theorem count_replacePairs {character : Char} (plain : isPlain [fence] character = true)
    (solid : isBlank character = false) (notInCall : character ∉ fence.emptyCall) (text : List Char) :
    (fence.replacePairs text).count character = text.count character := by
  obtain ⟨notOpening, notClosing⟩ := isPlain_singleton_iff.mp plain
  have replaces : fence.Replaces fun first second => first.count character = second.count character :=
    { refl := fun _ => rfl
      trans := fun first second => first.trans second
      append := by
        intro before first second same
        rw [List.count_append, List.count_append, same]
      pair := by
        intro inner _ rest
        simp only [emptyCall, List.mem_append, List.mem_cons, List.not_mem_nil, or_false,
          not_or] at notInCall
        obtain ⟨notLetter, notLeft, notRight⟩ := notInCall
        simp [call, count_trim solid, List.count_eq_zero.mpr notLetter,
          Ne.symm notLeft, Ne.symm notRight, Ne.symm notOpening, Ne.symm notClosing] }
  have rounds (count : Nat) (text : List Char) :
      (fence.replaceTimes count text).count character = text.count character := by
    induction count generalizing text with
    | zero => rfl
    | succ count inductionHypothesis =>
      exact (inductionHypothesis _).trans (replaces.replaceInnermost text).1
  exact rounds _ text

theorem Proper.glyph_not_mem_emptyCall (proper : fence.Proper) :
    fence.closing ∉ fence.emptyCall ∧ fence.closing ∉ fence.filledCall := by
  have notLetter : fence.closing ∉ fence.name.toList := fun member =>
    (proper.letters _ member).2.2.1 rfl
  have signs := proper.signs
  simp only [List.mem_cons, List.not_mem_nil, or_false, forall_eq_or_imp, forall_eq] at signs
  simp [emptyCall, filledCall, notLetter, Ne.symm signs.1.2, Ne.symm signs.2.1.2,
    Ne.symm signs.2.2.2]

theorem Proper.quote_not_mem_emptyCall (proper : fence.Proper) : '"' ∉ fence.emptyCall := by
  have notLetter : '"' ∉ fence.name.toList := fun member => (proper.letters _ member).2.2.2 (by simp)
  simp [emptyCall, notLetter]

theorem Proper.count_quote_lt (proper : fence.Proper) :
    fence.emptyCall.count '"' < fence.filledCall.count '"' := by
  rw [List.count_eq_zero.mpr proper.quote_not_mem_emptyCall, List.count_pos_iff]
  simp [filledCall]

/-- A fence takes no quote away. -/
theorem Proper.count_quote_le_apply (proper : fence.Proper) (text : String) :
    text.toList.count '"' ≤ (fence.apply text).toList.count '"' := by
  have plain : isPlain [fence] '"' = true :=
    isPlain_singleton_iff.mpr (proper.signs '"' (by simp))
  rw [toList_apply_eq, ← count_replacePairs plain (by decide) proper.quote_not_mem_emptyCall
    text.toList]
  exact count_le_count_replaceAll fence.emptyCall_ne_nil proper.count_quote_lt.le _

/-- What a fence replaces is seen by a closing glyph that is missing or by a quote that is
there in addition. -/
theorem Proper.altered_of_not_spares (proper : fence.Proper) {text : String}
    (touched : ¬ fence.Spares text.toList) :
    (fence.apply text).toList.count fence.closing < text.toList.count fence.closing ∨
      text.toList.count '"' < (fence.apply text).toList.count '"' := by
  rw [toList_apply_eq]
  by_cases pair : [fence.opening, fence.closing] <+ text.toList
  · refine .inl ?_
    obtain ⟨notInEmpty, notInFilled⟩ := proper.glyph_not_mem_emptyCall
    rw [count_replaceAll fence.emptyCall_ne_nil
      (by rw [List.count_eq_zero.mpr notInEmpty, List.count_eq_zero.mpr notInFilled])]
    exact proper.count_replacePairs_of_pair pair
  · have occurs : fence.emptyCall <:+: text.toList := by
      by_contra absent
      exact touched ⟨pair, absent⟩
    rw [replacePairs, replaceTimes_of_stays (replaceInnermost_of_noPair pair)]
    exact .inr (count_lt_count_replaceAll fence.emptyCall_ne_nil proper.count_quote_lt occurs)

end Fence

section Literals

/-- The text of a literal up to the quote that ends it, with what follows the quote. A
backslash takes the meaning away from the character after it. -/
def literalBody? : List Char → Option (List Char × List Char)
  | [] => none
  | '"' :: rest => some ([], rest)
  | ['\\'] => none
  | '\\' :: character :: rest => (literalBody? rest).map fun (text, after) => (character :: text, after)
  | character :: rest => (literalBody? rest).map fun (text, after) => (character :: text, after)

/-- The text of the literal at the front, with what follows the literal. -/
def readLiteral? : List Char → Option (List Char × List Char)
  | '"' :: rest => literalBody? rest
  | _ => none

/-- The literal of a text. -/
def literal (text : List Char) : List Char :=
  '"' :: escapeText text ++ ['"']

/-- The character has a backslash before it in a literal. -/
abbrev Escaped (character : Char) : Prop :=
  character = '\\' ∨ character = '"'

@[simp]
theorem escapeText_nil : escapeText [] = [] := rfl

theorem escapeText_cons_of_escaped {character : Char} (escaped : Escaped character)
    (rest : List Char) :
    escapeText (character :: rest) = '\\' :: character :: escapeText rest := by
  rw [escapeText, List.flatMap_cons, if_pos escaped]
  rfl

theorem escapeText_cons_of_plain {character : Char} (plain : ¬ Escaped character)
    (rest : List Char) : escapeText (character :: rest) = character :: escapeText rest := by
  rw [escapeText, List.flatMap_cons, if_neg plain]
  rfl

theorem escapeText_append (first second : List Char) :
    escapeText (first ++ second) = escapeText first ++ escapeText second :=
  List.flatMap_append

theorem escapeText_of_plain {word : List Char} (plain : ∀ letter ∈ word, ¬ Escaped letter) :
    escapeText word = word := by
  induction word with
  | nil => rfl
  | cons letter word inductionHypothesis =>
    rw [List.forall_mem_cons] at plain
    rw [escapeText_cons_of_plain plain.1, inductionHypothesis plain.2]

theorem literalBody?_cons {character : Char} (plain : ¬ Escaped character) (rest : List Char) :
    literalBody? (character :: rest) =
      (literalBody? rest).map fun (text, after) => (character :: text, after) := by
  rw [Escaped, not_or] at plain
  rw [literalBody?]
  · exact plain.2
  · exact fun backslash => absurd backslash plain.1
  · exact fun _ _ backslash => absurd backslash plain.1

/-- A literal is read back as its text, whatever follows it. -/
theorem literalBody?_escapeText (text rest : List Char) :
    literalBody? (escapeText text ++ '"' :: rest) = some (text, rest) := by
  induction text with
  | nil => rfl
  | cons character text inductionHypothesis =>
    by_cases escaped : Escaped character
    · rw [escapeText_cons_of_escaped escaped, List.cons_append, List.cons_append, literalBody?,
        inductionHypothesis]
      rfl
    · rw [escapeText_cons_of_plain escaped, List.cons_append, literalBody?_cons escaped,
        inductionHypothesis]
      rfl

theorem readLiteral?_literal (text : List Char) : readLiteral? (literal text) = some (text, []) :=
  literalBody?_escapeText text []

/-- Every character that is read is counted in the text, except for the backslashes and the
quote that ends the literal. -/
theorem count_of_literalBody? {character : Char} (noBackslash : character ≠ '\\')
    {written text rest : List Char} (read : literalBody? written = some (text, rest)) :
    written.count character =
      text.count character + rest.count character + if character = '"' then 1 else 0 := by
  fun_induction literalBody? written generalizing text with
  | case1 => cases read
  | case2 after =>
    cases read
    simp [List.count_cons, @eq_comm _ character]
  | case3 => cases read
  | case4 escaped after inductionHypothesis =>
    obtain ⟨⟨inner, last⟩, innerRead, same⟩ := Option.map_eq_some_iff.mp read
    cases same
    have later := inductionHypothesis innerRead
    rw [List.count_cons_of_ne (Ne.symm noBackslash), List.count_cons, List.count_cons]
    omega
  | case5 first after _ _ _ inductionHypothesis =>
    obtain ⟨⟨inner, last⟩, innerRead, same⟩ := Option.map_eq_some_iff.mp read
    cases same
    have later := inductionHypothesis innerRead
    rw [List.count_cons, List.count_cons]
    omega

/-- A text that is read with nothing left has as many quotes and glyphs as its literal. -/
theorem count_of_readLiteral? {character : Char} (noBackslash : character ≠ '\\')
    {written text : List Char} (read : readLiteral? written = some (text, [])) :
    written.count character = (literal text).count character := by
  have counted {written : List Char} (read : readLiteral? written = some (text, [])) :
      written.count character = text.count character + if character = '"' then 2 else 0 := by
    unfold readLiteral? at read
    split at read
    · have body := count_of_literalBody? noBackslash read
      rw [List.count_cons, body]
      by_cases isQuote : character = '"'
      · simp [isQuote]
      · simp [isQuote, Ne.symm isQuote]
    · cases read
  rw [counted read, counted (readLiteral?_literal text)]

end Literals

section Spared

variable {fence : Fence}

/-- A word without quotes and backslashes stands at the front of an escaped text if it does
so in the text itself. -/
theorem prefix_of_prefix_escapeText {word text : List Char}
    (plain : ∀ letter ∈ word, ¬ Escaped letter) (starts : word <+: escapeText text) :
    word <+: text := by
  induction word generalizing text with
  | nil => exact List.nil_prefix
  | cons letter word inductionHypothesis =>
    rw [List.forall_mem_cons] at plain
    cases text with
    | nil => simp at starts
    | cons character rest =>
      by_cases escaped : Escaped character
      · rw [escapeText_cons_of_escaped escaped, List.cons_prefix_cons] at starts
        exact absurd (.inl starts.1) plain.1
      · rw [escapeText_cons_of_plain escaped] at starts
        obtain ⟨rfl, later⟩ := List.cons_prefix_cons.mp starts
        exact List.cons_prefix_cons.mpr ⟨rfl, inductionHypothesis plain.2 later⟩

theorem infix_of_infix_escapeText {word text : List Char} (nonempty : word ≠ [])
    (plain : ∀ letter ∈ word, ¬ Escaped letter) (occurs : word <:+: escapeText text) :
    word <:+: text := by
  obtain ⟨letter, others, rfl⟩ := List.exists_cons_of_ne_nil nonempty
  have notFirst {character : Char} {rest : List Char} (escaped : Escaped character) :
      ¬ letter :: others <+: character :: rest := by
    rw [List.cons_prefix_cons]
    rintro ⟨rfl, -⟩
    exact plain letter (by simp) escaped
  induction text with
  | nil => simp at occurs
  | cons character rest inductionHypothesis =>
    by_cases escaped : Escaped character
    · rw [escapeText_cons_of_escaped escaped, List.infix_cons_iff, List.infix_cons_iff] at occurs
      have later := (occurs.resolve_left (notFirst (.inl rfl))).resolve_left (notFirst escaped)
      exact (inductionHypothesis later).trans (List.suffix_cons character rest).isInfix
    · rw [escapeText_cons_of_plain escaped, List.infix_cons_iff] at occurs
      rcases occurs with here | later
      · rw [← escapeText_cons_of_plain escaped] at here
        exact (prefix_of_prefix_escapeText plain here).isInfix
      · exact (inductionHypothesis later).trans (List.suffix_cons character rest).isInfix

/-- A word without quotes and backslashes occurs in a literal exactly if it does so in the
text. -/
theorem infix_literal_iff {word text : List Char} (nonempty : word ≠ [])
    (plain : ∀ letter ∈ word, ¬ Escaped letter) : word <:+: literal text ↔ word <:+: text := by
  have noQuote : '"' ∉ word := fun member => plain _ member (.inr rfl)
  constructor
  · intro occurs
    rw [literal, List.cons_append, List.infix_cons_iff, List.infix_concat_iff] at occurs
    rcases occurs with ⟨tail, split⟩ | ⟨front, split⟩ | inside
    · obtain ⟨letter, others, rfl⟩ := List.exists_cons_of_ne_nil nonempty
      have same : letter = '"' := (List.cons.inj split).1
      exact absurd (by simp [same]) noQuote
    · have last := congrArg List.getLast? split
      rw [List.getLast?_append_of_ne_nil _ nonempty, List.getLast?_concat] at last
      exact absurd (List.mem_of_getLast? last) noQuote
    · exact infix_of_infix_escapeText nonempty plain inside
  · rintro ⟨front, back, rfl⟩
    refine ⟨'"' :: escapeText front, escapeText back ++ ['"'], ?_⟩
    rw [literal, escapeText_append, escapeText_append, escapeText_of_plain plain]
    simp

/-- Characters without a backslash before them keep their order in a literal. -/
theorem sublist_literal_iff {word text : List Char} (plain : ∀ letter ∈ word, ¬ Escaped letter) :
    word <+ literal text ↔ word <+ text := by
  let keeps (character : Char) : Bool := decide (¬ Escaped character)
  have keepsNone : keeps '\\' = false ∧ keeps '"' = false := by
    simp [keeps, Escaped]
  have filtered (text : List Char) : (escapeText text).filter keeps = text.filter keeps := by
    induction text with
    | nil => rfl
    | cons character rest inductionHypothesis =>
      by_cases escaped : Escaped character
      · rw [escapeText_cons_of_escaped escaped, List.filter_cons_of_neg (by simp [keepsNone]),
          List.filter_cons, List.filter_cons, inductionHypothesis]
      · rw [escapeText_cons_of_plain escaped, List.filter_cons, List.filter_cons,
          inductionHypothesis]
  have kept : word.filter keeps = word :=
    List.filter_eq_self.mpr fun letter member => by simpa [keeps] using plain letter member
  have same : (literal text).filter keeps = text.filter keeps := by
    simp [literal, keepsNone, filtered]
  have through (whole : List Char) : word <+ whole ↔ word <+ whole.filter keeps := by
    refine ⟨fun inside => ?_, fun inside => inside.trans List.filter_sublist⟩
    rw [← kept]
    exact inside.filter keeps
  rw [through, same, ← through]

/-- Quotes and backslashes around and in a text give a fence nothing to replace. -/
theorem spares_literal_iff (isFence : fence ∈ Fence.rounding) (text : List Char) :
    fence.Spares (literal text) ↔ fence.Spares text := by
  have plainGlyphs : ∀ glyph ∈ [fence.opening, fence.closing], ¬ Escaped glyph := by
    simp only [Fence.rounding, List.mem_cons, List.not_mem_nil, or_false] at isFence
    rcases isFence with rfl | rfl <;> simp [Escaped, Fence.floor, Fence.ceiling]
  have plainCall : ∀ letter ∈ fence.emptyCall, ¬ Escaped letter := by
    simp only [Fence.rounding, List.mem_cons, List.not_mem_nil, or_false] at isFence
    rcases isFence with rfl | rfl <;>
      simp [Escaped, Fence.emptyCall, Fence.floor, Fence.ceiling]
  have pairs : [fence.opening, fence.closing] <+ literal text ↔ _ := sublist_literal_iff plainGlyphs
  have calls : fence.emptyCall <:+: literal text ↔ _ :=
    infix_literal_iff fence.emptyCall_ne_nil plainCall
  constructor
  · rintro ⟨noPair, noCall⟩
    exact ⟨fun pair => noPair (pairs.mpr pair), fun call => noCall (calls.mpr call)⟩
  · rintro ⟨noPair, noCall⟩
    exact ⟨fun pair => noPair (pairs.mp pair), fun call => noCall (calls.mp call)⟩

end Spared

section Writing

/-- A text is written as its literal, in which the fences are then replaced. -/
theorem write_text (content : String) :
    write (.text content) =
      .ok (Fence.ceiling.apply (Fence.floor.apply (String.ofList (literal content.toList)))) := by
  have rendered : Piece.rendered? ⟨.text, content⟩ =
      some (String.ofList (literal content.toList)) := rfl
  have nonempty : String.ofList (literal content.toList) ≠ "" := by
    rw [Ne, ← String.toList_inj, String.toList_ofList]
    simp [literal]
  simp [write, Writer.finish, Writer.flush, Writer.append, Node.pieces, leafPieces,
    Writer.writePieces, Writer.writePiece, rendered, nonempty, Writer.writeText, Spacing.gap,
    Spacing.joinsTo]

/-- What starts with a quote does so after the fences are replaced. -/
theorem Fence.Proper.head?_apply {fence : Fence} (proper : fence.Proper) {text : String}
    (starts : text.toList.head? = some '"') : (fence.apply text).toList.head? = some '"' := by
  have round {text : List Char} (starts : text.head? = some '"') :
      (fence.replaceInnermost none text).head? = some '"' := by
    obtain ⟨rest, rfl⟩ := List.head?_eq_some_iff.mp starts
    rw [replaceInnermost, if_neg (proper.signs '"' (by simp)).1]
    rfl
  have rounds (count : Nat) {text : List Char} (starts : text.head? = some '"') :
      (fence.replaceTimes count text).head? = some '"' := by
    induction count generalizing text with
    | zero => exact starts
    | succ count inductionHypothesis => exact inductionHypothesis (round starts)
  obtain ⟨rest, replaced⟩ := List.head?_eq_some_iff.mp (rounds (text.toList.count fence.closing) starts)
  have noCall : ¬ fence.emptyCall <+: '"' :: rest := by
    intro found
    obtain ⟨tail, split⟩ := found
    obtain ⟨first, others, named⟩ := List.exists_cons_of_ne_nil fence.emptyCall_ne_nil
    rw [named] at split
    have same : first = '"' := (List.cons.inj split).1
    exact proper.quote_not_mem_emptyCall (by simp [named, same])
  rw [toList_apply_eq, replacePairs, replaced, replaceAll_cons_of_absent noCall]
  rfl

/-- The glyphs of floors are no business of ceilings. -/
theorem count_apply_ceiling (text : String) :
    (Fence.ceiling.apply text).toList.count Fence.floor.closing =
      text.toList.count Fence.floor.closing := by
  rw [Fence.toList_apply_eq, count_replaceAll Fence.ceiling.emptyCall_ne_nil (by decide),
    Fence.count_replacePairs (by decide) (by decide) (by decide)]

/-- What is replaced in a text shows in how often some character occurs in it. -/
theorem exists_count_ne_of_not_spares {fence : Fence} (isFence : fence ∈ Fence.rounding)
    {text : String} (touched : ¬ fence.Spares text.toList) :
    ∃ character, character ≠ '\\' ∧
      (Fence.ceiling.apply (Fence.floor.apply text)).toList.count character ≠
        text.toList.count character := by
  by_cases spared : Fence.floor.Spares text.toList
  · have isCeiling : fence = Fence.ceiling := by
      simp only [Fence.rounding, List.mem_cons, List.not_mem_nil, or_false] at isFence
      exact isFence.resolve_left fun isFloor => touched (isFloor ▸ spared)
    rw [isCeiling] at touched
    rw [spared.apply_eq]
    rcases Fence.proper_ceiling.altered_of_not_spares touched with fewer | more
    · exact ⟨_, by decide, fewer.ne⟩
    · exact ⟨_, by decide, more.ne'⟩
  · rcases Fence.proper_floor.altered_of_not_spares spared with fewer | more
    · refine ⟨Fence.floor.closing, by decide, ?_⟩
      rw [count_apply_ceiling]
      exact fewer.ne
    · exact ⟨_, by decide, (more.trans_le (Fence.proper_ceiling.count_quote_le_apply _)).ne'⟩

/-- A text is written as a literal at all times. It is read back from it, with nothing left
over, exactly if no fence has anything to replace in it. -/
theorem text_read_back_iff (content : String) :
    ∃ written, write (.text content) = .ok written ∧ written.toList.head? = some '"' ∧
      (readLiteral? written.toList = some (content.toList, []) ↔
        ∀ fence ∈ Fence.rounding, fence.Spares content.toList) := by
  have spares_iff {fence : Fence} (isFence : fence ∈ Fence.rounding) :
      fence.Spares (String.ofList (literal content.toList)).toList ↔
        fence.Spares content.toList := by
    rw [String.toList_ofList]
    exact spares_literal_iff isFence content.toList
  refine ⟨_, write_text content, ?_, ?_, ?_⟩
  · apply Fence.proper_ceiling.head?_apply
    apply Fence.proper_floor.head?_apply
    simp [literal]
  · intro read fence isFence
    by_contra touched
    rw [← spares_iff isFence] at touched
    obtain ⟨character, noBackslash, differs⟩ := exists_count_ne_of_not_spares isFence touched
    rw [String.toList_ofList] at differs
    exact differs (count_of_readLiteral? noBackslash read)
  · intro spares
    have spared {fence : Fence} (isFence : fence ∈ Fence.rounding) :
        fence.Spares (String.ofList (literal content.toList)).toList :=
      (spares_iff isFence).mpr (spares fence isFence)
    rw [(spared Fence.floor_mem_rounding).apply_eq, (spared Fence.ceiling_mem_rounding).apply_eq,
      String.toList_ofList]
    exact readLiteral?_literal content.toList

/-- A text with a call in it is written with quotes in the middle of the literal, where it is
read as ended. -/
theorem text_with_call_ends_early :
    write (.text "floor()") = .ok "\"floor(\"\")\"" ∧
      readLiteral? "\"floor(\"\")\"".toList = some ("floor(".toList, "\")\"".toList) := by
  rw [write_text]
  constructor
  · cbv
  · cbv

end Writing

end MathMarkup.Typst
