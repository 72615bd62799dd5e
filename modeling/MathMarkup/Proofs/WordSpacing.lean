import MathMarkup.Proofs.TokenSpacing

/-!
# Words stay apart

Between two texts a writer puts a single space or nothing. It puts the space wherever the
two would be read as one word; only the digits of a number may meet.
-/

namespace MathMarkup.Text

/-- Two sets have no member in common if their runs do not overlap. -/
theorem CodePointSet.not_contains_of_apart {set other : CodePointSet}
    (apart : ∀ run ∈ set, ∀ another ∈ other, run.2 < another.1 ∨ another.2 < run.1)
    {character : Char} (member : set.contains character = true) :
    other.contains character = false := by
  obtain ⟨run, isRun, spans⟩ := List.any_eq_true.mp member
  refine List.any_eq_false.mpr fun another isAnother spansToo => ?_
  simp only [Bool.and_eq_true, decide_eq_true_eq] at spans spansToo
  have clear := apart run isRun another isAnother
  omega

theorem not_isBlank_of_isAlphanumeric {character : Char}
    (inWord : isAlphanumeric character = true) : isBlank character = false :=
  CodePointSet.not_contains_of_apart (by decide +kernel) inWord

end MathMarkup.Text

namespace MathMarkup.Typst

open Spacing Text

/-- Side by side the two texts would be read as one word: letters or numbers meet, and they
are not both digits. -/
def RunTogether (written text : String) : Prop :=
  ∃ last ∈ written.toList.getLast?, ∃ first ∈ text.toList.head?,
    isAlphanumeric last = true ∧ isAlphanumeric first = true ∧
      ¬ (isDigit last = true ∧ isDigit first = true)

/-- The texts that are written for some pieces. There is none for a soft space or for a piece
without content. -/
def writtenTexts (pieces : List Piece) : List String :=
  (pieces.filterMap Piece.rendered?).filter (· ≠ "")

/-- The texts one after the other, each with its gap before it. -/
def joined (gaps texts : List String) : String :=
  String.join (List.zipWith (· ++ ·) gaps texts)

/-- The gaps, one for each text, are single spaces or empty, and keep the texts apart that
would run together with what is written before them. -/
structure Gaps (written : String) (gaps texts : List String) : Prop where
  length_eq : gaps.length = texts.length
  single : ∀ gap ∈ gaps, gap = "" ∨ gap = " "
  apart : ∀ (place : Nat) (gap text : String), gaps[place]? = some gap →
    texts[place]? = some text →
    RunTogether (written ++ joined (gaps.take place) (texts.take place)) text → gap = " "

section Rules

/-- The signs that the spacing rules name. None of them stands in a word. -/
def spacingSigns : List Char :=
  ['(', ')', '{', '}', '|', '_', '^', ',', ';', '!', '\'', '"', '-', '+', '\n']

theorem not_mem_of_isAlphanumeric {character : Char} (inWord : isAlphanumeric character = true)
    {signs : List Char} (listed : signs ⊆ spacingSigns) : character ∉ signs := by
  have outside : CodePointSet.contains
      (spacingSigns.map fun sign => (sign.toNat, sign.toNat)) character = false :=
    CodePointSet.not_contains_of_apart (by decide +kernel) inWord
  intro isSign
  have spanned := List.any_eq_false.mp outside _ (List.mem_map_of_mem (listed isSign))
  simp at spanned

/-- No rule puts two texts together that would be read as one word. -/
theorem joinsTo_eq_false {last first : Char} (lastInWord : isAlphanumeric last = true)
    (firstInWord : isAlphanumeric first = true)
    (noNumber : ¬ (isDigit last = true ∧ isDigit first = true)) (before after : List Char) :
    joinsTo (last :: before) (first :: after) = false := by
  have notBlank := not_isBlank_of_isAlphanumeric lastInWord
  have notOpening : last ∉ ['(', '|'] := not_mem_of_isAlphanumeric lastInWord (by decide)
  have notOpen : last ∉ openPunctuation := not_mem_of_isAlphanumeric lastInWord (by decide)
  have notSign : last ∉ ['-', '+'] := not_mem_of_isAlphanumeric lastInWord (by decide)
  have notClose : first ∉ closePunctuation := not_mem_of_isAlphanumeric firstInWord (by decide)
  have notMark : first ∉ ['\'', '\n'] := not_mem_of_isAlphanumeric firstInWord (by decide)
  simp only [List.mem_cons, List.not_mem_nil, or_false, not_or] at notOpening notSign notMark
  simpa [joinsTo, startsWith, endsInLeadingSign, isSign, notBlank, notOpening, notOpen, notSign,
    notClose, notMark] using noNumber

/-- Texts that would run together have a space between them, whatever stands before. -/
theorem gap_of_runTogether {written text : String} (together : RunTogether written text)
    (afterItem : Bool) : gap afterItem written text = " " := by
  obtain ⟨last, isLast, first, isFirst, lastInWord, firstInWord, noNumber⟩ := together
  obtain ⟨after, starts⟩ := List.head?_eq_some_iff.mp isFirst
  obtain ⟨before, ends⟩ := List.getLast?_eq_some_iff.mp isLast
  unfold gap
  split
  · rfl
  · rw [ends, starts, List.reverse_concat, joinsTo_eq_false lastInWord firstInWord noNumber]
    rfl

end Rules

section Writing

theorem Gaps.nil (written : String) : Gaps written [] [] where
  length_eq := rfl
  single := by simp
  apart := by simp

/-- A gap before the first of some texts. The others go after it. -/
theorem Gaps.cons {written gap text : String} {gaps texts : List String}
    (isGap : gap = "" ∨ gap = " ") (separates : RunTogether written text → gap = " ")
    (others : Gaps (written ++ gap ++ text) gaps texts) :
    Gaps written (gap :: gaps) (text :: texts) where
  length_eq := congrArg (· + 1) others.length_eq
  single := List.forall_mem_cons.mpr ⟨isGap, others.single⟩
  apart := by
    intro place found next isFound isNext together
    cases place with
    | zero =>
      cases isFound
      cases isNext
      exact separates (by simpa [joined] using together)
    | succ place =>
      refine others.apart place found next isFound isNext ?_
      simpa [joined, String.append_assoc] using together

/-- What one piece adds to the texts. -/
theorem writtenTexts_cons {piece : Piece} {text : String} (rendered : piece.rendered? = some text)
    (rest : List Piece) :
    writtenTexts (piece :: rest) = if text = "" then writtenTexts rest
      else text :: writtenTexts rest := by
  simp only [writtenTexts, List.filterMap_cons, rendered]
  split
  · rename_i empty
    simp [empty]
  · rename_i nonempty
    simp [nonempty]

/-- Pieces are written as their texts with gaps before them. -/
theorem writePieces_gaps {pieces : List Piece} (writable : Writable pieces) (writer : Writer) :
    ∃ gaps, Gaps writer.buffer gaps (writtenTexts pieces) ∧
      (writer.writePieces pieces).1.buffer =
        writer.buffer ++ joined gaps (writtenTexts pieces) := by
  induction pieces generalizing writer with
  | nil => exact ⟨[], .nil _, by simp [Writer.writePieces, joined, writtenTexts]⟩
  | cons piece others inductionHypothesis =>
    obtain ⟨text, rendered⟩ := Option.isSome_iff_exists.mp (writable piece List.mem_cons_self)
    have onward := inductionHypothesis fun other member =>
      writable other (List.mem_cons_of_mem _ member)
    rw [Writer.writePieces, writePiece_eq rendered, writtenTexts_cons rendered]
    by_cases empty : text = ""
    · -- Nothing is written for the piece. It may leave a soft space behind.
      simp only [if_pos empty]
      exact onward { writer with afterItem := writer.afterItem || piece.kind == .softSpace }
    · simp only [if_neg empty]
      obtain ⟨gaps, areGaps, written⟩ := onward (writer.writeText text)
      refine ⟨gap writer.afterItem writer.buffer text :: gaps, ?_, ?_⟩
      · exact .cons (gap_eq _ _ _) (fun together => gap_of_runTogether together _) areGaps
      · rw [written]
        simp [Writer.writeText, joined, String.append_assoc]

theorem rendered?_isSome {piece : Piece} (valid : piece.kind ∈ PieceKind.writable) :
    piece.rendered?.isSome = true := by
  obtain ⟨kind, content⟩ := piece
  cases kind with
  | foreign name => simp [PieceKind.writable] at valid
  | atom | symbol | text | softSpace | comment | newline => rfl

end Writing

/-- A writer empties its queue, and adds to what is written only the texts of the queue with
gaps before them. The gaps are single spaces or empty, and texts that would run together with
what is written before them have a space there. -/
theorem flush_separates_words (writer : Writer)
    (valid : ∀ piece ∈ writer.queue, piece.kind ∈ PieceKind.writable) :
    ∃ written gaps, writer.flush = (written, none) ∧ written.queue = [] ∧
      Gaps writer.buffer gaps (writtenTexts writer.queue) ∧
      written.buffer = writer.buffer ++ joined gaps (writtenTexts writer.queue) := by
  have writable : Writable writer.queue := fun piece member => rendered?_isSome (valid piece member)
  obtain ⟨written, wholly⟩ := Writer.writePieces_of_writable writable writer
  obtain ⟨gaps, areGaps, same⟩ := writePieces_gaps writable writer
  rw [wholly] at same
  refine ⟨{ written with queue := [] }, gaps, ?_, rfl, areGaps, same⟩
  unfold Writer.flush
  rw [wholly]

/-- A word and a number are waiting after a word. A soft space stands before the number. -/
def waitingWords : Writer where
  buffer := "a"
  queue := [.symbol "b", ⟨.softSpace, ""⟩, .symbol "2", .symbol "3", .atom ")"]

theorem flush_separates_waitingWords :
    (∀ piece ∈ waitingWords.queue, piece.kind ∈ PieceKind.writable) ∧
      ∃ written gaps, waitingWords.flush = (written, none) ∧ written.queue = [] ∧
        Gaps "a" gaps ["b", "2", "3", ")"] ∧
        written.buffer = "a" ++ joined gaps ["b", "2", "3", ")"] ∧
        written.buffer = "a b 23)" := by
  have valid : ∀ piece ∈ waitingWords.queue, piece.kind ∈ PieceKind.writable := by decide
  obtain ⟨written, gaps, flushed, emptied, areGaps, whole⟩ :=
    flush_separates_words waitingWords valid
  refine ⟨valid, written, gaps, flushed, emptied, areGaps, whole, ?_⟩
  obtain rfl : waitingWords.flush.1 = written := congrArg Prod.fst flushed
  rfl

end MathMarkup.Typst
