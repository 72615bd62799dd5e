import MathMarkup.Proofs.Pieces

/-!
# Space after line breaks and code expressions

A backslash and a code expression change how the next character is read, so that a space
belongs after them. The spacing rules look at the ends of what is written and at the next
text alone. `Touches` says which of them leave the space out.
-/

namespace MathMarkup.Typst

open Spacing Text

/-- The token changes how the next character is read: it is a line break, or it starts
an expression in code. -/
def AffectsNext (content : String) : Prop :=
  content = "\\" ∨ content.toList.head? = some '#'

/-- The next text that is written, and whether a soft space stands before it. -/
def nextText? : List Piece → Option (Bool × String)
  | [] => none
  | piece :: rest =>
    match piece.rendered? with
    | none => none
    | some text =>
      if text = "" then
        (nextText? rest).map fun next => (piece.kind == .softSpace || next.1, next.2)
      else some (false, text)

/-- The signs that are written close to any token before them. -/
def attachedSigns : List Char := ['}', '(', ')', '_', '^', ',', ';', '!', '|', '\'']

/-- The text ends in a character of the given class. -/
def endsWith (text : List Char) (holds : Char → Bool) : Bool :=
  text.getLast?.any holds

/-- The end of the token draws the text close. -/
inductive DrawsClose (content text : List Char) : Prop where
  /-- A word after an opening parenthesis or a bar. -/
  | word (ends : endsWith content ['(', '|'].contains = true)
      (follows : startsWith text isWordCharacter = true)
  /-- A digit after a digit. -/
  | number (ends : endsWith content isDigit = true) (follows : startsWith text isDigit = true)
  /-- A text after a sign that stands after an opening bracket. -/
  | sign {before blanks : List Char} {bracket sign : Char}
      (ends : content = before ++ bracket :: (blanks ++ [sign]))
      (opens : bracket ∈ ['(', '[', '{']) (passed : ∀ blank ∈ blanks, isBlank blank = true)
      (isSign : sign ∈ ['-', '+'])
  /-- A text after a blank, a quote, a script mark or an opening brace or parenthesis. -/
  | opened (ends : endsWith content (fun last =>
      isBlank last || ['"', '_', '^', '{', '('].contains last) = true)

/-- Nothing blank stands between the token and the next text. -/
structure Touches (content : String) (soft : Bool) (text : String) : Prop where
  notBlank : startsWith text.toList isBlank = false
  noSoftSpace : soft = true →
    startsWith text.toList (fun first => first.isAlphanum || first == '(') = false
  joined : (∃ sign ∈ attachedSigns, text.toList = [sign]) ∨
    (content ≠ "\\" ∧ DrawsClose content.toList text.toList)

section Writing

theorem writePiece_eq {piece : Piece} {text : String} (rendered : piece.rendered? = some text)
    (writer : Writer) :
    writer.writePiece piece = .ok (if text = "" then
        { writer with afterItem := writer.afterItem || piece.kind == .softSpace }
      else writer.writeText text) := by
  unfold Writer.writePiece
  rw [rendered]
  by_cases soft : piece.kind = .softSpace
  · have empty : text = "" := by
      simpa [Piece.rendered?, soft] using rendered.symm
    simp [soft, empty]
  · have hard : (piece.kind == .softSpace) = false := by simpa using soft
    simp [soft, hard]

/-- What is written stays. The next text follows after the space that belongs there. -/
theorem buffer_writePieces {pieces : List Piece} (writable : Writable pieces) (writer : Writer) :
    ∃ rest, (writer.writePieces pieces).1.buffer = writer.buffer ++ rest ∧
      (nextText? pieces = none → rest = "") ∧
      ∀ soft text, nextText? pieces = some (soft, text) → text ≠ "" ∧
        ∃ more, rest = gap (writer.afterItem || soft) writer.buffer text ++ text ++ more := by
  induction pieces generalizing writer with
  | nil => exact ⟨"", by simp [Writer.writePieces], by simp [nextText?]⟩
  | cons piece others inductionHypothesis =>
    obtain ⟨text, rendered⟩ := Option.isSome_iff_exists.mp (writable piece List.mem_cons_self)
    have onward := inductionHypothesis fun other member =>
      writable other (List.mem_cons_of_mem _ member)
    rw [Writer.writePieces, writePiece_eq rendered, nextText?, rendered]
    by_cases empty : text = ""
    · -- Nothing is written for the piece, which may be a soft space.
      simp only [if_pos empty, Option.map_eq_none_iff, Option.map_eq_some_iff]
      obtain ⟨rest, same, ends, follows⟩ := onward
        { writer with afterItem := writer.afterItem || piece.kind == .softSpace }
      refine ⟨rest, same, ends, ?_⟩
      rintro _ _ ⟨⟨soft, next⟩, found, ⟨⟩⟩
      simpa [Bool.or_assoc] using follows soft next found
    · simp only [if_neg empty]
      obtain ⟨rest, same, -⟩ := onward (writer.writeText text)
      refine ⟨gap writer.afterItem writer.buffer text ++ text ++ rest, ?_, by simp, ?_⟩
      · rw [same]
        simp [Writer.writeText, String.append_assoc]
      · rintro _ _ ⟨⟩
        exact ⟨empty, rest, by simp⟩

end Writing

section Rules

variable {content : List Char}

theorem startsWith_reverse (holds : Char → Bool) :
    startsWith content.reverse holds = endsWith content holds := by
  simp [startsWith, endsWith]

theorem startsWith_append (nonempty : content ≠ []) (others : List Char) (holds : Char → Bool) :
    startsWith (content ++ others) holds = startsWith content holds := by
  cases content with
  | nil => exact absurd rfl nonempty
  | cons first rest => rfl

/-- Blanks are passed over up to the first character that is none. -/
theorem startsWith_dropWhile_append {stop : Char} (solid : isBlank stop = false)
    (before after : List Char) (holds : Char → Bool) :
    startsWith ((before ++ stop :: after).dropWhile isBlank) holds =
      startsWith ((before ++ [stop]).dropWhile isBlank) holds := by
  induction before with
  | nil => simp [solid, startsWith]
  | cons first rest inductionHypothesis =>
    cases blank : isBlank first with
    | true => simpa [blank] using inductionHypothesis
    | false => simp [blank, startsWith]

theorem isSign_iff {sign : Char} : isSign sign = true ↔ sign ∈ ['-', '+'] := by
  simp [isSign]

theorem isBlank_of_bracket {bracket : Char} (isBracket : bracket ∈ ['(', '[', '{']) :
    isBlank bracket = false := by
  simp only [List.mem_cons, List.not_mem_nil, or_false] at isBracket
  rcases isBracket with rfl | rfl | rfl <;> decide

/-- A sign is a leading one if only blanks stand between it and an opening bracket. -/
theorem endsInLeadingSign_reverse_iff :
    endsInLeadingSign content.reverse = true ↔
      ∃ before bracket blanks sign, content = before ++ bracket :: (blanks ++ [sign]) ∧
        bracket ∈ ['(', '[', '{'] ∧ (∀ blank ∈ blanks, isBlank blank = true) ∧
        sign ∈ ['-', '+'] := by
  constructor
  · intro leads
    rcases List.eq_nil_or_concat content with rfl | ⟨init, sign, rfl⟩
    · cases leads
    · rw [List.concat_eq_append, List.reverse_concat, endsInLeadingSign, Bool.and_eq_true] at leads
      obtain ⟨isSign, opens⟩ := leads
      have split : init.reverse.takeWhile isBlank ++ init.reverse.dropWhile isBlank =
          init.reverse := List.takeWhile_append_dropWhile
      have areBlank : ∀ blank ∈ init.reverse.takeWhile isBlank, isBlank blank = true :=
        List.all_eq_true.mp List.all_takeWhile
      generalize init.reverse.takeWhile isBlank = blanks at split areBlank
      generalize init.reverse.dropWhile isBlank = stopped at split opens
      cases stopped with
      | nil => cases opens
      | cons bracket before =>
        refine ⟨before.reverse, bracket, blanks.reverse, sign, ?_,
          by simpa [startsWith] using opens, by simpa using areBlank, isSign_iff.mp isSign⟩
        rw [← List.reverse_reverse init, ← split]
        simp
  · rintro ⟨before, bracket, blanks, sign, rfl, isBracket, areBlank, isSign⟩
    have turned : (before ++ bracket :: (blanks ++ [sign])).reverse =
        sign :: (blanks.reverse ++ bracket :: before.reverse) := by
      simp
    have stops : (blanks.reverse ++ bracket :: before.reverse).dropWhile isBlank =
        bracket :: before.reverse := by
      rw [List.dropWhile_append_of_pos (by simpa using areBlank),
        List.dropWhile_cons_of_neg (by simp [isBlank_of_bracket isBracket])]
    rw [turned, endsInLeadingSign, stops, isSign_iff.mpr isSign]
    simpa [startsWith] using isBracket

/-- What stands before a token that affects the next character does not matter. The blanks
before a sign are passed over no further than to the start of the token. -/
theorem joinsTo_append (affects : content = ['\\'] ∨ content.head? = some '#')
    (earlier text : List Char) :
    joinsTo (content.reverse ++ earlier) text = joinsTo content.reverse text := by
  rcases affects with rfl | isCode
  · simp [joinsTo, startsWith, endsInLeadingSign, isSign]
  · obtain ⟨rest, rfl⟩ := List.head?_eq_some_iff.mp isCode
    rw [List.reverse_cons, List.append_assoc]
    cases rest.reverse with
    | nil => simp [joinsTo, startsWith, endsInLeadingSign, isSign]
    | cons last before =>
      have solid : isBlank '#' = false := by decide
      have same := startsWith_dropWhile_append solid before earlier ['(', '[', '{'].contains
      have signs : endsInLeadingSign (last :: (before ++ '#' :: earlier)) =
          endsInLeadingSign (last :: (before ++ ['#'])) := congrArg (isSign last && ·) same
      have further (sign : Char) : (last :: (before ++ '#' :: earlier) == [sign]) =
          (last :: (before ++ ['#']) == [sign]) := by
        cases before <;> simp
      simp [joinsTo, startsWith, signs, further]

theorem isAttached_iff {text : List Char} :
    (text.length == 1 && startsWith text closePunctuation.contains || text == ['\'']) = true ↔
      ∃ sign ∈ attachedSigns, text = [sign] := by
  match text with
  | [] => simp [startsWith]
  | [only] => simp [startsWith, closePunctuation, attachedSigns, or_assoc]
  | first :: second :: rest => simp

/-- The rules that look at the end of the token, as the writer applies them. -/
theorem drawsClose_iff {text : List Char} :
    DrawsClose content text ↔
      (endsWith content ['(', '|'].contains && startsWith text isWordCharacter ||
        endsWith content isDigit && startsWith text isDigit || endsInLeadingSign content.reverse ||
        endsWith content fun last => isBlank last || openPunctuation.contains last) = true := by
  simp only [Bool.or_eq_true, Bool.and_eq_true, endsInLeadingSign_reverse_iff]
  constructor
  · intro draws
    cases draws with
    | word ends follows => exact .inl (.inl (.inl ⟨ends, follows⟩))
    | number ends follows => exact .inl (.inl (.inr ⟨ends, follows⟩))
    | sign ends opens passed isSign =>
      exact .inl (.inr ⟨_, _, _, _, ends, opens, passed, isSign⟩)
    | opened ends => exact .inr ends
  · rintro (((word | number) | leading) | opened)
    · exact .word word.1 word.2
    · exact .number number.1 number.2
    · obtain ⟨before, bracket, blanks, sign, ends, opens, passed, isSign⟩ := leading
      exact .sign ends opens passed isSign
    · exact .opened opened

/-- The cases in which no space goes between a token that affects the next character and
the next text. -/
theorem joinsTo_reverse_iff (affects : content = ['\\'] ∨ content.head? = some '#')
    (text : List Char) :
    joinsTo content.reverse text = true ↔ (∃ sign ∈ attachedSigns, text = [sign]) ∨
      (content ≠ ['\\'] ∧ DrawsClose content text) ∨ startsWith text (· == '\n') = true := by
  rw [← isAttached_iff]
  rcases affects with rfl | isCode
  · have noDigit : isDigit '\\' = false := by decide
    have noBlank : isBlank '\\' = false := by decide
    simp [joinsTo, startsWith, endsInLeadingSign, isSign, openPunctuation, noDigit, noBlank]
  · obtain ⟨rest, rfl⟩ := List.head?_eq_some_iff.mp isCode
    have notEscape : '#' :: rest ≠ ['\\'] := by simp
    have notSign {sign : Char} (differs : '#' ≠ sign) :
        (('#' :: rest).reverse == [sign]) = false := by
      rw [beq_eq_false_iff_ne]
      intro same
      have turned := congrArg List.reverse same
      simp [differs] at turned
    have notMinus := notSign (show '#' ≠ '-' by decide)
    have notPlus := notSign (show '#' ≠ '+' by decide)
    have notEmpty : ('#' :: rest).reverse.isEmpty = false := by simp
    rw [and_iff_right notEscape, drawsClose_iff, ← Bool.or_eq_true, ← Bool.or_eq_true]
    unfold joinsTo
    simp only [startsWith_reverse, notEmpty, notMinus, notPlus, Bool.false_or, Bool.or_false]
    refine iff_of_eq (congrArg (· = true) ?_)
    ac_rfl

end Rules

section Separation

theorem isBreak_iff {content : String} : content = "\\" ↔ content.toList = ['\\'] :=
  ⟨fun isBreak => congrArg String.toList isBreak, fun same => String.toList_inj.mp same⟩

theorem isBlank_of_newline {text : List Char} (newline : startsWith text (· == '\n') = true) :
    startsWith text isBlank = true := by
  cases text with
  | nil => cases newline
  | cons first rest =>
    obtain rfl : first = '\n' := by simpa [startsWith] using newline
    rfl

theorem AffectsNext.toList {content : String} (affects : AffectsNext content) :
    content.toList = ['\\'] ∨ content.toList.head? = some '#' :=
  affects.imp_left isBreak_iff.mp

theorem AffectsNext.ne_empty {content : String} (affects : AffectsNext content) : content ≠ "" := by
  rintro rfl
  rcases affects.toList with isBreak | isCode
  · cases isBreak
  · cases isCode

/-- The text stands right after a token that affects the next character exactly if it
touches the token. -/
theorem not_startsWith_gap_iff {content text : String} (affects : AffectsNext content)
    (nonempty : text ≠ "") (soft : Bool) (earlier more : String) :
    startsWith (gap soft (earlier ++ content) text ++ text ++ more).toList isBlank = false ↔
      Touches content soft text := by
  have rules := joinsTo_reverse_iff affects.toList text.toList
  rw [← joinsTo_append affects.toList earlier.toList.reverse, ← List.reverse_append,
    ← String.toList_append] at rules
  have spaced : startsWith (" " ++ text ++ more).toList isBlank = true := by
    rw [String.toList_append, String.toList_append]
    rfl
  have close : startsWith ("" ++ text ++ more).toList isBlank = startsWith text.toList isBlank := by
    rw [String.empty_append, String.toList_append]
    exact startsWith_append (by simpa using nonempty) _ _
  unfold gap
  split
  · rename_i softly
    rw [Bool.and_eq_true] at softly
    rw [spaced]
    refine ⟨by simp, fun touches => ?_⟩
    exact absurd softly.2 (Bool.eq_false_iff.mp (touches.noSoftSpace softly.1))
  · rename_i hard
    have noSoftSpace : soft = true →
        startsWith text.toList (fun first => first.isAlphanum || first == '(') = false := by
      simpa [wantsSoftSpace] using hard
    split
    · rename_i joins
      rw [close]
      refine ⟨fun notBlank => ⟨notBlank, noSoftSpace, ?_⟩, fun touches => touches.notBlank⟩
      rcases rules.mp joins with attached | draws | newline
      · exact .inl attached
      · exact .inr ⟨fun isBreak => draws.1 (isBreak_iff.mp isBreak), draws.2⟩
      · rw [isBlank_of_newline newline] at notBlank
        cases notBlank
    · rename_i apart
      rw [spaced]
      refine ⟨by simp, fun touches => absurd (rules.mpr ?_) apart⟩
      exact touches.joined.imp_right fun draws =>
        .inl ⟨fun isBreak => draws.1 (isBreak_iff.mpr isBreak), draws.2⟩

end Separation

/-- A token that affects the next character is followed by a blank, or by nothing at all,
exactly if the next text does not touch it. -/
theorem blank_after_iff (node : Node) (before after : List Piece) (content : String)
    (affects : AffectsNext content)
    (queued : (Writer.append node {}).queue = before ++ .symbol content :: after) :
    ∃ reached written earlier rest,
      (Writer.append node {}).writePieces (before ++ [.symbol content]) = (reached, none) ∧
      (Writer.append node {}).flush = (written, none) ∧
      reached.buffer = earlier ++ content ∧ written.buffer = earlier ++ content ++ rest ∧
      ((rest = "" ∨ startsWith rest.toList isBlank = true) ↔
        ∀ soft text, nextText? after = some (soft, text) → ¬ Touches content soft text) := by
  have writable : Writable (before ++ .symbol content :: after) := by
    rw [← queued]
    simpa using writable_pieces _ node
  have beforeWritable : Writable before := fun piece member => writable piece (by simp [member])
  have afterWritable : Writable after := fun piece member => writable piece (by simp [member])
  obtain ⟨start, started⟩ :=
    Writer.writePieces_of_writable beforeWritable (Writer.append node {})
  have reached : (Writer.append node {}).writePieces (before ++ [.symbol content]) =
      (start.writeText content, none) := by
    have rendered : (Piece.symbol content).rendered? = some content := rfl
    rw [Writer.writePieces_append, started]
    simp only [Writer.writePieces, writePiece_eq rendered, if_neg affects.ne_empty]
  obtain ⟨written, wholly⟩ := Writer.writePieces_of_writable afterWritable (start.writeText content)
  have flushed : (Writer.append node {}).flush = ({ written with queue := [] }, none) := by
    unfold Writer.flush
    rw [queued, List.append_cons, Writer.writePieces_append, reached]
    simp only [wholly]
  obtain ⟨rest, same, ends, follows⟩ := buffer_writePieces afterWritable (start.writeText content)
  rw [wholly] at same
  refine ⟨_, _, start.buffer ++ gap start.afterItem start.buffer content, rest, reached, flushed,
    rfl, same, ?_⟩
  cases next : nextText? after with
  | none => simp [ends next]
  | some found =>
    obtain ⟨soft, text⟩ := found
    obtain ⟨nonempty, more, isRest⟩ := follows soft text next
    have touching : startsWith rest.toList isBlank = false ↔ Touches content soft text := by
      rw [isRest]
      exact not_startsWith_gap_iff affects nonempty soft _ more
    constructor
    · rintro (isEmpty | blank) _ _ ⟨⟩ touches
      · simp [isRest, nonempty] at isEmpty
      · rw [touching.mpr touches] at blank
        cases blank
    · intro apart
      refine .inr (eq_true_of_ne_false fun close => ?_)
      exact apart soft text rfl (touching.mp close)

/-- A line break as a script, with a parenthesis after it. -/
def scriptBreak : Node :=
  .group "" [.supsub "" (.symbol "x") (some (.symbol "\\")) none, .symbol "("]

theorem blank_after_scriptBreak :
    AffectsNext "\\" ∧
      (Writer.append scriptBreak {}).queue =
        [.symbol "x", .atom "^"] ++ .symbol "\\" :: [⟨.softSpace, ""⟩, .symbol "("] ∧
      ∃ reached written earlier rest,
        (Writer.append scriptBreak {}).writePieces
          ([.symbol "x", .atom "^"] ++ [.symbol "\\"]) = (reached, none) ∧
        (Writer.append scriptBreak {}).flush = (written, none) ∧
        reached.buffer = earlier ++ "\\" ∧ written.buffer = earlier ++ "\\" ++ rest ∧
        (rest = "" ∨ startsWith rest.toList isBlank = true) := by
  have affects : AffectsNext "\\" := .inl rfl
  have queued : (Writer.append scriptBreak {}).queue =
      [.symbol "x", .atom "^"] ++ .symbol "\\" :: [⟨.softSpace, ""⟩, .symbol "("] := rfl
  obtain ⟨reached, written, earlier, rest, reads, flushes, atToken, whole, separated⟩ :=
    blank_after_iff scriptBreak _ _ _ affects queued
  refine ⟨affects, queued, reached, written, earlier, rest, reads, flushes, atToken, whole,
    separated.mpr fun soft text next touches => ?_⟩
  cases next
  cases touches.noSoftSpace rfl

/-- A root over a line break. The line break takes the parenthesis that closes the root. -/
def openRoot : Node :=
  .unaryFunc "sqrt" (.group "" [.symbol "a", .symbol "\\"])

theorem lineBreak_touches_parenthesis :
    (Writer.append openRoot {}).queue =
        [.symbol "sqrt", .atom "(", .symbol "a"] ++ .symbol "\\" :: [.atom ")"] ∧
      ∃ reached written,
        (Writer.append openRoot {}).writePieces
          ([.symbol "sqrt", .atom "(", .symbol "a"] ++ [.symbol "\\"]) = (reached, none) ∧
        (Writer.append openRoot {}).flush = (written, none) ∧
        reached.buffer = "sqrt(a " ++ "\\" ∧ written.buffer = "sqrt(a " ++ "\\" ++ ")" := by
  refine ⟨rfl, _, _, rfl, rfl, ?_, ?_⟩
  · rfl
  · rfl

end MathMarkup.Typst
