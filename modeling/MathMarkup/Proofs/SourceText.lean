import MathMarkup.Proofs.Lexemes
import MathMarkup.Proofs.ReadLines

/-!
# The text behind the tokens

No character of a source is lost: the text is made of one span for each of its tokens.
And no token reaches over a place where a brace, a mark, a comment or a command starts, so
that the text may be cut there and its parts read on their own.
-/

namespace MathMarkup.Tex

open Lexer

/-- The spans that tokens of a source can have been read from, one for each token. -/
inductive Spans : List Token → List (List Char) → Prop where
  | nil : Spans [] []
  | comment (line : String) {tokens : List Token} {spans : List (List Char)}
      (others : Spans tokens spans) : Spans (⟨.comment, line⟩ :: tokens) (('%' :: line.toList) :: spans)
  | newline (value : String) {span : List Char} {tokens : List Token} {spans : List (List Char)}
      (breaks : span ∈ [['\n'], ['\r'], ['\r', '\n']]) (others : Spans tokens spans) :
      Spans (⟨.newline, value⟩ :: tokens) (span :: spans)
  /-- A command that takes text may have space after it, and the text stands in braces. -/
  | text {command : Token} {content : String} {blanks body : List Char} {tokens : List Token}
      {spans : List (List Char)} (takes : takesText command = true)
      (spaces : ∀ blank ∈ blanks, blank = ' ' ∨ blank = '\t')
      (stands : String.ofList (unescape body) = content) (others : Spans tokens spans) :
      Spans (command :: .openBrace :: ⟨.text, content⟩ :: .closeBrace :: tokens)
        ((command.value.toList ++ blanks) :: ['{'] :: body :: ['}'] :: spans)
  | other {token : Token} {tokens : List Token} {spans : List (List Char)}
      (ordinary : token.kind ≠ .comment ∧ token.kind ≠ .newline ∧ token.kind ≠ .text)
      (plain : takesText token = false) (others : Spans tokens spans) :
      Spans (token :: tokens) (token.value.toList :: spans)

/-- There is one span for each token. -/
theorem Spans.length_eq {tokens : List Token} {spans : List (List Char)} (read : Spans tokens spans) :
    spans.length = tokens.length := by
  induction read with
  | nil => rfl
  | comment line others inductionHypothesis => simp [inductionHypothesis]
  | newline value breaks others inductionHypothesis => simp [inductionHypothesis]
  | text takes spaces stands others inductionHypothesis => simp [inductionHypothesis]
  | other ordinary plain others inductionHypothesis => simp [inductionHypothesis]

namespace Lexer

section Spans

variable {span rest : List Char} {token : Token}

theorem kind_of_takesText (takes : takesText token = true) : token.kind = .command := by
  simp only [takesText, Bool.and_eq_true, beq_iff_eq] at takes
  exact takes.1

/-- A token other than a comment and a line break is its text. -/
theorem Lexeme.span_eq (lexeme : Lexeme span token rest)
    (ordinary : token.kind ≠ .comment ∧ token.kind ≠ .newline) :
    span = token.value.toList := by
  cases lexeme with
  | comment inLine ends => exact absurd rfl ordinary.1
  | lineFeed | carriageReturn alone | returnAndFeed => exact absurd rfl ordinary.2
  | loneBackslash => rfl
  | control | space | controlEscape | elementEscape | commandSign | command | whole | decimal
  | letter | sign | foreign => exact String.toList_ofList.symm

theorem Lexeme.spans (lexeme : Lexeme span token rest) (plain : takesText token = false)
    {tokens : List Token} {spans : List (List Char)} (others : Spans tokens spans) :
    Spans (token :: tokens) (span :: spans) := by
  cases lexeme with
  | @comment line rest inLine ends =>
    have written := Spans.comment (String.ofList line) others
    rwa [String.toList_ofList] at written
  | lineFeed | carriageReturn alone | returnAndFeed => exact .newline "\n" (by simp) others
  | loneBackslash => exact .other (by simp) plain others
  | control | space | controlEscape | elementEscape | commandSign | command | whole | decimal
  | letter | sign | foreign =>
    have written := Spans.other (by simp) plain others
    rwa [String.toList_ofList] at written

theorem Segment.exists_spans {unit : List Token} (segment : Segment span unit rest)
    {tokens : List Token} {spans : List (List Char)} (others : Spans tokens spans) :
    ∃ first, Spans (unit ++ tokens) (first ++ spans) ∧ first.flatten = span := by
  cases segment with
  | single lexeme plain => exact ⟨[span], lexeme.spans plain others, by simp⟩
  | @text name blanks body rest command lexeme takes spaces enclosed =>
    have isCommand := kind_of_takesText takes
    obtain rfl := lexeme.span_eq (by simp [isCommand])
    have blank : ∀ blank ∈ blanks, blank = ' ' ∨ blank = '\t' := by simpa [isSpace] using spaces
    exact ⟨[command.value.toList ++ blanks, ['{'], body, ['}']], .text takes blank rfl others, by simp⟩

theorem Lexes.exists_spans {text : List Char} {tokens : List Token} (lexes : Lexes text tokens) :
    ∃ spans, Spans tokens spans ∧ spans.flatten = text := by
  induction lexes with
  | nil => exact ⟨[], .nil, rfl⟩
  | cons first following inductionHypothesis =>
    obtain ⟨spans, others, rfl⟩ := inductionHypothesis
    obtain ⟨before, read, rfl⟩ := first.exists_spans others
    exact ⟨before ++ spans, read, List.flatten_append⟩

end Spans

section Boundaries

/-- The characters that no token but a comment reaches over. -/
def boundaryCharacters : List Char := ['{', '}', '_', '^', '&', '%', '\\']

/-- The text is empty or starts with one of the `boundaryCharacters`. -/
def StartsAtBoundary (text : List Char) : Prop :=
  ∀ character ∈ text.head?, character ∈ boundaryCharacters

/-- The token can be followed by more text: a comment would go on with it, and so would a
backslash that stands alone. -/
def IsClosed (token : Token) : Prop :=
  token.kind ≠ .comment ∧ token ≠ ⟨.unknown, "\\"⟩

variable {goesOn : Char → Bool} {span rest more : List Char} {token : Token}

/-- A text that stops some run still does so with more text after it, unless it is empty. -/
theorem Stops.append (ends : Stops goesOn rest) (nonempty : rest ≠ []) :
    Stops goesOn (rest ++ more) := by
  obtain ⟨first, others, rfl⟩ := List.exists_cons_of_ne_nil nonempty
  exact ends

/-- The text is empty or starts with a space or one of the `boundaryCharacters`. -/
def StartsApart (text : List Char) : Prop :=
  ∀ character ∈ text.head?, character ∈ ' ' :: '\t' :: boundaryCharacters

theorem StartsAtBoundary.startsApart (boundary : StartsAtBoundary more) : StartsApart more :=
  fun character isFirst => by simp [boundary character isFirst]

/-- The token does not go on with the text: a comment and a backslash that stands alone would,
and space would with more space. -/
def EndsBefore (token : Token) (text : List Char) : Prop :=
  IsClosed token ∧ (token.kind = .whitespace → Stops isSpace text)

theorem StartsAtBoundary.stops_isSpace (boundary : StartsAtBoundary more) : Stops isSpace more := by
  intro character isFirst
  have unlisted : boundaryCharacters.any isSpace = false := rfl
  rw [List.any_eq_false] at unlisted
  simpa using unlisted character (boundary character isFirst)

theorem IsClosed.endsBefore (closed : IsClosed token) (boundary : StartsAtBoundary more) :
    EndsBefore token more :=
  ⟨closed, fun _ => boundary.stops_isSpace⟩

/-- A text that starts apart stops every run of letters or digits. -/
theorem StartsApart.stops (apart : StartsApart more)
    (unlisted : (' ' :: '\t' :: boundaryCharacters).any goesOn = false) : Stops goesOn more := by
  intro character isFirst
  rw [List.any_eq_false] at unlisted
  simpa using unlisted character (apart character isFirst)

theorem StartsApart.stops_append (apart : StartsApart more)
    (unlisted : (' ' :: '\t' :: boundaryCharacters).any goesOn = false) (ends : Stops goesOn rest) :
    Stops goesOn (rest ++ more) := by
  by_cases nonempty : rest = []
  · rw [nonempty]
    exact apart.stops unlisted
  · exact ends.append nonempty

/-- A token is read in the same way with more text after it. -/
theorem Lexeme.append (lexeme : Lexeme span token rest) (apart : StartsApart more)
    (closed : rest = [] → EndsBefore token more) : Lexeme span token (rest ++ more) := by
  cases lexeme with
  | comment inLine ends =>
    exact .comment inLine (ends.append fun isEnd => (closed isEnd).1.1 rfl)
  | control listed rest => exact .control listed _
  | lineFeed rest => exact .lineFeed _
  | carriageReturn alone => exact .carriageReturn (apart.stops_append rfl alone)
  | returnAndFeed rest => exact .returnAndFeed _
  | space starts spaces ends =>
    refine .space starts spaces ?_
    by_cases isEnd : rest = []
    · rw [isEnd]
      exact (closed isEnd).2 rfl
    · exact ends.append isEnd
  | loneBackslash => exact absurd rfl (closed rfl).1.2
  | controlEscape listed rest => exact .controlEscape listed _
  | elementEscape listed rest => exact .elementEscape listed _
  | commandSign noLetter noControl noElement rest =>
    exact .commandSign noLetter noControl noElement _
  | command starts letters ends => exact .command starts letters (apart.stops_append rfl ends)
  | whole starts digits ends noFraction =>
    refine .whole starts digits (apart.stops_append rfl ends) ?_
    intro fraction split
    -- the point stands in the rest, since no text that starts apart starts with it
    rcases List.append_eq_cons_iff.mp split with ⟨rfl, atPoint⟩ | ⟨tail, rfl, rfl⟩
    · have listed := apart '.' (by rw [atPoint]; rfl)
      simp [boundaryCharacters] at listed
    · exact apart.stops_append rfl (noFraction tail rfl)
  | decimal starts digits fraction moreDigits ends =>
    exact .decimal starts digits fraction moreDigits (apart.stops_append rfl ends)
  | letter isLetter rest => exact .letter isLetter _
  | sign listed rest => exact .sign listed _
  | foreign foreign rest => exact .foreign foreign _

theorem Segment.append {unit : List Token} (segment : Segment span unit rest)
    (apart : StartsApart more)
    (closed : rest = [] → ∀ last ∈ unit.getLast?, EndsBefore last more) :
    Segment span unit (rest ++ more) := by
  cases segment with
  | single lexeme plain =>
    exact .single (lexeme.append apart fun isEnd => closed isEnd _ rfl) plain
  | @text name blanks body rest command lexeme takes spaces enclosed =>
    have longer := lexeme.append apart (by simp)
    simp only [List.append_assoc, List.cons_append] at longer
    exact .text longer takes spaces enclosed

/-- The tokens of a text stand before the tokens of the text after it. -/
theorem Lexes.tokens_append {text : List Char} {tokens : List Token} (lexes : Lexes text tokens)
    (boundary : StartsAtBoundary more) (closed : ∀ last ∈ tokens.getLast?, IsClosed last) :
    Lexer.tokens (text ++ more) = (Lexer.tokens more).map (tokens ++ ·) := by
  induction lexes with
  | nil =>
    rw [List.nil_append]
    cases Lexer.tokens more <;> rfl
  | @cons span rest unit others first following inductionHypothesis =>
    have closedFirst : rest = [] → ∀ last ∈ unit.getLast?, EndsBefore last more := by
      rintro rfl last isLast
      have noOthers := tokens_eq_ok_iff.mpr following
      rw [tokens_nil, Except.ok.injEq] at noOthers
      rw [← noOthers, List.append_nil] at closed
      exact (closed last isLast).endsBefore boundary
    have closedOthers : ∀ last ∈ others.getLast?, IsClosed last := by
      intro last isLast
      exact closed last (by rw [List.getLast?_append, isLast]; rfl)
    rw [List.append_assoc, (first.append boundary.startsApart closedFirst).tokens_append,
      inductionHypothesis closedOthers]
    cases Lexer.tokens more with
    | error cause => rfl
    | ok following => simp [Except.map]

end Boundaries

end Lexer

/-- A source is made of one span for each of its tokens, in their order. -/
theorem tokenize_lossless {source : String} {tokens : List Token}
    (lexed : tokenize source = .ok tokens) :
    ∃ spans, spans.length = tokens.length ∧ Spans tokens spans ∧ spans.flatten = source.toList := by
  obtain ⟨spans, read, whole⟩ := (tokens_eq_ok_iff.mp lexed).exists_spans
  exact ⟨spans, read.length_eq, read, whole⟩

theorem tokenize_lossless_escapedText :
    ∃ tokens, tokenize "\\text \x7ba\\_b\x7d12.5%c\r\n\r" = .ok tokens ∧
      ∃ spans, spans.length = tokens.length ∧ Spans tokens spans ∧
        spans.flatten = "\\text \x7ba\\_b\x7d12.5%c\r\n\r".toList := by
  have lexed : tokenize "\\text \x7ba\\_b\x7d12.5%c\r\n\r" = .ok
      [⟨.command, "\\text"⟩, .openBrace, ⟨.text, "a_b"⟩, .closeBrace, ⟨.element, "12.5"⟩,
        ⟨.comment, "c\r"⟩, ⟨.newline, "\n"⟩, ⟨.newline, "\n"⟩] :=
    tokens_of_step [⟨.command, "\\text"⟩, .openBrace, ⟨.text, "a_b"⟩, .closeBrace]
      "12.5%c\r\n\r" rfl <|
    tokens_of_step [⟨.element, "12.5"⟩] "%c\r\n\r" rfl <|
    tokens_of_step [⟨.comment, "c\r"⟩] "\n\r" rfl <|
    tokens_of_step [⟨.newline, "\n"⟩] "\r" rfl <|
    tokens_of_step [⟨.newline, "\n"⟩] "" rfl tokens_nil
  exact ⟨_, lexed, tokenize_lossless lexed⟩

/-- Where a source is cut at a boundary, its parts are read on their own. -/
theorem tokenize_append {first second : String} {tokens : List Token}
    (lexed : tokenize first = .ok tokens)
    (closed : ∀ last ∈ tokens.getLast?, last.kind ≠ .comment ∧ last ≠ ⟨.unknown, "\\"⟩)
    (boundary : ∀ character ∈ second.toList.head?, character ∈ boundaryCharacters) :
    tokenize (first ++ second) = (tokenize second).map (tokens ++ ·) := by
  unfold tokenize
  rw [String.toList_append]
  exact (tokens_eq_ok_iff.mp lexed).tokens_append boundary closed

/-- A point at the end of a text gets no digits from the text after it, and a command without
its text is reported as it is on its own. -/
theorem tokenize_append_point :
    tokenize ("12." ++ "\\,") = .ok [⟨.element, "12"⟩, ⟨.element, "."⟩, ⟨.control, "\\,"⟩] ∧
      tokenize ("12." ++ "\\text") = .error (.noContent ⟨.command, "\\text"⟩) := by
  have lexed : tokenize "12." = .ok [⟨.element, "12"⟩, ⟨.element, "."⟩] :=
    tokens_of_step [⟨.element, "12"⟩] "." rfl <|
    tokens_of_step [⟨.element, "."⟩] "" rfl tokens_nil
  have thinSpace : tokenize "\\," = .ok [⟨.control, "\\,"⟩] :=
    tokens_of_step [⟨.control, "\\,"⟩] "" rfl tokens_nil
  have noText : tokenize "\\text" = .error (.noContent ⟨.command, "\\text"⟩) :=
    tokens_cons '\\' "text".toList
  constructor
  · rw [tokenize_append lexed (by decide) (by simp [boundaryCharacters]), thinSpace]
    rfl
  · rw [tokenize_append lexed (by decide) (by simp [boundaryCharacters]), noText]
    rfl

end MathMarkup.Tex
