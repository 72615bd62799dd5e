import MathMarkup.Proofs.SourceText
import MathMarkup.Text.Edit

/-!
# Line ends of a source

A line feed, a carriage return and the two together are the same line break to the lexer,
so that a source and the source with line feeds only have the same tokens. Comments are the
exception: a comment ends at a line feed and goes on over a carriage return. A source without
commands that take text is read alike with line feeds only exactly if no comment of it holds a
carriage return.
-/

namespace MathMarkup.Text

theorem return_not_mem_unifyLines (text : List Char) : '\r' ∉ unifyLines text := by
  fun_induction unifyLines text with
  | case1 rest inductionHypothesis => simpa using inductionHypothesis
  | case2 rest _ inductionHypothesis => simpa using inductionHypothesis
  | case3 character rest _ noReturn inductionHypothesis =>
    simpa [eq_comm] using And.intro noReturn inductionHypothesis
  | case4 => simp

/-- Characters other than carriage returns stay as they are. -/
theorem unifyLines_append {span : List Char} (noReturn : '\r' ∉ span) (rest : List Char) :
    unifyLines (span ++ rest) = span ++ unifyLines rest := by
  induction span with
  | nil => rfl
  | cons character span inductionHypothesis =>
    rw [List.mem_cons, not_or] at noReturn
    have isOther : character ≠ '\r' := Ne.symm noReturn.1
    rw [List.cons_append, unifyLines, inductionHypothesis noReturn.2, List.cons_append]
    · rintro _ rfl
      exact absurd rfl isOther
    · exact isOther

theorem unifyLines_return {rest : List Char} (alone : ∀ tail, rest ≠ '\n' :: tail) :
    unifyLines ('\r' :: rest) = '\n' :: unifyLines rest := by
  rw [unifyLines]
  exact alone

/-- Where a text with line feeds only starts with another character, the text did. -/
theorem exists_of_unifyLines {text tail : List Char} {character : Char}
    (starts : unifyLines text = character :: tail) (noBreak : character ≠ '\n') :
    ∃ rest, text = character :: rest ∧ unifyLines rest = tail := by
  fun_cases unifyLines text with
  | case1 rest =>
    rw [unifyLines, List.cons.injEq] at starts
    exact absurd starts.1.symm noBreak
  | case2 rest alone =>
    rw [unifyLines_return fun tail => by simpa using alone tail, List.cons.injEq] at starts
    exact absurd starts.1.symm noBreak
  | case3 first rest _ noReturn =>
    rw [← List.singleton_append, unifyLines_append (by simpa [eq_comm] using noReturn)] at starts
    obtain ⟨rfl, same⟩ := List.cons.inj starts
    exact ⟨rest, rfl, same⟩
  | case4 => cases starts

end MathMarkup.Text

namespace MathMarkup.Tex

namespace Lexer

section Occurrences

/-- The lexer comes to a place in the text where it reads the token. -/
inductive Meets : List Char → Token → Prop where
  | here {character : Char} {rest tail : List Char} {token : Token}
      (first : firstToken character rest = (token, tail)) : Meets (character :: rest) token
  | later {character : Char} {rest after : List Char} {unit : List Token} {token : Token}
      (read : step character rest = .ok (unit, after)) (meets : Meets after token) :
      Meets (character :: rest) token

/-- No command that takes text occurs in the text. -/
def TextFree (text : List Char) : Prop :=
  ∀ token, Meets text token → takesText token = false

/-- A text without such commands is read to its end, one lexeme for each token. -/
theorem TextFree.exists_lexes {text : List Char} (free : TextFree text) :
    ∃ tokens, Lexes text tokens ∧ ∀ token ∈ tokens, takesText token = false := by
  match text with
  | [] => exact ⟨[], .nil, by simp⟩
  | character :: rest =>
    obtain ⟨span, token, tail, lexeme, same⟩ := exists_lexeme character rest
    have plain := free token (.here (firstToken_eq_iff.mpr ⟨span, lexeme, same⟩))
    obtain ⟨first, others, rfl, read⟩ := (Segment.single lexeme plain).step_eq
    obtain ⟨rfl, rfl⟩ := List.cons.inj same
    have shorter := length_step_lt read
    obtain ⟨tokens, lexes, plainOthers⟩ :=
      TextFree.exists_lexes fun token meets => free token (.later read meets)
    exact ⟨token :: tokens, .cons (.single lexeme plain) lexes,
      List.forall_mem_cons.mpr ⟨plain, plainOthers⟩⟩
termination_by text.length

theorem mem_unit_of_firstToken {character : Char} {rest tail after : List Char} {token : Token}
    {unit : List Token} (first : firstToken character rest = (token, tail))
    (read : step character rest = .ok (unit, after)) : token ∈ unit := by
  unfold step at read
  rw [first] at read
  cases takes : takesText token with
  | false =>
    simp only [takes, Bool.false_eq_true, if_false, Except.ok.injEq, Prod.mk.injEq] at read
    rw [← read.1]
    exact List.mem_singleton_self token
  | true =>
    cases argumentRead : textArgument token tail with
    | error cause => simp [takes, argumentRead, Except.map] at read
    | ok argument =>
      simp only [takes, if_true, argumentRead, Except.map, Except.ok.injEq, Prod.mk.injEq] at read
      rw [← read.1]
      exact List.mem_cons_self

theorem textFree_of_tokens {text : List Char} {tokens : List Token}
    (lexed : Lexer.tokens text = .ok tokens) (plain : ∀ token ∈ tokens, takesText token = false) :
    TextFree text := by
  induction text, tokens, lexed using tokens_induction with
  | nil =>
    intro token meets
    cases meets
  | @unit character rest after unit others read following _ inductionHypothesis =>
    intro token meets
    cases meets with
    | here first =>
      exact plain token (List.mem_append_left others (mem_unit_of_firstToken first read))
    | later otherRead meets =>
      obtain ⟨rfl, rfl⟩ : unit = _ ∧ after = _ := by simpa using read.symm.trans otherRead
      exact inductionHypothesis
        (fun token listed => plain token (List.mem_append_right unit listed)) token meets

end Occurrences

section Unifying

variable {span rest text : List Char} {token : Token} {tokens : List Token}

theorem Stops.unifyLines {goesOn : Char → Bool} (ends : Stops goesOn rest)
    (atBreak : goesOn '\n' = false) : Stops goesOn (Text.unifyLines rest) := by
  intro character isFirst
  obtain ⟨tail, starts⟩ := List.head?_eq_some_iff.mp isFirst
  by_cases isBreak : character = '\n'
  · rw [isBreak, atBreak]
  · obtain ⟨tail, rfl, _⟩ := Text.exists_of_unifyLines starts isBreak
    exact ends character rfl

/-- What ends a token is kept: no token but a comment goes on over either of the characters
that end a line. -/
theorem Lexeme.before_unifyLines (lexeme : Lexeme span token rest)
    (noBreak : token.kind ≠ .newline) : Lexeme span token (Text.unifyLines rest) := by
  cases lexeme with
  | comment inLine ends => exact .comment inLine (ends.unifyLines rfl)
  | control listed rest => exact .control listed _
  | lineFeed | carriageReturn alone | returnAndFeed => exact absurd rfl noBreak
  | space starts spaces ends => exact .space starts spaces (ends.unifyLines rfl)
  | loneBackslash => exact .loneBackslash
  | controlEscape listed rest => exact .controlEscape listed _
  | elementEscape listed rest => exact .elementEscape listed _
  | commandSign noLetter noControl noElement rest =>
    exact .commandSign noLetter noControl noElement _
  | command starts letters ends => exact .command starts letters (ends.unifyLines rfl)
  | whole starts digits ends noFraction =>
    -- A point ends no line, so that one after the number was there before.
    refine .whole starts digits (ends.unifyLines rfl) fun places atPoint => ?_
    obtain ⟨fraction, rfl, rfl⟩ := Text.exists_of_unifyLines atPoint (by decide)
    exact (noFraction fraction rfl).unifyLines rfl
  | decimal starts digits fraction moreDigits ends =>
    exact .decimal starts digits fraction moreDigits (ends.unifyLines rfl)
  | letter isLetter rest => exact .letter isLetter _
  | sign listed rest => exact .sign listed _
  | foreign foreign rest => exact .foreign foreign _

/-- The characters of a token are those it was read from, line breaks and the mark of a
comment apart. -/
theorem Lexeme.return_mem_iff (lexeme : Lexeme span token rest) (noBreak : token.kind ≠ .newline) :
    '\r' ∈ span ↔ '\r' ∈ token.value.toList := by
  by_cases isComment : token.kind = .comment
  · cases lexeme with
    | comment inLine ends => simp
    | _ => cases isComment
  · rw [lexeme.span_eq ⟨isComment, noBreak⟩]

/-- A lexeme whose token holds no carriage return is read from the text with line feeds only
as well. -/
theorem Lexeme.exists_unified (lexeme : Lexeme span token rest)
    (noReturn : '\r' ∉ token.value.toList) :
    ∃ unified, Text.unifyLines (span ++ rest) = unified ++ Text.unifyLines rest ∧
      Lexeme unified token (Text.unifyLines rest) := by
  by_cases isBreak : token.kind = .newline
  · refine ⟨['\n'], ?_⟩
    cases lexeme with
    | lineFeed rest => exact ⟨Text.unifyLines_append (by decide) rest, .lineFeed _⟩
    | carriageReturn alone =>
      refine ⟨Text.unifyLines_return ?_, .lineFeed _⟩
      rintro tail rfl
      cases alone '\n' rfl
    | returnAndFeed rest => exact ⟨rfl, .lineFeed _⟩
    | _ => cases isBreak
  · rw [← lexeme.return_mem_iff isBreak] at noReturn
    exact ⟨span, Text.unifyLines_append noReturn rest, lexeme.before_unifyLines isBreak⟩

/-- Tokens without a carriage return are read from the text with line feeds only as well. -/
theorem Lexes.unifyLines (lexes : Lexes text tokens)
    (plain : ∀ token ∈ tokens, takesText token = false)
    (noReturn : ∀ token ∈ tokens, '\r' ∉ token.value.toList) :
    Lexes (Text.unifyLines text) tokens := by
  induction lexes with
  | nil => exact .nil
  | @cons span rest unit others first following inductionHypothesis =>
    rw [List.forall_mem_append] at plain noReturn
    cases first with
    | single lexeme isPlain =>
      have noReturnHere := noReturn.1 _ (List.mem_singleton_self _)
      obtain ⟨unified, same, read⟩ := lexeme.exists_unified noReturnHere
      rw [same]
      exact .cons (.single read isPlain) (inductionHypothesis plain.2 noReturn.2)
    | text lexeme takes spaces enclosed =>
      rw [plain.1 _ List.mem_cons_self] at takes
      cases takes

/-- Every token of a text without text arguments is read from a part of it. -/
theorem Lexes.exists_lexeme (lexes : Lexes text tokens)
    (plain : ∀ token ∈ tokens, takesText token = false) (listed : token ∈ tokens) :
    ∃ span rest, Lexeme span token rest ∧ span <:+: text := by
  induction lexes with
  | nil => cases listed
  | @cons span rest unit others first following inductionHypothesis =>
    rw [List.forall_mem_append] at plain
    cases first with
    | single lexeme isPlain =>
      rcases List.mem_cons.mp listed with rfl | isOther
      · exact ⟨span, rest, lexeme, (List.prefix_append span rest).isInfix⟩
      · obtain ⟨part, after, read, inRest⟩ := inductionHypothesis plain.2 isOther
        exact ⟨part, after, read, inRest.trans (List.suffix_append span rest).isInfix⟩
    | text lexeme takes spaces enclosed =>
      rw [plain.1 _ List.mem_cons_self] at takes
      cases takes

theorem Lexeme.kind_of_return_mem (lexeme : Lexeme span token rest)
    (holds : '\r' ∈ token.value.toList) : token.kind ≠ .newline := by
  cases lexeme with
  | lineFeed | carriageReturn | returnAndFeed => exact absurd holds (by decide)
  | _ => simp

theorem return_not_mem_run {inClass : Char → Bool} {first : Char} {others : List Char}
    (starts : inClass first = true) (run : ∀ character ∈ others, inClass character = true)
    (excluded : inClass '\r' = false) : '\r' ∉ first :: others := by
  intro listed
  have inRun : ∀ character ∈ first :: others, inClass character = true :=
    List.forall_mem_cons.mpr ⟨starts, run⟩
  rw [inRun _ listed] at excluded
  cases excluded

/-- A carriage return is taken by a comment, or by the backslash before it. -/
theorem Lexeme.comment_or_escape_of_return_mem (lexeme : Lexeme span token rest)
    (holds : '\r' ∈ token.value.toList) : token.kind = .comment ∨ span = ['\\', '\r'] := by
  cases lexeme with
  | comment inLine ends => exact .inl rfl
  | lineFeed | carriageReturn | returnAndFeed | loneBackslash => exact absurd holds (by decide)
  | control listed | sign listed | letter listed | foreign listed =>
    obtain rfl : '\r' = _ := by simpa using holds
    exact absurd listed (by decide)
  | controlEscape listed | elementEscape listed =>
    obtain rfl : '\r' = _ := by simpa using holds
    exact absurd listed (by decide)
  | commandSign noLetter noControl noElement rest =>
    obtain rfl : '\r' = _ := by simpa using holds
    exact .inr rfl
  | space starts spaces ends =>
    exact absurd (by simpa using holds) (return_not_mem_run starts spaces rfl)
  | command starts letters ends =>
    exact absurd (by simpa using holds) (return_not_mem_run starts letters rfl)
  | whole starts digits ends noFraction =>
    exact absurd (by simpa using holds) (return_not_mem_run starts digits rfl)
  | decimal starts digits fraction moreDigits ends =>
    rw [String.toList_ofList, List.mem_append] at holds
    rcases holds with inWhole | inFraction
    · exact absurd inWhole (return_not_mem_run starts digits rfl)
    · exact absurd (by simpa using inFraction) (return_not_mem_run fraction moreDigits rfl)

end Unifying

end Lexer

open Lexer

/-- A source without commands that take text, and without a backslash before a carriage return,
is read alike with line feeds only exactly if no comment of it holds a carriage return. No comment
holds a line feed. -/
theorem tokenize_unifyLines_iff {source : String} (free : TextFree source.toList)
    (unescaped : ¬ ['\\', '\r'] <:+: source.toList) :
    ∃ tokens, tokenize source = .ok tokens ∧
      (tokenize (String.ofList (Text.unifyLines source.toList)) = tokenize source ↔
        ∀ token ∈ tokens, token.kind = .comment → '\r' ∉ token.value.toList) ∧
      ∀ token ∈ tokens, token.kind = .comment → '\n' ∉ token.value.toList := by
  obtain ⟨tokens, lexes, plain⟩ := free.exists_lexes
  have lexed : tokenize source = .ok tokens := tokens_eq_ok_iff.mpr lexes
  refine ⟨tokens, lexed, ?_, ?_⟩
  · rw [lexed, tokenize, String.toList_ofList, tokens_eq_ok_iff]
    constructor
    · -- Read from line feeds only, a comment has no carriage return to hold.
      intro unified token listed _ holds
      obtain ⟨span, rest, lexeme, part⟩ := unified.exists_lexeme plain listed
      have inSpan := (lexeme.return_mem_iff (lexeme.kind_of_return_mem holds)).mpr holds
      exact Text.return_not_mem_unifyLines _ (part.mem inSpan)
    · -- Without an escape, only comments could have kept one.
      intro noReturn
      refine lexes.unifyLines plain fun token listed holds => ?_
      obtain ⟨span, rest, lexeme, part⟩ := lexes.exists_lexeme plain listed
      rcases lexeme.comment_or_escape_of_return_mem holds with isComment | rfl
      · exact noReturn token listed isComment holds
      · exact unescaped part
  · intro token listed isComment holds
    obtain ⟨span, rest, lexeme, -⟩ := lexes.exists_lexeme plain listed
    cases lexeme with
    | comment inLine ends => simpa using inLine '\n' (by simpa using holds)
    | _ => cases isComment

theorem tokenize_unifyLines_mixed :
    TextFree "a\r\n%c\n\rb".toList ∧ ¬ ['\\', '\r'] <:+: "a\r\n%c\n\rb".toList ∧
    ∃ tokens, tokenize "a\r\n%c\n\rb" = .ok tokens ∧
      (tokenize (String.ofList (Text.unifyLines "a\r\n%c\n\rb".toList)) = tokenize "a\r\n%c\n\rb" ↔
        ∀ token ∈ tokens, token.kind = .comment → '\r' ∉ token.value.toList) ∧
      ∀ token ∈ tokens, token.kind = .comment → '\n' ∉ token.value.toList := by
  have lexed : tokenize "a\r\n%c\n\rb" = .ok
      [⟨.element, "a"⟩, ⟨.newline, "\n"⟩, ⟨.comment, "c"⟩, ⟨.newline, "\n"⟩, ⟨.newline, "\n"⟩,
        ⟨.element, "b"⟩] :=
    tokens_of_step [⟨.element, "a"⟩] "\r\n%c\n\rb" rfl <|
    tokens_of_step [⟨.newline, "\n"⟩] "%c\n\rb" rfl <|
    tokens_of_step [⟨.comment, "c"⟩] "\n\rb" rfl <|
    tokens_of_step [⟨.newline, "\n"⟩] "\rb" rfl <|
    tokens_of_step [⟨.newline, "\n"⟩] "b" rfl <|
    tokens_of_step [⟨.element, "b"⟩] "" rfl tokens_nil
  have free : TextFree "a\r\n%c\n\rb".toList := textFree_of_tokens lexed (by decide)
  exact ⟨free, by decide, tokenize_unifyLines_iff free (by decide)⟩

/-- A comment goes on over a carriage return: the text after it is lost to the formula. -/
theorem comment_over_return :
    TextFree "%a\rb".toList ∧
      ¬ ['\\', '\r'] <:+: "%a\rb".toList ∧ ¬ ['\\', '\n'] <:+: "%a\rb".toList ∧
      tokenize "%a\rb" = .ok [⟨.comment, "a\rb"⟩] ∧
      tokenize (String.ofList (Text.unifyLines "%a\rb".toList)) =
        .ok [⟨.comment, "a"⟩, ⟨.newline, "\n"⟩, ⟨.element, "b"⟩] := by
  have lexed : tokenize "%a\rb" = .ok [⟨.comment, "a\rb"⟩] :=
    tokens_of_step [⟨.comment, "a\rb"⟩] "" rfl tokens_nil
  have unified : String.ofList (Text.unifyLines "%a\rb".toList) = "%a\nb" := by decide
  refine ⟨textFree_of_tokens lexed (by decide), by decide, by decide, lexed, ?_⟩
  rw [unified]
  exact
    tokens_of_step [⟨.comment, "a"⟩] "\nb" rfl <|
    tokens_of_step [⟨.newline, "\n"⟩] "b" rfl <|
    tokens_of_step [⟨.element, "b"⟩] "" rfl tokens_nil

end MathMarkup.Tex
