import MathMarkup.Proofs.NumberArguments
import MathMarkup.Proofs.SourceText

/-!
# Blanks around script marks

Spaces and tabs around a script mark mean nothing, wherever the mark stands in the source. They
can join the space at the end of the text before the mark and at the start of the text after it,
so a run of them is at most one token on each side, and `dropScriptSpacing` takes out both.
-/

namespace MathMarkup.Tex

open Lexer

section Elision

variable {mark : Token} {rest : List Token} {spaceBefore spaceAfter : Option Token}

/-- The token before the list counts for space at its front only. -/
theorem dropScriptSpacingAfter_congr (previous other : Option Token)
    (solid : ∀ first ∈ rest.head?, first.kind ≠ .whitespace) :
    dropScriptSpacingAfter previous rest = dropScriptSpacingAfter other rest := by
  cases rest with
  | nil => rfl
  | cons first tail =>
    rw [dropScriptSpacingAfter_of_solid previous (solid first rfl),
      dropScriptSpacingAfter_of_solid other (solid first rfl)]

theorem dropScriptSpacingAfter_cons_congr (previous : Option Token) (token : Token)
    {first second : List Token} (sameHead : first.head? = second.head?)
    (same : dropScriptSpacingAfter (some token) first = dropScriptSpacingAfter (some token) second) :
    dropScriptSpacingAfter previous (token :: first) =
      dropScriptSpacingAfter previous (token :: second) := by
  rw [dropScriptSpacingAfter, dropScriptSpacingAfter, sameHead, same]

/-- Space on either side of a script mark is taken out. -/
theorem dropScriptSpacingAfter_mark (previous : Option Token) (isMark : mark.isScriptMark = true)
    (blankBefore : ∀ space ∈ spaceBefore, space.kind = .whitespace)
    (blankAfter : ∀ space ∈ spaceAfter, space.kind = .whitespace)
    (solid : ∀ first ∈ rest.head?, first.kind ≠ .whitespace) :
    dropScriptSpacingAfter previous (spaceBefore.toList ++ mark :: (spaceAfter.toList ++ rest)) =
      mark :: dropScriptSpacingAfter (some mark) rest := by
  have noSpace : mark.kind ≠ .whitespace := by simp [kind_of_isScriptMark isMark]
  have announced : announcesScript (some mark) = true := isMark
  have after : dropScriptSpacingAfter (some mark) (spaceAfter.toList ++ rest) =
      dropScriptSpacingAfter (some mark) rest := by
    cases spaceAfter with
    | none => rfl
    | some space =>
      rw [Option.toList_some, List.singleton_append,
        dropScriptSpacingAfter_of_space (blankAfter space rfl) (.inr announced)]
      exact dropScriptSpacingAfter_congr _ _ solid
  cases spaceBefore with
  | none =>
    rw [Option.toList_none, List.nil_append, dropScriptSpacingAfter_of_solid previous noSpace, after]
  | some space =>
    rw [Option.toList_some, List.singleton_append,
      dropScriptSpacingAfter_of_space (blankBefore space rfl) (.inl (by exact isMark)),
      dropScriptSpacingAfter_of_solid _ noSpace, after]

/-- So it is after any tokens of which the last is not space. -/
theorem dropScriptSpacingAfter_append_mark (previous : Option Token) {front : List Token}
    (isMark : mark.isScriptMark = true)
    (blankBefore : ∀ space ∈ spaceBefore, space.kind = .whitespace)
    (blankAfter : ∀ space ∈ spaceAfter, space.kind = .whitespace)
    (solidBefore : ∀ last ∈ front.getLast?, last.kind ≠ .whitespace)
    (solid : ∀ first ∈ rest.head?, first.kind ≠ .whitespace) :
    dropScriptSpacingAfter previous
        (front ++ (spaceBefore.toList ++ mark :: (spaceAfter.toList ++ rest))) =
      dropScriptSpacingAfter previous (front ++ mark :: rest) := by
  induction front generalizing previous with
  | nil =>
    have noSpace : mark.kind ≠ .whitespace := by simp [kind_of_isScriptMark isMark]
    rw [List.nil_append, dropScriptSpacingAfter_mark previous isMark blankBefore blankAfter solid,
      List.nil_append, dropScriptSpacingAfter_of_solid previous noSpace]
  | cons token others inductionHypothesis =>
    rw [List.cons_append, List.cons_append]
    cases others with
    | nil =>
      have noSpace := solidBefore token rfl
      rw [dropScriptSpacingAfter_of_solid previous noSpace,
        dropScriptSpacingAfter_of_solid previous noSpace, inductionHypothesis _ (by simp)]
    | cons next others =>
      exact dropScriptSpacingAfter_cons_congr previous token rfl (inductionHypothesis _ solidBefore)

end Elision

namespace Lexer

/-- The piece of space that a run of blanks is. -/
def spaceOf : List Char → Option Token
  | [] => none
  | first :: others => some ⟨.whitespace, String.ofList (first :: others)⟩

theorem kind_of_mem_spaceOf {blanks : List Char} :
    ∀ space ∈ spaceOf blanks, space.kind = .whitespace := by
  cases blanks with
  | nil => simp [spaceOf]
  | cons first others =>
    rintro space ⟨⟩
    rfl

variable {blanks more text : List Char}

theorem tokens_blanks_append (spaces : ∀ blank ∈ blanks, isSpace blank = true)
    (ends : Stops isSpace more) :
    Lexer.tokens (blanks ++ more) = (Lexer.tokens more).map ((spaceOf blanks).toList ++ ·) := by
  cases blanks with
  | nil => exact map_nil_append _
  | cons first others =>
    rw [List.forall_mem_cons] at spaces
    exact (Segment.single (.space spaces.1 spaces.2 ends) rfl).tokens_append

theorem StartsAtBoundary.startsApart_append (boundary : StartsAtBoundary more)
    (spaces : ∀ blank ∈ blanks, isSpace blank = true) : StartsApart (blanks ++ more) := by
  cases blanks with
  | nil => exact boundary.startsApart
  | cons first others =>
    rintro character ⟨⟩
    have blank : first = ' ' ∨ first = '\t' := by simpa [isSpace] using spaces first (by simp)
    rcases blank with rfl | rfl <;> simp

/-- The front is what the text is read as before its last run of blanks. Blanks after the text
make this run longer and change nothing else. -/
def EndsInRun (text : List Char) (front : List Token) (run : List Char) : Prop :=
  ∀ blanks more, (∀ blank ∈ blanks, isSpace blank = true) → StartsAtBoundary more →
    Lexer.tokens (text ++ (blanks ++ more)) =
      (Lexer.tokens more).map (front ++ (spaceOf (run ++ blanks)).toList ++ ·)

/-- A segment at the end of a text takes the blanks after it if it is space, and ends before them
otherwise. -/
theorem Segment.exists_endsInRun {span : List Char} {unit : List Token} (segment : Segment span unit [])
    (closed : ∀ last ∈ unit.getLast?, IsClosed last) : ∃ front run, EndsInRun span front run := by
  by_cases isSpaceUnit : ∀ last ∈ unit.getLast?, last.kind ≠ .whitespace
  · refine ⟨unit, [], fun blanks more spaces boundary => ?_⟩
    have apart := boundary.startsApart_append spaces
    have ends : ∀ last ∈ unit.getLast?, EndsBefore last (blanks ++ more) := fun last isLast =>
      ⟨closed last isLast, fun space => absurd space (isSpaceUnit last isLast)⟩
    have longer := segment.append apart fun _ => ends
    rw [List.nil_append] at longer
    rw [longer.tokens_append, tokens_blanks_append spaces boundary.stops_isSpace, map_append_map,
      List.nil_append]
  · have isSpaceRun : ∀ blank ∈ span, isSpace blank = true := by
      push Not at isSpaceUnit
      obtain ⟨last, isLast, space⟩ := isSpaceUnit
      cases segment with
      | single lexeme plain =>
        cases isLast
        cases lexeme with
        | space starts spaces ends => exact List.forall_mem_cons.mpr ⟨starts, spaces⟩
        | comment | control | lineFeed | carriageReturn | returnAndFeed | loneBackslash
        | controlEscape | elementEscape | commandSign | command | whole | decimal | letter | sign
        | foreign => cases space
      | text lexeme takes spaces enclosed =>
        cases isLast
        cases space
    refine ⟨[], span, fun blanks more spaces boundary => ?_⟩
    have wholeRun := List.forall_mem_append.mpr ⟨isSpaceRun, spaces⟩
    rw [← List.append_assoc, tokens_blanks_append wholeRun boundary.stops_isSpace, List.nil_append]

theorem Lexes.exists_endsInRun {tokens : List Token} (lexes : Lexes text tokens)
    (closed : ∀ last ∈ tokens.getLast?, IsClosed last) : ∃ front run, EndsInRun text front run := by
  induction lexes with
  | nil =>
    refine ⟨[], [], fun blanks more spaces boundary => ?_⟩
    exact tokens_blanks_append spaces boundary.stops_isSpace
  | @cons span rest unit others first following inductionHypothesis =>
    cases following with
    | nil =>
      rw [List.append_nil] at closed ⊢
      exact first.exists_endsInRun closed
    | @cons nextSpan after nextUnit later next following =>
      have closedOthers : ∀ last ∈ (nextUnit ++ later).getLast?, IsClosed last := by
        intro last isLast
        exact closed last (by rw [List.getLast?_append, isLast]; rfl)
      obtain ⟨front, run, read⟩ := inductionHypothesis closedOthers
      refine ⟨unit ++ front, run, fun blanks more spaces boundary => ?_⟩
      have nonempty : nextSpan ++ after ≠ [] := by
        obtain ⟨character, others, rfl, -⟩ := next.step_eq
        simp
      have longer := first.append (boundary.startsApart_append spaces) fun isEnd => absurd isEnd nonempty
      rw [List.append_assoc, longer.tokens_append, read blanks more spaces boundary, map_append_map]
      simp only [List.append_assoc]

/-- Space at the end of the front would have been taken with the blanks after it. -/
theorem EndsInRun.solid {front : List Token} {run : List Char} (ends : EndsInRun text front run) :
    ∀ last ∈ front.getLast?, last.kind ≠ .whitespace := by
  intro last isLast space
  have read := ends [' '] [] (by simp [isSpace]) (by simp [StartsAtBoundary])
  simp only [tokens_nil, Except.map, List.append_nil] at read
  obtain ⟨next, isNext⟩ : ∃ next, spaceOf (run ++ [' ']) = some next := by
    cases run <;> exact ⟨_, rfl⟩
  have inOne := (spaceInOne_tokens read).1
  rw [isNext, SpaceInOne, List.isChain_append] at inOne
  exact inOne.2.2 last isLast next rfl ⟨space, kind_of_mem_spaceOf next isNext⟩

/-- A text that does not start with a blank does not start with space. -/
theorem solid_of_stops {tokens : List Token} (lexed : Lexer.tokens text = .ok tokens)
    (stops : Stops isSpace text) : ∀ first ∈ tokens.head?, first.kind ≠ .whitespace := by
  intro first isFirst space
  have starts := (spaceInOne_tokens lexed).2 first isFirst space
  cases text with
  | nil => cases starts
  | cons character rest =>
    rw [List.head?_cons, Option.any_some, stops character rfl] at starts
    cases starts

theorem tokens_mark_append (mark : Token.ScriptMark) (text : List Char) :
    Lexer.tokens ((Grammar.markToken mark).value.toList ++ text) =
      (Lexer.tokens text).map (Grammar.markToken mark :: ·) := by
  have read : Segment (Grammar.markToken mark).value.toList [Grammar.markToken mark] text := by
    cases mark with
    | subscript => exact .single (.control (by decide) text) rfl
    | superscript => exact .single (.control (by decide) text) rfl
  exact read.tokens_append

/-- Whatever blanks stand around a mark, the tokens are those of the text before its last run and
of the text after its first one. -/
theorem EndsInRun.dropScriptSpacing_mark {front : List Token} {run blanksBefore blanksAfter rest : List Char}
    (ends : EndsInRun text front run) (mark : Token.ScriptMark)
    (spacesBefore : ∀ blank ∈ blanksBefore, isSpace blank = true)
    (spacesAfter : ∀ blank ∈ blanksAfter, isSpace blank = true) (stops : Stops isSpace rest) :
    (Lexer.tokens (text ++ (blanksBefore ++
        ((Grammar.markToken mark).value.toList ++ (blanksAfter ++ rest))))).map dropScriptSpacing =
      (Lexer.tokens rest).map fun tokens =>
        dropScriptSpacing (front ++ Grammar.markToken mark :: tokens) := by
  have boundary : StartsAtBoundary
      ((Grammar.markToken mark).value.toList ++ (blanksAfter ++ rest)) := by
    cases mark <;> rintro character ⟨⟩ <;> decide
  have isMark : (Grammar.markToken mark).isScriptMark = true := by cases mark <;> rfl
  rw [ends _ _ spacesBefore boundary, tokens_mark_append, tokens_blanks_append spacesAfter stops]
  cases lexed : Lexer.tokens rest with
  | error cause => rfl
  | ok tokens =>
    simp only [Except.map, List.append_assoc, dropScriptSpacing]
    rw [dropScriptSpacingAfter_append_mark none isMark kind_of_mem_spaceOf kind_of_mem_spaceOf
      ends.solid (solid_of_stops lexed stops)]

end Lexer

/-- A source is read from its tokens without the space beside script marks. -/
theorem parseSource_eq_bind (options : ParseOptions) (macros : MacroTable) (source : String) :
    parseSource options macros source =
      ((tokenize source).map dropScriptSpacing).bind fun tokens =>
        (macros.expand tokens).bind (parseTokens options) := by
  unfold parseSource sourceTokens
  cases tokenize source <;> rfl

/-- A source with blanks around a script mark is read as it is without them. -/
theorem blanks_around_mark {before after blanksBefore blanksAfter : String} {tokens : List Token}
    (mark : Token.ScriptMark) (lexed : tokenize before = .ok tokens)
    (closed : ∀ last ∈ tokens.getLast?, last.kind ≠ .comment ∧ last ≠ ⟨.unknown, "\\"⟩)
    (spacesBefore : ∀ blank ∈ blanksBefore.toList, blank = ' ' ∨ blank = '\t')
    (spacesAfter : ∀ blank ∈ blanksAfter.toList, blank = ' ' ∨ blank = '\t') :
    (tokenize (before ++ blanksBefore ++ (Grammar.markToken mark).value ++ blanksAfter ++ after)).map
        dropScriptSpacing =
      (tokenize (before ++ (Grammar.markToken mark).value ++ after)).map dropScriptSpacing ∧
    ∀ options macros,
      parseSource options macros
          (before ++ blanksBefore ++ (Grammar.markToken mark).value ++ blanksAfter ++ after) =
        parseSource options macros (before ++ (Grammar.markToken mark).value ++ after) := by
  have same : (tokenize (before ++ blanksBefore ++ (Grammar.markToken mark).value ++ blanksAfter ++
      after)).map dropScriptSpacing =
      (tokenize (before ++ (Grammar.markToken mark).value ++ after)).map dropScriptSpacing := by
    obtain ⟨front, run, ends⟩ := (tokens_eq_ok_iff.mp lexed).exists_endsInRun closed
    obtain ⟨first, rest, split, spaces, stops⟩ := exists_run isSpace after.toList
    have isBlank : ∀ blank, blank = ' ' ∨ blank = '\t' → isSpace blank = true := by simp [isSpace]
    have wholeRun : ∀ blank ∈ blanksAfter.toList ++ first, isSpace blank = true :=
      List.forall_mem_append.mpr ⟨fun blank listed => isBlank blank (spacesAfter blank listed), spaces⟩
    have within := ends.dropScriptSpacing_mark mark
      (fun blank listed => isBlank blank (spacesBefore blank listed)) wholeRun stops
    have without := ends.dropScriptSpacing_mark mark (List.forall_mem_nil _) spaces stops
    simp only [tokenize, String.toList_append, split]
    simp only [List.append_assoc, List.nil_append] at within without ⊢
    rw [within, without]
  refine ⟨same, fun options macros => ?_⟩
  rw [parseSource_eq_bind, parseSource_eq_bind, same]

theorem blanks_around_superscript :
    (tokenize ("x \t" ++ " " ++ "^" ++ "\t " ++ " 2")).map dropScriptSpacing =
        (tokenize ("x \t" ++ "^" ++ " 2")).map dropScriptSpacing ∧
      ∀ options macros,
        parseSource options macros ("x \t" ++ " " ++ "^" ++ "\t " ++ " 2") =
          parseSource options macros ("x \t" ++ "^" ++ " 2") := by
  have lexed : tokenize "x \t" = .ok [⟨.element, "x"⟩, ⟨.whitespace, " \t"⟩] :=
    tokens_of_step [⟨.element, "x"⟩] " \t" rfl <|
    tokens_of_step [⟨.whitespace, " \t"⟩] "" rfl tokens_nil
  exact blanks_around_mark .superscript lexed (by decide) (by simp) (by simp)

end MathMarkup.Tex
