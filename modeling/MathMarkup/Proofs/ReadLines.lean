import MathMarkup.Proofs.Lexemes
import MathMarkup.Proofs.Lines
import MathMarkup.Proofs.Realization
import MathMarkup.Tex.Passes

/-!
# The lines of a source and of its tree

In a source the line break that ends a comment comes right after it, and it stays there
in the tokens that are read. `Tidy` says where comments and line breaks stand in the tree
of such tokens.
-/

namespace MathMarkup.Tex

open Lines

instance : HasRole Token where
  role token :=
    match token.kind with
    | .comment => .comment
    | .newline => .lineBreak
    | .element | .command | .text | .whitespace | .control | .unknown => .other

theorem role_eq_comment_iff {token : Token} : role token = .comment ↔ token.kind = .comment := by
  obtain ⟨kind, value⟩ := token
  cases kind <;> simp [role]

theorem role_eq_lineBreak_iff {token : Token} :
    role token = .lineBreak ↔ token.kind = .newline := by
  obtain ⟨kind, value⟩ := token
  cases kind <;> simp [role]

namespace Lexer

theorem kind_escapedToken (text : List Char) : (escapedToken text).kind ≠ .comment := by
  unfold escapedToken
  repeat' split
  all_goals simp

/-- A comment takes up the rest of its line. -/
theorem eq_restOfLine_of_comment {character : Char} {rest tail : List Char} {token : Token}
    (found : firstToken character rest = (token, tail)) (comment : token.kind = .comment) :
    tail = rest.dropWhile (· != '\n') := by
  unfold firstToken at found
  split at found
  · cases found
    rfl
  · exfalso
    repeat' split at found
    all_goals
      cases found
      simp [kind_escapedToken] at comment

theorem opening_tokens_newline {rest : List Char} {others : List Token} (next : Following)
    (lexed : tokens ('\n' :: rest) = .ok others) : opening next others = .lineBreak := by
  have read : step '\n' rest = .ok ([⟨.newline, "\n"⟩], rest) := rfl
  rw [tokens_cons, read] at lexed
  cases after : tokens rest with
  | error cause => simp [after, Except.map] at lexed
  | ok following =>
    simp only [after, Except.map, Except.ok.injEq] at lexed
    rw [← lexed]
    rfl

/-- What follows a unit of the text ends the line of a comment in it. -/
theorem endsLines_unit {character : Char} {rest after : List Char} {unit others : List Token}
    (read : step character rest = .ok (unit, after)) (lexed : tokens after = .ok others) :
    endsLines (opening .nothing others) unit = true := by
  unfold step at read
  split at read
  rename_i token tail found
  split at read
  · rename_i takes
    have isCommand : token.kind = .command := by
      simp only [takesText, Bool.and_eq_true, beq_iff_eq] at takes
      exact takes.1
    cases argumentRead : textArgument token tail with
    | error cause => simp [argumentRead, Except.map] at read
    | ok result =>
      obtain ⟨argument, following⟩ := result
      simp only [argumentRead, Except.map, Except.ok.injEq, Prod.mk.injEq] at read
      rw [← read.1, endsLines_cons (by simp [role, isCommand])]
      unfold textArgument at argumentRead
      split at argumentRead
      · split at argumentRead
        · cases argumentRead
        · cases argumentRead
          rfl
      · cases argumentRead
  · simp only [Except.ok.injEq, Prod.mk.injEq] at read
    obtain ⟨rfl, rfl⟩ := read
    by_cases comment : token.kind = .comment
    · have restOfLine := eq_restOfLine_of_comment found comment
      have stops : opening .nothing others ≠ .other := by
        cases tail with
        | nil =>
          rw [tokens_nil] at lexed
          cases lexed
          simp [opening]
        | cons first more =>
          have breaks := List.head?_dropWhile_not (· != '\n') rest
          rw [← restOfLine] at breaks
          have isBreak : first = '\n' := by simpa using breaks
          rw [isBreak] at lexed
          simp [opening_tokens_newline .nothing lexed]
      simp [stops]
    · exact endsLines_of_plain (by simpa [role_eq_comment_iff] using comment)

/-- In a source a line break stands right after each comment, unless it is the end. -/
theorem endsLines_tokens {text : List Char} {tokens : List Token}
    (lexed : Lexer.tokens text = .ok tokens) : endsLines .nothing tokens = true := by
  induction text, tokens, lexed using tokens_induction with
  | nil => rfl
  | unit read following _ inductionHypothesis =>
    rw [endsLines_append, endsLines_unit read following, inductionHypothesis]
    rfl

end Lexer

/-- Only space is taken out, so that the line breaks after comments stay. -/
theorem endsLines_dropScriptSpacingAfter (previous : Option Token) {tokens : List Token}
    (ended : endsLines .nothing tokens = true) :
    endsLines .nothing (dropScriptSpacingAfter previous tokens) = true := by
  induction tokens generalizing previous with
  | nil => rfl
  | cons token rest inductionHypothesis =>
    have restEnded := inductionHypothesis (some token) (endsLines_tail ended)
    rw [dropScriptSpacingAfter]
    split
    · exact restEnded
    · by_cases comment : role token = .comment
      · have stops := opening_of_comment comment ended
        have stopsStill : opening .nothing (dropScriptSpacingAfter (some token) rest) ≠ .other := by
          cases rest with
          | nil => simp [dropScriptSpacingAfter]
          | cons second others =>
            have isBreak := opening_cons_ne_other_iff.mp stops
            rw [dropScriptSpacingAfter, if_neg (by simp [role_eq_lineBreak_iff.mp isBreak])]
            exact opening_cons_ne_other_iff.mpr isBreak
        simp [endsLines, restEnded, stopsStill]
      · rw [endsLines_cons comment, restEnded]

theorem MacroTable.expand_nil (tokens : List Token) : MacroTable.expand [] tokens = .ok tokens := by
  induction tokens with
  | nil => rfl
  | cons token rest inductionHypothesis =>
    have kept : MacroTable.expandToken [] token = .ok [token] := by
      unfold MacroTable.expandToken
      split <;> rfl
    rw [MacroTable.expand, kept, inductionHypothesis]
    rfl

/-- Parts stand on lines as the tokens do that they are read from: a line break that has
scripts is one still. -/
instance : HasRole Node where
  role
    | .leaf .comment _ => .comment
    | .leaf .newline _ | .supsub _ (.leaf .newline _) _ _ => .lineBreak
    | _ => .other

namespace Grammar

/-- The last part is a comment. -/
def endsInComment : Node → Bool
  | .leaf kind _ => kind == .comment
  | .ordgroup _ parts => parts.getLast?.any (role · == .comment)
  | _ => false

/-- The node is a prime. -/
def isPrime : Node → Bool
  | .leaf .symbol "\\prime" => true
  | _ => false

/-- The node is a comment, and nothing but primes stands before it. -/
def isBareComment : Node → Bool
  | .leaf kind _ => kind == .comment
  | .ordgroup _ parts =>
    match parts.dropWhile isPrime with
    | [part] => role part == .comment
    | _ => false
  | _ => false

/-- The trees that are read from tokens in which a line break follows each comment. It
does so in the tree as well. A comment can end what is written around it only as an
operand without braces and as the last part of the last cell of an environment. -/
inductive Tidy : Node → Prop where
  | leaf (kind : LeafKind) (content : String) : Tidy (.leaf kind content)
  | ordgroup {content : String} {parts : List Node} (lines : endsLines .nothing parts = true)
      (tidy : ∀ part ∈ parts, Tidy part)
      (bare : ∀ part ∈ parts, endsInComment part = true → role part = .comment) :
      Tidy (.ordgroup content parts)
  | supsub {content : String} {base : Node} {sup sub : Option Node}
      (scripted : sup.isSome = true ∨ sub.isSome = true) (baseTidy : Tidy base)
      (baseEnds : endsInComment base = false) (supTidy : ∀ script ∈ sup, Tidy script)
      (supBare : ∀ script ∈ sup, endsInComment script = true → isBareComment script = true)
      (subTidy : ∀ script ∈ sub, Tidy script)
      (subBare : ∀ script ∈ sub, endsInComment script = true → isBareComment script = true) :
      Tidy (.supsub content base sup sub)
  | unaryFunc {command : String} {arg : Node} {index : Option Node}
      (named : command = "\\operatorname" → ∃ name, arg = .text name)
      (indexed : index = none ∨ command = "\\sqrt") (argTidy : Tidy arg)
      (argBare : endsInComment arg = true → isBareComment arg = true)
      (indexTidy : ∀ node ∈ index, Tidy node)
      (indexEnds : ∀ node ∈ index, endsInComment node = false) :
      Tidy (.unaryFunc command arg index)
  | binaryFunc {command : String} {first second : Node} (firstTidy : Tidy first)
      (firstBare : endsInComment first = true → isBareComment first = true)
      (secondTidy : Tidy second)
      (secondBare : endsInComment second = true → isBareComment second = true) :
      Tidy (.binaryFunc command first second)
  | leftright {opening closing : Token} {body : Node} (bodyTidy : Tidy body)
      (bodyEnds : endsInComment body = false) :
      Tidy (.leftright "" (Parser.delimiter opening) body (Parser.delimiter closing))
  | beginend {name : String} {rows : List (List Node)}
      (cells : ∀ row ∈ rows, ∀ cell ∈ row, Tidy cell)
      (rowsEnd : ∀ row ∈ rows.dropLast, ∀ cell ∈ row, endsInComment cell = false)
      (cellsEnd : ∀ row ∈ rows.getLast?, ∀ cell ∈ row.dropLast, endsInComment cell = false) :
      Tidy (.beginend name rows)

theorem role_node_eq_comment_iff {node : Node} :
    role node = .comment ↔ ∃ content, node = .leaf .comment content := by
  constructor
  · intro comment
    simp only [role] at comment
    split at comment
    · exact ⟨_, rfl⟩
    all_goals cases comment
  · rintro ⟨content, rfl⟩
    rfl

theorem group_eq_ordgroup {parts : List Node} (several : 1 < parts.length) :
    Node.group parts = .ordgroup "" parts := by
  match parts, several with
  | _ :: _ :: _, _ => rfl

section Parts

/-- A tidy tree that ends in a comment only if it is one. -/
structure TidyOperand (node : Node) : Prop where
  tidy : Tidy node
  bare : endsInComment node = true → role node = .comment

theorem TidyOperand.isBareComment {node : Node} (operand : TidyOperand node)
    (ends : endsInComment node = true) : isBareComment node = true := by
  obtain ⟨content, rfl⟩ := role_node_eq_comment_iff.mp (operand.bare ends)
  rfl

/-- Parts side by side that make a tidy tree before what comes next. -/
structure TidyParts (next : Following) (parts : List Node) : Prop where
  lines : endsLines next parts = true
  operands : ∀ part ∈ parts, TidyOperand part

namespace TidyParts

variable {next : Following} {parts : List Node}

theorem nil : TidyParts next [] := ⟨rfl, by simp⟩

theorem append {others : List Node} (first : TidyParts (opening next others) parts)
    (second : TidyParts next others) : TidyParts next (parts ++ others) where
  lines := by rw [endsLines_append, first.lines, second.lines]; rfl
  operands part member :=
    (List.mem_append.mp member).elim (first.operands part) (second.operands part)

theorem tail {part : Node} (whole : TidyParts next (part :: parts)) : TidyParts next parts where
  lines := endsLines_tail whole.lines
  operands other member := whole.operands other (List.mem_cons_of_mem _ member)

theorem filter {keep : Node → Bool} (whole : TidyParts next parts)
    (dropped : ∀ part ∈ parts, keep part = false → role part = .other) :
    TidyParts next (parts.filter keep) where
  lines := endsLines_filter dropped whole.lines
  operands part member := whole.operands part (List.mem_filter.mp member).1

/-- What comes next does not matter to parts that do not end in a comment. -/
theorem of_getLast? {later : Following} (whole : TidyParts next parts)
    (last : ∀ part ∈ parts.getLast?, role part ≠ .comment) : TidyParts later parts :=
  { whole with lines := endsLines_of_getLast? last whole.lines }

theorem tidy_ordgroup (whole : TidyParts next parts) (content : String) :
    Tidy (.ordgroup content parts) :=
  .ordgroup (endsLines_nothing whole.lines) (fun part member => (whole.operands part member).tidy)
    fun part member => (whole.operands part member).bare

theorem endsInComment_ordgroup (whole : TidyParts .other parts) (content : String) :
    endsInComment (.ordgroup content parts) = false := by
  have last := getLast?_of_endsLines_other whole.lines
  rw [endsInComment]
  cases isLast : parts.getLast? with
  | none => rfl
  | some part => simpa using last part isLast

theorem tidy_group (whole : TidyParts next parts) : Tidy (.group parts) := by
  match parts, whole with
  | [], _ => exact .leaf _ _
  | [part], whole => exact (whole.operands part (by simp)).tidy
  | _ :: _ :: _, whole => exact whole.tidy_ordgroup ""

theorem endsInComment_group (whole : TidyParts .other parts) :
    endsInComment (.group parts) = false := by
  match parts, whole with
  | [], _ => rfl
  | [part], whole =>
    cases ends : endsInComment part with
    | false => exact ends
    | true => simpa [(whole.operands part (by simp)).bare ends] using whole.lines
  | _ :: _ :: _, whole => exact whole.endsInComment_ordgroup ""

theorem tidy_cell (whole : TidyParts next parts) : Tidy (Grid.cell parts) := by
  cases parts with
  | nil => exact whole.tidy_ordgroup ""
  | cons part rest => exact whole.tidy_group

theorem endsInComment_cell (whole : TidyParts .other parts) :
    endsInComment (Grid.cell parts) = false := by
  cases parts with
  | nil => rfl
  | cons part rest => exact whole.endsInComment_group

end TidyParts

/-- A grid under construction is tidy so far: a line break comes next if its last part is
a comment, so that no cell but the last one ends in one. -/
structure TidyDraft (draft : Grid.Draft) (upcoming : List Node) : Prop where
  rows : ∀ row ∈ draft.rows, ∀ cell ∈ row, Tidy cell ∧ endsInComment cell = false
  row : ∀ cell ∈ draft.row, Tidy cell ∧ endsInComment cell = false
  parts : TidyParts (opening .nothing upcoming) draft.parts
  upcoming : TidyParts .nothing upcoming

namespace TidyDraft

variable {draft : Grid.Draft} {part : Node} {upcoming : List Node}

/-- The cell at hand ends at a mark. -/
theorem row_endCell (tidy : TidyDraft draft (part :: upcoming)) (plain : role part = .other) :
    ∀ cell ∈ draft.endCell.row, Tidy cell ∧ endsInComment cell = false := by
  have parts := tidy.parts
  rw [opening_cons plain] at parts
  intro cell member
  rcases List.mem_append.mp member with inRow | isLast
  · exact tidy.row cell inRow
  · rw [List.mem_singleton.mp isLast]
    exact ⟨parts.tidy_cell, parts.endsInComment_cell⟩

theorem endCell (tidy : TidyDraft draft (part :: upcoming)) (plain : role part = .other) :
    TidyDraft draft.endCell upcoming where
  rows := tidy.rows
  row := tidy.row_endCell plain
  parts := .nil
  upcoming := tidy.upcoming.tail

theorem endRow (tidy : TidyDraft draft (part :: upcoming)) (plain : role part = .other) :
    TidyDraft draft.endRow upcoming where
  rows := by
    intro row member
    rcases List.mem_append.mp member with inRows | isLast
    · exact tidy.rows row inRows
    · rw [List.mem_singleton.mp isLast]
      exact tidy.row_endCell plain
  row := by
    intro cell member
    cases member
  parts := .nil
  upcoming := tidy.upcoming.tail

/-- Layout is left out only where the cell at hand does not end in a comment. -/
theorem last_of_isIgnored (tidy : TidyDraft draft (part :: upcoming))
    (ignored : Grid.isIgnored draft.parts part = true) :
    ∀ item ∈ draft.parts.getLast?, role item ≠ .comment := by
  unfold Grid.isIgnored at ignored
  split at ignored
  · exact getLast?_of_endsLines_other tidy.parts.lines
  · split at ignored
    · cases ignored
    · rename_i noComment
      intro item isLast comment
      obtain ⟨content, rfl⟩ := role_node_eq_comment_iff.mp comment
      exact noComment content isLast
  · cases ignored

theorem add (tidy : TidyDraft draft (part :: upcoming)) : TidyDraft (draft.add part) upcoming := by
  unfold Grid.Draft.add
  split
  · rename_i ignored
    exact { tidy with
      parts := tidy.parts.of_getLast? (tidy.last_of_isIgnored ignored)
      upcoming := tidy.upcoming.tail }
  split
  · rename_i rowMark
    refine tidy.endRow ?_
    unfold Grid.isRowMark at rowMark
    split at rowMark
    · rfl
    · cases rowMark
  split
  · rename_i cellMark
    refine tidy.endCell ?_
    unfold Grid.isCellMark at cellMark
    split at cellMark
    · rfl
    · cases cellMark
  · have upcomingTidy := tidy.upcoming
    have ended := upcomingTidy.lines
    rw [endsLines, Bool.and_eq_true] at ended
    have single : TidyParts (opening .nothing upcoming) [part] :=
      ⟨by rw [endsLines_singleton]; exact ended.1,
        by simpa using upcomingTidy.operands part (by simp)⟩
    have before : TidyParts (opening (opening .nothing upcoming) [part]) draft.parts := tidy.parts
    exact { tidy with parts := before.append single, upcoming := upcomingTidy.tail }

theorem foldl_add (tidy : TidyDraft draft upcoming) :
    TidyDraft (upcoming.foldl Grid.Draft.add draft) [] := by
  induction upcoming generalizing draft with
  | nil => exact tidy
  | cons part rest inductionHypothesis => exact inductionHypothesis tidy.add

/-- The last cell of a finished grid may end in a comment. -/
theorem tidy_finish (tidy : TidyDraft draft []) (name : String) :
    Tidy (.beginend name draft.finish) := by
  have lastCell : Tidy (Grid.cell draft.parts) := tidy.parts.tidy_cell
  have finished : Tidy (.beginend name draft.endRow.rows) := by
    refine .beginend ?_ ?_ ?_
    · intro row isRow cell isCell
      rcases List.mem_append.mp isRow with inRows | isLast
      · exact (tidy.rows row inRows cell isCell).1
      · rw [List.mem_singleton.mp isLast] at isCell
        rcases List.mem_append.mp isCell with inRow | isLastCell
        · exact (tidy.row cell inRow).1
        · rw [List.mem_singleton.mp isLastCell]
          exact lastCell
    · intro row isRow cell isCell
      rw [Grid.Draft.endRow, List.dropLast_concat] at isRow
      exact (tidy.rows row isRow cell isCell).2
    · intro row isLast cell isCell
      rw [Grid.Draft.endRow, List.getLast?_concat] at isLast
      cases isLast
      rw [Grid.Draft.endCell, List.dropLast_concat] at isCell
      exact (tidy.row cell isCell).2
  unfold Grid.Draft.finish
  split
  · split
    · refine .beginend (fun row isRow cell isCell => (tidy.rows row isRow cell isCell).1)
        (fun row isRow cell isCell => (tidy.rows row ?_ cell isCell).2)
        fun row isRow cell isCell => (tidy.rows row ?_ cell ?_).2
      · exact (List.dropLast_sublist _).subset isRow
      · exact List.mem_of_getLast? isRow
      · exact (List.dropLast_sublist _).subset isCell
    · exact finished
  · exact finished

end TidyDraft

theorem TidyParts.tidy_ofParts {parts : List Node} (tidy : TidyParts .nothing parts) (name : String) :
    Tidy (.beginend name (Grid.ofParts parts)) := by
  have start : TidyDraft {} parts := ⟨by simp, by simp, .nil, tidy⟩
  exact start.foldl_add.tidy_finish name

end Parts

section Readings

variable {options : ParseOptions} {inner : Reading}

/-- What is known of an operand that is read from tokens in which a line break follows
each comment. A comment is one token, and a line break by itself is read as one. -/
structure KeepsAt (next : Following) (input : List Token) (node : Node) (rest : List Token) :
    Prop where
  lines : endsLines next rest = true
  operand : TidyOperand node
  comment : role node = .comment → ∃ token, input = token :: rest ∧ role token = .comment
  lineBreak : ∀ token ∈ input.head?, role token = .lineBreak →
    ∃ content, node = .leaf .newline content

/-- Whatever is read keeps the lines of the tokens. -/
def KeepsLines (reading : Reading) : Prop :=
  ∀ ⦃input node rest⦄, reading input node rest → ∀ ⦃next⦄, endsLines next input = true →
    KeepsAt next input node rest

/-- The scripts of a base are tidy. -/
structure TidyScripts (scripts : Parser.Scripts) : Prop where
  sup : ∀ script ∈ scripts.sup, TidyOperand script
  sub : ∀ script ∈ scripts.sub, TidyOperand script

theorem ScriptsOf.lines {next : Following} {input rest : List Token} {scripts : Parser.Scripts}
    (keeps : KeepsLines inner) (attached : ScriptsOf inner input scripts rest)
    (ended : endsLines next input = true) :
    endsLines next rest = true ∧ TidyScripts scripts := by
  cases attached with
  | none primes rest => exact ⟨endsLines_right ended, by simp, by simp⟩
  | sub primes morePrimes script =>
    have kept := keeps script (endsLines_tail (endsLines_right ended))
    exact ⟨endsLines_right kept.lines, by simp, by simpa using kept.operand⟩
  | subSup primes morePrimes first second =>
    have kept := keeps first (endsLines_tail (endsLines_right ended))
    have keptNext := keeps second (endsLines_tail (endsLines_right kept.lines))
    exact ⟨keptNext.lines, by simpa using keptNext.operand, by simpa using kept.operand⟩
  | sup primes script =>
    have kept := keeps script (endsLines_tail (endsLines_right ended))
    exact ⟨kept.lines, by simpa using kept.operand, by simp⟩
  | supSub primes first second =>
    have kept := keeps first (endsLines_tail (endsLines_right ended))
    have keptNext := keeps second (endsLines_tail kept.lines)
    exact ⟨keptNext.lines, by simpa using kept.operand, by simpa using keptNext.operand⟩

/-- A line break has no scripts, and nothing has none. -/
theorem ScriptsOf.eq_of_opening {next : Following} {input rest : List Token}
    {scripts : Parser.Scripts} (attached : ScriptsOf inner input scripts rest)
    (stops : opening next input ≠ .other) : scripts = {} ∧ rest = input := by
  have noPrimes {primes : Nat} {tokens : List Token} {token : Token} (plain : role token = .other)
      (stops : opening next (List.replicate primes .prime ++ token :: tokens) ≠ .other) : False := by
    cases primes with
    | zero => exact stops (opening_cons plain _)
    | succ count => exact stops (opening_cons rfl _)
  cases attached with
  | none primes rest =>
    cases primes with
    | zero => exact ⟨rfl, rfl⟩
    | succ count => exact absurd (opening_cons rfl _) stops
  | sub | subSup | sup | supSub => exact (noPrimes rfl stops).elim

/-- Primes before a superscript leave it bare. -/
theorem TidyScripts.superscript {scripts : Parser.Scripts} (tidy : TidyScripts scripts) :
    ∀ script ∈ scripts.superscript,
      Tidy script ∧ (endsInComment script = true → isBareComment script = true) := by
  unfold Parser.Scripts.superscript
  split
  · intro script member
    exact ⟨(tidy.sup script member).tidy, (tidy.sup script member).isBareComment⟩
  · rename_i hasPrimes
    rintro script ⟨⟩
    have prime : TidyOperand (.symbol "\\prime") := ⟨.leaf _ _, by simp [endsInComment]⟩
    have primesTidy (next : Following) :
        TidyParts next (List.replicate scripts.primes (.symbol "\\prime")) :=
      ⟨endsLines_of_plain fun part member => by simp [List.eq_of_mem_replicate member, role],
        fun part member => by rw [List.eq_of_mem_replicate member]; exact prime⟩
    cases sup : scripts.sup with
    | none =>
      rw [Option.toList_none, List.append_nil]
      exact ⟨(primesTidy .other).tidy_group, by simp [(primesTidy .other).endsInComment_group]⟩
    | some last =>
      have lastTidy := tidy.sup last sup
      have whole : TidyParts .nothing (List.replicate scripts.primes (.symbol "\\prime") ++ [last]) :=
        (primesTidy _).append ⟨by simp, by simpa using lastTidy⟩
      refine ⟨whole.tidy_group, ?_⟩
      rw [Option.toList_some, group_eq_ordgroup (by simpa using Nat.pos_of_ne_zero hasPrimes)]
      intro ends
      have comment : role last = .comment := by simpa [endsInComment] using ends
      obtain ⟨content, rfl⟩ := role_node_eq_comment_iff.mp comment
      rw [isBareComment, List.dropWhile_append_of_pos fun part member => by
        rw [List.eq_of_mem_replicate member]; rfl]
      rfl

theorem tidy_attach {base : Node} {scripts : Parser.Scripts} (baseTidy : TidyOperand base)
    (tidy : TidyScripts scripts) (plain : role base = .comment → scripts = {}) :
    TidyOperand (scripts.attach base) := by
  unfold Parser.Scripts.attach
  split
  · exact baseTidy
  · rename_i sup sub scripted
    have baseEnds : endsInComment base = false := by
      cases ends : endsInComment base with
      | false => rfl
      | true =>
        rw [plain (baseTidy.bare ends)] at scripted
        exact (scripted rfl rfl).elim
    refine ⟨.supsub ?_ baseTidy.tidy baseEnds (fun script member => (tidy.superscript script member).1)
      (fun script member => (tidy.superscript script member).2)
      (fun script member => (tidy.sub script member).tidy)
      fun script member => (tidy.sub script member).isBareComment, by simp [endsInComment]⟩
    cases above : scripts.superscript with
    | some script => exact .inl rfl
    | none =>
      cases below : scripts.sub with
      | some script => exact .inr rfl
      | none => exact (scripted above below).elim

theorem role_attach (base : Node) (scripts : Parser.Scripts) :
    role (scripts.attach base) = .comment → role base = .comment := by
  unfold Parser.Scripts.attach
  split
  · exact id
  · intro comment
    obtain ⟨content, isLeaf⟩ := role_node_eq_comment_iff.mp comment
    cases isLeaf

/-- A line break is read as one, whatever scripts it has. -/
theorem role_attach_newline (content : String) (scripts : Parser.Scripts) :
    role (scripts.attach (.leaf .newline content)) = .lineBreak := by
  unfold Parser.Scripts.attach
  split <;> rfl

/-- An operand with its scripts keeps the lines as well, but a line break may have some. -/
theorem Scripted.lines {next : Following} {input rest : List Token} {node : Node}
    (keeps : KeepsLines inner) (read : Scripted inner input node rest)
    (ended : endsLines next input = true) :
    endsLines next rest = true ∧ TidyOperand node ∧
      (role node = .comment → ∃ token, input = token :: rest ∧ role token = .comment) ∧
      ∀ token ∈ input.head?, role token = .lineBreak → role node = .lineBreak := by
  obtain ⟨baseRead, attached, -⟩ := read
  rename_i middle base scripts
  have kept := keeps baseRead ended
  obtain ⟨restEnded, scriptsTidy⟩ := attached.lines keeps kept.lines
  have plain (comment : role base = .comment) : scripts = {} ∧ rest = middle := by
    obtain ⟨token, rfl, isComment⟩ := kept.comment comment
    exact attached.eq_of_opening (opening_of_comment isComment ended)
  refine ⟨restEnded, tidy_attach kept.operand scriptsTidy fun comment => (plain comment).1,
    fun comment => ?_, fun token isHead breaks => ?_⟩
  · obtain ⟨-, rfl⟩ := plain (role_attach _ _ comment)
    exact kept.comment (role_attach _ _ comment)
  · obtain ⟨content, rfl⟩ := kept.lineBreak token isHead breaks
    exact role_attach_newline content _

theorem Parts.lines {next : Following} {input : List Token} {parts : List Node}
    (keeps : KeepsLines inner) (read : Parts inner input parts)
    (ended : endsLines next input = true) :
    TidyParts next parts ∧
      (opening next input ≠ .other → opening next parts = opening next input) := by
  induction read with
  | nil => exact ⟨.nil, fun _ => rfl⟩
  | @cons token tail rest part parts first others inductionHypothesis =>
    obtain ⟨restEnded, operand, comment, lineBreak⟩ := Scripted.lines keeps first ended
    obtain ⟨tidy, same⟩ := inductionHypothesis restEnded
    have followed : role part ≠ .comment ∨ opening next parts ≠ .other := by
      by_cases isComment : role part = .comment
      · obtain ⟨token, split, tokenComment⟩ := comment isComment
        rw [split] at ended
        have stops := opening_of_comment tokenComment ended
        exact .inr (by rw [same stops]; exact stops)
      · exact .inl isComment
    refine ⟨⟨?_, ?_⟩, fun stops => ?_⟩
    · rw [endsLines, tidy.lines]
      simpa using followed
    · intro other member
      rcases List.mem_cons.mp member with rfl | inRest
      · exact operand
      · exact tidy.operands other inRest
    · have breaks := opening_cons_ne_other_iff.mp stops
      rw [opening, opening, breaks, lineBreak token rfl breaks]

theorem role_of_keeps {options : ParseOptions} (keepsNewlines : options.keepNewlines = true)
    {part : Node} (dropped : Parser.keeps options part = false) : role part = .other := by
  unfold Parser.keeps at dropped
  split at dropped
  · rfl
  · simp [keepsNewlines] at dropped
  · cases dropped

/-- A sequence keeps its line breaks. -/
theorem Sequence.tidyParts {next : Following} {input : List Token} {node : Node}
    (keepsNewlines : options.keepNewlines = true) (keeps : KeepsLines inner)
    (read : Sequence inner options input node) (ended : endsLines next input = true) :
    ∃ parts, TidyParts next parts ∧ node = .group parts := by
  obtain ⟨partsRead, -⟩ := read
  obtain ⟨tidy, -⟩ := Parts.lines keeps partsRead ended
  exact ⟨_, tidy.filter fun part _ => role_of_keeps keepsNewlines, rfl⟩

theorem endsLines_splitFirst {next : Following} {input : List Token}
    (ended : endsLines next input = true) : endsLines next (splitFirst input) = true := by
  cases input with
  | nil => rfl
  | cons token tail =>
    rcases splitFirst_cons token tail with same | ⟨digit, remainder, split, parts⟩
    · rw [same]
      exact ended
    · obtain ⟨first, second, rest, -, rfl, rfl, rfl⟩ := splitNumber?_eq_some split
      rw [parts, endsLines_cons (by simp [role]), endsLines_cons (by simp [role])]
      exact endsLines_tail ended

theorem Argument.lines {next : Following} {input rest : List Token} {node : Node}
    (keeps : KeepsLines inner) (read : Argument inner input node rest)
    (ended : endsLines next input = true) : endsLines next rest = true ∧ TidyOperand node := by
  obtain ⟨passed, solid, inside, read⟩ := read
  have kept := keeps read (endsLines_splitFirst (endsLines_right ended))
  exact ⟨kept.lines, kept.operand⟩

/-- The index of a root stands in brackets, so that it does not end in a comment. -/
theorem IndexAt.lines {next : Following} {input rest : List Token} {index : Option Node}
    (keepsNewlines : options.keepNewlines = true) (keeps : KeepsLines inner)
    (read : IndexAt inner options input index rest) (ended : endsLines next input = true) :
    endsLines next rest = true ∧ ∀ node ∈ index, Tidy node ∧ endsInComment node = false := by
  cases read with
  | none absent => exact ⟨ended, by simp⟩
  | @some layout body rest index passed balanced inside =>
    rw [List.append_assoc] at ended
    have bodyEnded := endsLines_tail (endsLines_right ended)
    obtain ⟨parts, tidy, rfl⟩ := inside.tidyParts keepsNewlines keeps (endsLines_left bodyEnded rfl)
    refine ⟨endsLines_tail (endsLines_right bodyEnded), ?_⟩
    rintro node ⟨⟩
    exact ⟨tidy.tidy_group, tidy.endsInComment_group⟩

theorem endsLines_afterBracedText {next : Following} {content : String} {rest : List Token}
    (ended : endsLines next (.openBrace :: ⟨.text, content⟩ :: .closeBrace :: rest) = true) :
    endsLines next rest = true :=
  endsLines_tail (endsLines_tail (endsLines_tail ended))

/-- A command with its arguments is no comment. -/
theorem CommandAt.lines {next : Following} {command : String} {input rest : List Token} {node : Node}
    (keepsNewlines : options.keepNewlines = true) (keeps : KeepsLines inner)
    (read : CommandAt inner options command input node rest) (ended : endsLines next input = true) :
    endsLines next rest = true ∧ Tidy node ∧ endsInComment node = false := by
  cases read with
  | constant arity single =>
    refine ⟨ended, .leaf _ _, ?_⟩
    split <;> rfl
  | unary arity read =>
    cases read with
    | text isText content rest => exact ⟨endsLines_afterBracedText ended, .leaf _ _, rfl⟩
    | operator isOperator content rest =>
      exact ⟨endsLines_afterBracedText ended,
        .unaryFunc (fun _ => ⟨content, rfl⟩) (.inl rfl) (.leaf _ _) (by simp [endsInComment])
          (by simp) (by simp), rfl⟩
    | root isRoot indexRead argument =>
      obtain ⟨middleEnded, index⟩ := indexRead.lines keepsNewlines keeps ended
      obtain ⟨restEnded, arg⟩ := argument.lines keeps middleEnded
      exact ⟨restEnded, .unaryFunc (by simp [isRoot]) (.inr isRoot) arg.tidy arg.isBareComment
        (fun node member => (index node member).1) (fun node member => (index node member).2), rfl⟩
    | other math argument =>
      obtain ⟨restEnded, arg⟩ := argument.lines keeps ended
      exact ⟨restEnded, .unaryFunc (fun isOperator => absurd isOperator math.2.1) (.inl rfl) arg.tidy
        arg.isBareComment (by simp) (by simp), rfl⟩
  | binary arity firstArgument secondArgument =>
    obtain ⟨middleEnded, first⟩ := firstArgument.lines keeps ended
    obtain ⟨restEnded, second⟩ := secondArgument.lines keeps middleEnded
    exact ⟨restEnded, .binaryFunc first.tidy first.isBareComment second.tidy second.isBareComment, rfl⟩

theorem Delimited.lines {next : Following} {input rest : List Token} {node : Node}
    (keepsNewlines : options.keepNewlines = true) (keeps : KeepsLines inner)
    (read : Delimited inner options input node rest) (ended : endsLines next input = true) :
    endsLines next rest = true ∧ Tidy node ∧ endsInComment node = false := by
  obtain ⟨passed, opens, balanced, inside, morePassed, closes⟩ := read
  have bodyEnded := endsLines_tail (endsLines_right ended)
  obtain ⟨parts, tidy, rfl⟩ := inside.tidyParts keepsNewlines keeps (endsLines_left bodyEnded rfl)
  exact ⟨endsLines_tail (endsLines_right (endsLines_tail (endsLines_right bodyEnded))),
    .leftright tidy.tidy_group tidy.endsInComment_group, rfl⟩

/-- The line break at the end of an environment is taken off, even if it ends a comment. -/
theorem Environment.lines {next : Following} {input rest : List Token} {node : Node}
    (keeps : KeepsLines inner) (read : Environment inner input node rest)
    (ended : endsLines next input = true) :
    endsLines next rest = true ∧ Tidy node ∧ endsInComment node = false := by
  obtain ⟨rfl, balanced, specification, grid⟩ := read
  rename_i name inside columns rows
  obtain ⟨partsRead⟩ := grid
  have tokensEnded := endsLines_afterBracedText ended
  have insideEnded : endsLines .other inside = true := endsLines_left tokensEnded rfl
  generalize columns + _ = start at partsRead
  have bodyEnded : endsLines .other (inside.drop start) = true := by
    rw [← List.take_append_drop start inside] at insideEnded
    exact endsLines_right insideEnded
  obtain ⟨trailing, split, -⟩ := eq_withoutTrailingLayout_append (inside.drop start)
  rw [split, endsLines_append, Bool.and_eq_true] at bodyEnded
  obtain ⟨tidy, -⟩ := Parts.lines keeps partsRead (endsLines_nothing bodyEnded.1)
  exact ⟨endsLines_afterBracedText (endsLines_tail (endsLines_right tokensEnded)),
    tidy.tidy_ofParts name, rfl⟩

/-- An operand that is no comment, read from tokens that start with no line break. -/
theorem KeepsAt.of_closed {next : Following} {token : Token} {tail rest : List Token} {node : Node}
    (plain : role token = .other)
    (closed : endsLines next rest = true ∧ Tidy node ∧ endsInComment node = false) :
    KeepsAt next (token :: tail) node rest where
  lines := closed.1
  operand := ⟨closed.2.1, by simp [closed.2.2]⟩
  comment := by
    intro comment
    obtain ⟨content, rfl⟩ := role_node_eq_comment_iff.mp comment
    cases closed.2.2
  lineBreak := by
    rintro other ⟨⟩ breaks
    rw [plain] at breaks
    cases breaks

theorem KeepsAt.of_leaf {next : Following} {token : Token} {rest : List Token} {node : Node}
    (plain : leafOf? token = some node) (ended : endsLines next (token :: rest) = true) :
    KeepsAt next (token :: rest) node rest := by
  have restEnded := endsLines_tail ended
  obtain ⟨kind, value⟩ := token
  cases kind with
  | command => cases plain
  | comment =>
    cases plain
    exact ⟨restEnded, ⟨.leaf _ _, fun _ => rfl⟩, fun _ => ⟨_, rfl, rfl⟩, by simp [role]⟩
  | newline =>
    cases plain
    exact ⟨restEnded, ⟨.leaf _ _, by simp [endsInComment]⟩, by simp [role], fun _ _ _ => ⟨_, rfl⟩⟩
  | control =>
    change (if ["\\\\", "\\,", "&"].contains value then some (Node.leaf .control value) else none) =
      some node at plain
    split at plain
    · cases plain
      exact .of_closed rfl ⟨restEnded, .leaf _ _, rfl⟩
    · cases plain
  | element | unknown | text | whitespace =>
    cases plain
    exact .of_closed rfl ⟨restEnded, .leaf _ _, rfl⟩

theorem Operand.keepsLines (keepsNewlines : options.keepNewlines = true)
    (keeps : KeepsLines inner) : KeepsLines (Operand options inner) := by
  intro input node rest read next ended
  cases read with
  | leaf plain => exact .of_leaf plain ended
  | missingBase mark rest =>
    exact .of_closed (by cases mark <;> rfl) ⟨ended, .leaf _ _, rfl⟩
  | group balanced inside =>
    have bodyEnded := endsLines_tail ended
    obtain ⟨parts, tidy, rfl⟩ := inside.tidyParts keepsNewlines keeps (endsLines_left bodyEnded rfl)
    exact .of_closed rfl ⟨endsLines_tail (endsLines_right bodyEnded), tidy.tidy_group,
      tidy.endsInComment_group⟩
  | command read => exact .of_closed rfl (read.lines keepsNewlines keeps (endsLines_tail ended))
  | leftRight read => exact .of_closed rfl (read.lines keepsNewlines keeps (endsLines_tail ended))
  | environment read => exact .of_closed rfl (read.lines keeps (endsLines_tail ended))

theorem Reads.keepsLines (keepsNewlines : options.keepNewlines = true) (depth : Nat) :
    KeepsLines (Reads options depth) := by
  induction depth with
  | zero => exact fun _ _ _ read => read.elim
  | succ depth inductionHypothesis => exact Operand.keepsLines keepsNewlines inductionHypothesis

end Readings

/-- A formula in which a line break follows each comment is read as a tidy tree. -/
theorem tidy_of_parseTokens {options : ParseOptions} {tokens : List Token} {tree : Node}
    (keepsNewlines : options.keepNewlines = true) (ended : endsLines .nothing tokens = true)
    (parsed : parseTokens options tokens = .ok tree) : Tidy tree := by
  obtain ⟨parts, tidy, rfl⟩ := (parseTokens_eq_ok_iff.mp parsed).tidyParts keepsNewlines
    (Reads.keepsLines keepsNewlines _) ended
  exact tidy.tidy_group

end Grammar
end MathMarkup.Tex
