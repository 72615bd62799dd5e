import MathMarkup.Proofs.Lexemes
import MathMarkup.Tex.Passes

/-!
# Space beside script marks

The lexer takes space in one piece, so that no space is left beside a script mark once
`dropScriptSpacing` has taken it out, and doing it again changes nothing. Other space and all
other tokens are kept. Macros are replaced only then, and a replacement
can bring space back: inside itself, or where it meets its neighbours. `BringsSpace`
says where this happens.
-/

namespace MathMarkup.Tex

/-- Of two neighbours one is space and the other a script mark. -/
def SpacesScript (first second : Token) : Prop :=
  first.kind = .whitespace ∧ second.isScriptMark = true ∨
    first.isScriptMark = true ∧ second.kind = .whitespace

instance (first second : Token) : Decidable (SpacesScript first second) :=
  inferInstanceAs (Decidable (_ ∨ _))

/-- No space stands directly before or after a script mark. -/
def ScriptsClose (tokens : List Token) : Prop :=
  tokens.IsChain fun first second => ¬ SpacesScript first second

instance (tokens : List Token) : Decidable (ScriptsClose tokens) :=
  inferInstanceAs (Decidable (List.IsChain _ _))

/-- No two pieces of space stand side by side. -/
def SpaceInOne (tokens : List Token) : Prop :=
  tokens.IsChain fun first second => ¬ (first.kind = .whitespace ∧ second.kind = .whitespace)

theorem kind_of_isScriptMark {token : Token} (mark : token.isScriptMark = true) :
    token.kind = .control := by
  unfold Token.isScriptMark Token.scriptMark? at mark
  split at mark
  · rename_i isSub
    rw [isSub]
  · split at mark
    · rename_i isSup
      rw [isSup]
    · cases mark

namespace Lexer

theorem kind_escapedToken_ne_whitespace (text : List Char) :
    (escapedToken text).kind ≠ .whitespace := by
  unfold escapedToken
  repeat' split
  all_goals simp

/-- Space starts with a space and takes all spaces that follow. -/
theorem space_of_firstToken {character : Char} {rest tail : List Char} {token : Token}
    (found : firstToken character rest = (token, tail)) (space : token.kind = .whitespace) :
    isSpace character = true ∧ tail = rest.dropWhile isSpace := by
  by_cases isSpaceCharacter : isSpace character = true
  · refine ⟨isSpaceCharacter, ?_⟩
    have blank : character = ' ' ∨ character = '\t' := by simpa [isSpace] using isSpaceCharacter
    rcases blank with rfl | rfl
    all_goals exact (congrArg Prod.snd found).symm
  · exfalso
    unfold firstToken at found
    repeat' split at found
    all_goals
      cases found
      simp_all [kind_escapedToken_ne_whitespace]

/-- A unit is one token, or a command with the three tokens of its text. -/
theorem step_cases {character : Char} {rest after : List Char} {unit : List Token}
    (read : step character rest = .ok (unit, after)) :
    (∃ token, firstToken character rest = (token, after) ∧ unit = [token]) ∨
      ∃ command content, command.kind = .command ∧
        unit = [command, .openBrace, ⟨.text, content⟩, .closeBrace] := by
  unfold step at read
  split at read
  rename_i token tail found
  split at read
  · rename_i takes
    have isCommand : token.kind = .command := by
      simp only [takesText, Bool.and_eq_true, beq_iff_eq] at takes
      exact takes.1
    unfold textArgument at read
    split at read
    · split at read
      · cases read
      · cases read
        exact .inr ⟨token, _, isCommand, rfl⟩
    · cases read
  · cases read
    exact .inl ⟨token, found, rfl⟩

/-- The tokens of a text start with space only if the text does, and no space follows space:
it would have been taken with it. -/
theorem spaceInOne_tokens {text : List Char} {tokens : List Token}
    (lexed : Lexer.tokens text = .ok tokens) :
    SpaceInOne tokens ∧
      ∀ first ∈ tokens.head?, first.kind = .whitespace → text.head?.any isSpace = true := by
  induction text, tokens, lexed using tokens_induction with
  | nil => exact ⟨.nil, by simp⟩
  | @unit character rest after unit others read following _ inductionHypothesis =>
    obtain ⟨othersInOne, othersStart⟩ := inductionHypothesis
    rcases step_cases read with ⟨token, found, rfl⟩ | ⟨command, content, isCommand, rfl⟩
    · refine ⟨List.isChain_cons.mpr ⟨?_, othersInOne⟩, ?_⟩
      · rintro next isNext ⟨space, moreSpace⟩
        obtain ⟨-, rfl⟩ := space_of_firstToken found space
        have starts := othersStart next isNext moreSpace
        have stops := List.head?_dropWhile_not isSpace rest
        cases first : (rest.dropWhile isSpace).head? with
        | none => simp [first] at starts
        | some character => simp_all
      · rintro first ⟨⟩ space
        simpa using (space_of_firstToken found space).1
    · refine ⟨?_, ?_⟩
      · simp only [List.cons_append, List.nil_append, SpaceInOne, List.isChain_cons_cons]
        refine ⟨by simp [isCommand], by simp [Token.openBrace], by simp, ?_⟩
        exact List.isChain_cons.mpr ⟨by simp [Token.closeBrace], othersInOne⟩
      · rintro first ⟨⟩ space
        rw [isCommand] at space
        cases space

end Lexer

section Elision

/-- Space beside a script mark is taken out. -/
theorem dropScriptSpacingAfter_of_space {previous : Option Token} {token : Token} {rest : List Token}
    (space : token.kind = .whitespace)
    (beside : announcesScript rest.head? = true ∨ announcesScript previous = true) :
    dropScriptSpacingAfter previous (token :: rest) = dropScriptSpacingAfter (some token) rest := by
  rw [dropScriptSpacingAfter, if_pos ⟨space, beside⟩]

/-- A token other than space is kept. -/
theorem dropScriptSpacingAfter_of_solid (previous : Option Token) {token : Token} {rest : List Token}
    (solid : token.kind ≠ .whitespace) :
    dropScriptSpacingAfter previous (token :: rest) =
      token :: dropScriptSpacingAfter (some token) rest := by
  rw [dropScriptSpacingAfter, if_neg fun both => solid both.1]

/-- What follows space is not space and therefore kept. -/
theorem head?_dropScriptSpacingAfter {token : Token} {rest : List Token} (previous : Option Token)
    (inOne : SpaceInOne (token :: rest)) (space : token.kind = .whitespace) :
    (dropScriptSpacingAfter previous rest).head? = rest.head? := by
  cases rest with
  | nil => rfl
  | cons next others =>
    have solid : next.kind ≠ .whitespace := fun moreSpace =>
      (List.isChain_cons_cons.mp inOne).1 ⟨space, moreSpace⟩
    rw [dropScriptSpacingAfter_of_solid previous solid]
    rfl

/-- After a script mark no space is left. -/
theorem kind_head?_dropScriptSpacingAfter {previous : Option Token} {tokens : List Token}
    (inOne : SpaceInOne tokens) (marked : announcesScript previous = true) :
    ∀ first ∈ (dropScriptSpacingAfter previous tokens).head?, first.kind ≠ .whitespace := by
  cases tokens with
  | nil => simp [dropScriptSpacingAfter]
  | cons token rest =>
    by_cases space : token.kind = .whitespace
    · rw [dropScriptSpacingAfter_of_space space (.inr marked),
        head?_dropScriptSpacingAfter _ inOne space]
      intro next isNext moreSpace
      exact (List.isChain_cons.mp inOne).1 next isNext ⟨space, moreSpace⟩
    · rw [dropScriptSpacingAfter_of_solid previous space]
      rintro first ⟨⟩
      exact space

/-- Where space comes in one piece, none is left beside a script mark. -/
theorem scriptsClose_dropScriptSpacingAfter (previous : Option Token) {tokens : List Token}
    (inOne : SpaceInOne tokens) : ScriptsClose (dropScriptSpacingAfter previous tokens) := by
  induction tokens generalizing previous with
  | nil => exact .nil
  | cons token rest inductionHypothesis =>
    have restClose := inductionHypothesis (some token) inOne.tail
    rw [dropScriptSpacingAfter]
    split
    · exact restClose
    · rename_i kept
      refine List.isChain_cons.mpr ⟨?_, restClose⟩
      rintro next isNext (⟨space, marked⟩ | ⟨marked, space⟩)
      · rw [head?_dropScriptSpacingAfter _ inOne space] at isNext
        exact kept ⟨space, .inl (by rw [isNext]; exact marked)⟩
      · have announced : announcesScript (some token) = true := marked
        exact kind_head?_dropScriptSpacingAfter inOne.tail announced next isNext space

/-- In the tokens of a source no space is left beside a script mark. -/
theorem scriptsClose_dropScriptSpacing {source : String} {tokens : List Token}
    (lexed : tokenize source = .ok tokens) : ScriptsClose (dropScriptSpacing tokens) :=
  scriptsClose_dropScriptSpacingAfter none (Lexer.spaceInOne_tokens lexed).1

/-- Tokens without space beside a script mark stay as they are. -/
theorem dropScriptSpacingAfter_of_scriptsClose {previous : Option Token} {tokens : List Token}
    (close : ScriptsClose (previous.toList ++ tokens)) :
    dropScriptSpacingAfter previous tokens = tokens := by
  induction tokens generalizing previous with
  | nil => rfl
  | cons token rest inductionHypothesis =>
    have restClose : ScriptsClose (token :: rest) := close.right_of_append
    have kept : ¬ (token.kind = .whitespace ∧
        (announcesScript rest.head? ∨ announcesScript previous)) := by
      rintro ⟨space, marked | marked⟩
      · cases rest with
        | nil => cases marked
        | cons next others => exact (List.isChain_cons_cons.mp restClose).1 (.inl ⟨space, marked⟩)
      · cases previous with
        | none => cases marked
        | some before => exact (List.isChain_cons_cons.mp close).1 (.inr ⟨marked, space⟩)
    have restKept : dropScriptSpacingAfter (some token) rest = rest := inductionHypothesis restClose
    rw [dropScriptSpacingAfter, if_neg kept, restKept]

theorem dropScriptSpacingAfter_sublist (previous : Option Token) (tokens : List Token) :
    (dropScriptSpacingAfter previous tokens).Sublist tokens := by
  induction tokens generalizing previous with
  | nil => exact .slnil
  | cons token rest inductionHypothesis =>
    rw [dropScriptSpacingAfter]
    split
    · exact (inductionHypothesis _).cons _
    · exact (inductionHypothesis _).cons_cons _

/-- Nothing but space is taken out. -/
theorem filter_dropScriptSpacingAfter (previous : Option Token) (tokens : List Token) :
    (dropScriptSpacingAfter previous tokens).filter (·.kind ≠ .whitespace) =
      tokens.filter (·.kind ≠ .whitespace) := by
  induction tokens generalizing previous with
  | nil => rfl
  | cons token rest inductionHypothesis =>
    rw [dropScriptSpacingAfter]
    split
    · rename_i dropped
      rw [List.filter_cons_of_neg (by simp [dropped.1]), inductionHypothesis]
    · rw [List.filter_cons, List.filter_cons, inductionHypothesis]

theorem dropScriptSpacingAfter_unmarked {previous : Option Token}
    (unmarked : announcesScript previous = false) (tokens : List Token) :
    dropScriptSpacingAfter previous tokens = dropScriptSpacing tokens := by
  cases tokens with
  | nil => rfl
  | cons token rest =>
    simp only [dropScriptSpacing, dropScriptSpacingAfter, unmarked]
    rfl

/-- A token that is kept and is no script mark parts the tokens. -/
theorem dropScriptSpacingAfter_append {previous : Option Token} {front rest : List Token}
    {token : Token} (unmarked : token.isScriptMark = false)
    (kept : token.kind = .whitespace → announcesScript rest.head? = false ∧
      announcesScript (front.getLast?.or previous) = false) :
    dropScriptSpacingAfter previous (front ++ token :: rest) =
      dropScriptSpacingAfter previous front ++ token :: dropScriptSpacing rest := by
  have silent : announcesScript (some token) = false := unmarked
  induction front generalizing previous with
  | nil =>
    have stays : ¬ (token.kind = .whitespace ∧
        (announcesScript rest.head? ∨ announcesScript previous)) := by
      rintro ⟨space, marked | marked⟩
      · rw [(kept space).1] at marked
        cases marked
      · have unannounced : announcesScript previous = false := (kept space).2
        rw [unannounced] at marked
        cases marked
    have taken : dropScriptSpacingAfter previous (token :: rest) =
        token :: dropScriptSpacingAfter (some token) rest := if_neg stays
    rw [List.nil_append, taken, dropScriptSpacingAfter_unmarked silent]
    rfl
  | cons first others inductionHypothesis =>
    have sameHead : announcesScript (others ++ token :: rest).head? =
        announcesScript others.head? := by
      cases others with
      | nil => exact silent
      | cons next others => rfl
    have sameLast : (first :: others).getLast?.or previous = others.getLast?.or (some first) := by
      simp [List.getLast?_cons, Option.or_some]
    rw [sameLast] at kept
    rw [List.cons_append, dropScriptSpacingAfter, dropScriptSpacingAfter, sameHead,
      inductionHypothesis kept]
    split <;> rfl

/-- In the tokens of a source, the space beside script marks is taken out once and for all.
Nothing else is: the other tokens stay in their order, and so does space that is not beside a
script mark. -/
theorem dropScriptSpacing_idempotent {source : String} {tokens : List Token}
    (lexed : tokenize source = .ok tokens) :
    dropScriptSpacing (dropScriptSpacing tokens) = dropScriptSpacing tokens ∧
      ScriptsClose (dropScriptSpacing tokens) ∧
      (dropScriptSpacing tokens).Sublist tokens ∧
      (dropScriptSpacing tokens).filter (·.kind ≠ .whitespace) =
        tokens.filter (·.kind ≠ .whitespace) ∧
      ∀ before space after, tokens = before ++ space :: after → space.kind = .whitespace →
        announcesScript before.getLast? = false → announcesScript after.head? = false →
        dropScriptSpacing tokens =
          dropScriptSpacing before ++ space :: dropScriptSpacing after := by
  have close := scriptsClose_dropScriptSpacing lexed
  refine ⟨dropScriptSpacingAfter_of_scriptsClose close, close,
    dropScriptSpacingAfter_sublist none tokens, filter_dropScriptSpacingAfter none tokens, ?_⟩
  rintro before space after rfl isSpace noneBefore noneAfter
  have unmarked : space.isScriptMark = false := by
    by_contra marked
    rw [kind_of_isScriptMark (by simpa using marked)] at isSpace
    cases isSpace
  refine dropScriptSpacingAfter_append unmarked fun _ => ⟨noneAfter, ?_⟩
  rwa [Option.or_none]

/-- Space on both sides of a mark, before a text argument, in it and after it. -/
theorem dropScriptSpacing_idempotent_spaced :
    ∃ tokens, tokenize "x _ \\text \x7ba b\x7d y" = .ok tokens ∧
      dropScriptSpacing tokens = [⟨.element, "x"⟩, ⟨.control, "_"⟩, ⟨.command, "\\text"⟩,
        .openBrace, ⟨.text, "a b"⟩, .closeBrace, ⟨.whitespace, " "⟩, ⟨.element, "y"⟩] ∧
      dropScriptSpacing (dropScriptSpacing tokens) = dropScriptSpacing tokens := by
  have lexed : tokenize "x _ \\text \x7ba b\x7d y" = .ok [⟨.element, "x"⟩, ⟨.whitespace, " "⟩,
      ⟨.control, "_"⟩, ⟨.whitespace, " "⟩, ⟨.command, "\\text"⟩, .openBrace, ⟨.text, "a b"⟩,
      .closeBrace, ⟨.whitespace, " "⟩, ⟨.element, "y"⟩] :=
    Lexer.tokens_of_step [⟨.element, "x"⟩] " _ \\text \x7ba b\x7d y" rfl <|
    Lexer.tokens_of_step [⟨.whitespace, " "⟩] "_ \\text \x7ba b\x7d y" rfl <|
    Lexer.tokens_of_step [⟨.control, "_"⟩] " \\text \x7ba b\x7d y" rfl <|
    Lexer.tokens_of_step [⟨.whitespace, " "⟩] "\\text \x7ba b\x7d y" rfl <|
    Lexer.tokens_of_step [⟨.command, "\\text"⟩, .openBrace, ⟨.text, "a b"⟩, .closeBrace] " y" rfl <|
    Lexer.tokens_of_step [⟨.whitespace, " "⟩] "y" rfl <|
    Lexer.tokens_of_step [⟨.element, "y"⟩] "" rfl Lexer.tokens_nil
  exact ⟨_, lexed, by decide, (dropScriptSpacing_idempotent lexed).1⟩

-- Two pieces of space side by side, which no source has, would be taken out one at a time.
example : dropScriptSpacing [⟨.whitespace, " "⟩, ⟨.whitespace, " "⟩, ⟨.control, "_"⟩] =
    [⟨.whitespace, " "⟩, ⟨.control, "_"⟩] := by
  decide

end Elision

section Macros

namespace MacroTable

variable {macros : MacroTable}

/-- The token is a macro. -/
def replaces (macros : MacroTable) (token : Token) : Bool :=
  token.kind == .command && (macros.find? token.value).isSome

/-- A token that is no macro stands for itself. -/
theorem expandToken_of_not_replaces {token : Token} (kept : macros.replaces token = false) :
    macros.expandToken token = .ok [token] := by
  unfold expandToken
  split
  · rename_i isCommand
    have unknown : macros.find? token.value = none := by simpa [replaces, isCommand] using kept
    rw [unknown]
  · rfl

theorem expand_cons_eq_ok_iff {token : Token} {rest expanded : List Token} :
    macros.expand (token :: rest) = .ok expanded ↔
      ∃ expansion others, macros.expandToken token = .ok expansion ∧
        macros.expand rest = .ok others ∧ expanded = expansion ++ others := by
  rw [expand]
  cases first : macros.expandToken token with
  | error cause => simp [bind, Except.bind]
  | ok expansion =>
    cases later : macros.expand rest with
    | error cause => simp [bind, Except.bind]
    | ok others => simp [bind, Except.bind, pure, Except.pure, eq_comm]

/-- Tokens are replaced one list after the other. -/
theorem expand_append_eq_ok_iff {first second expanded : List Token} :
    macros.expand (first ++ second) = .ok expanded ↔
      ∃ left right, macros.expand first = .ok left ∧ macros.expand second = .ok right ∧
        expanded = left ++ right := by
  induction first generalizing expanded with
  | nil => simp [expand]
  | cons token rest inductionHypothesis =>
    simp only [List.cons_append, expand_cons_eq_ok_iff, inductionHypothesis]
    constructor
    · rintro ⟨expansion, _, read, ⟨left, right, leftRead, rightRead, rfl⟩, rfl⟩
      exact ⟨_, right, ⟨expansion, left, read, leftRead, rfl⟩, rightRead, by simp⟩
    · rintro ⟨_, right, ⟨expansion, left, read, leftRead, rfl⟩, rightRead, rfl⟩
      exact ⟨expansion, _, read, ⟨left, right, leftRead, rightRead, rfl⟩, by simp⟩

/-- Macros without tokens leave nothing. -/
theorem expand_of_vanishing {tokens : List Token}
    (vanishing : ∀ token ∈ tokens, macros.expandToken token = .ok []) :
    macros.expand tokens = .ok [] := by
  induction tokens with
  | nil => rfl
  | cons token rest inductionHypothesis =>
    rw [List.forall_mem_cons] at vanishing
    exact expand_cons_eq_ok_iff.mpr
      ⟨[], [], vanishing.1, inductionHypothesis vanishing.2, rfl⟩

/-- The first token of the replaced list comes from the first token that does not vanish. -/
theorem exists_first_of_expand {tokens expanded : List Token} {next : Token}
    (read : macros.expand tokens = .ok expanded) (isNext : next ∈ expanded.head?) :
    ∃ vanished second tail after, tokens = vanished ++ second :: after ∧
      (∀ token ∈ vanished, macros.expandToken token = .ok []) ∧
      macros.expandToken second = .ok (next :: tail) := by
  induction tokens generalizing expanded with
  | nil =>
    cases read
    cases isNext
  | cons token rest inductionHypothesis =>
    obtain ⟨expansion, others, tokenRead, restRead, rfl⟩ := expand_cons_eq_ok_iff.mp read
    cases expansion with
    | nil =>
      obtain ⟨vanished, second, tail, after, rfl, vanishing, secondRead⟩ :=
        inductionHypothesis restRead isNext
      exact ⟨token :: vanished, second, tail, after, rfl, by simpa using ⟨tokenRead, vanishing⟩,
        secondRead⟩
    | cons first tail =>
      cases isNext
      exact ⟨[], token, tail, rest, rfl, by simp, tokenRead⟩

end MacroTable

/-- The macros among the tokens bring space beside a script mark. -/
inductive BringsSpace (macros : MacroTable) (tokens : List Token) : Prop where
  /-- Both stand in the replacement of one macro. -/
  | inside {token : Token} {expansion : List Token} (used : token ∈ tokens)
      (isMacro : macros.replaces token = true)
      (read : macros.expandToken token = .ok expansion) (spaced : ¬ ScriptsClose expansion)
  /-- They meet where something was replaced: at the seam of a macro with its neighbour, or
  over macros without tokens. -/
  | seam {before vanished after left right : List Token} {first second last next : Token}
      (split : tokens = before ++ first :: (vanished ++ second :: after))
      (replaced : vanished ≠ [] ∨ macros.replaces first = true ∨ macros.replaces second = true)
      (vanishing : ∀ token ∈ vanished, macros.expandToken token = .ok [])
      (firstRead : macros.expandToken first = .ok (left ++ [last]))
      (secondRead : macros.expandToken second = .ok (next :: right))
      (spaced : SpacesScript last next)

namespace BringsSpace

variable {macros : MacroTable}

theorem cons (token : Token) {rest : List Token} (brings : BringsSpace macros rest) :
    BringsSpace macros (token :: rest) := by
  cases brings with
  | inside used isMacro read spaced =>
    exact .inside (List.mem_cons_of_mem _ used) isMacro read spaced
  | @seam before vanished after left right first second last next split replaced vanishing firstRead
      secondRead spaced =>
    have longer : token :: rest = (token :: before) ++ first :: (vanished ++ second :: after) := by
      rw [split, List.cons_append]
    exact .seam longer replaced vanishing firstRead secondRead spaced

/-- Space that a macro brings is in the replaced list. -/
theorem not_scriptsClose {tokens expanded : List Token} (brings : BringsSpace macros tokens)
    (read : macros.expand tokens = .ok expanded) : ¬ ScriptsClose expanded := by
  intro close
  cases brings with
  | inside used isMacro tokenRead spaced =>
    obtain ⟨before, after, rfl⟩ := List.append_of_mem used
    obtain ⟨_, _, -, laterRead, rfl⟩ := MacroTable.expand_append_eq_ok_iff.mp read
    obtain ⟨_, _, usedRead, -, rfl⟩ := MacroTable.expand_cons_eq_ok_iff.mp laterRead
    cases tokenRead.symm.trans usedRead
    exact spaced close.right_of_append.left_of_append
  | seam split replaced vanishing firstRead secondRead spaced =>
    subst split
    obtain ⟨_, _, -, fromFirst, rfl⟩ := MacroTable.expand_append_eq_ok_iff.mp read
    obtain ⟨_, _, isFirst, afterFirst, rfl⟩ := MacroTable.expand_cons_eq_ok_iff.mp fromFirst
    obtain ⟨_, _, isVanished, fromSecond, rfl⟩ := MacroTable.expand_append_eq_ok_iff.mp afterFirst
    obtain ⟨_, _, isSecond, -, rfl⟩ := MacroTable.expand_cons_eq_ok_iff.mp fromSecond
    cases firstRead.symm.trans isFirst
    cases (MacroTable.expand_of_vanishing vanishing).symm.trans isVanished
    cases secondRead.symm.trans isSecond
    have meets := (List.isChain_append.mp close.right_of_append).2.2
    exact meets _ (by simp) _ (by simp) spaced

/-- Space in the replaced list was brought by a macro if there was none before. -/
theorem of_not_scriptsClose {tokens expanded : List Token} (close : ScriptsClose tokens)
    (read : macros.expand tokens = .ok expanded) (spaced : ¬ ScriptsClose expanded) :
    BringsSpace macros tokens := by
  induction tokens generalizing expanded with
  | nil =>
    cases read
    exact absurd .nil spaced
  | cons token rest inductionHypothesis =>
    obtain ⟨expansion, others, tokenRead, restRead, rfl⟩ :=
      MacroTable.expand_cons_eq_ok_iff.mp read
    by_cases insideClose : ScriptsClose expansion
    · by_cases restClose : ScriptsClose others
      · -- The lists are fine by themselves, so that they meet badly.
        have meets : ∃ last ∈ expansion.getLast?, ∃ next ∈ others.head?, SpacesScript last next := by
          by_contra apart
          push Not at apart
          exact spaced (insideClose.append restClose apart)
        obtain ⟨last, isLast, next, isNext, badly⟩ := meets
        obtain ⟨vanished, second, right, after, rfl, vanishing, secondRead⟩ :=
          MacroTable.exists_first_of_expand restRead isNext
        obtain ⟨left, rfl⟩ := List.getLast?_eq_some_iff.mp isLast
        refine .seam (List.nil_append _).symm ?_ vanishing tokenRead secondRead badly
        by_contra kept
        push Not at kept
        obtain ⟨rfl, tokenKept, secondKept⟩ := kept
        rw [MacroTable.expandToken_of_not_replaces (by simpa using tokenKept),
          Except.ok.injEq] at tokenRead
        rw [MacroTable.expandToken_of_not_replaces (by simpa using secondKept)] at secondRead
        cases secondRead
        have isLast : token = last := by simpa using congrArg List.getLast? tokenRead
        exact (List.isChain_cons_cons.mp close).1 (isLast ▸ badly)
      · exact (inductionHypothesis close.tail restRead restClose).cons token
    · refine .inside List.mem_cons_self ?_ tokenRead insideClose
      by_contra kept
      rw [MacroTable.expandToken_of_not_replaces (by simpa using kept)] at tokenRead
      cases tokenRead
      exact insideClose (.singleton _)

end BringsSpace

/-- Once a source is lexed, the space beside script marks taken out and the macros replaced,
no space stands beside a script mark, unless a macro brings it. -/
theorem scriptsClose_expanded_iff (macros : MacroTable) (source : String)
    (lexed expanded : List Token) (read : tokenize source = .ok lexed)
    (replaced : macros.expand (dropScriptSpacing lexed) = .ok expanded) :
    ScriptsClose expanded ↔ ¬ BringsSpace macros (dropScriptSpacing lexed) := by
  constructor
  · intro close brings
    exact brings.not_scriptsClose replaced close
  · intro brings
    by_contra spaced
    exact brings (.of_not_scriptsClose (scriptsClose_dropScriptSpacing read) replaced spaced)

/-- A macro whose replacement has space between letters only. -/
theorem scriptsClose_expanded_letters :
    ∃ lexed expanded, tokenize "\\R ^ 2" = .ok lexed ∧
      MacroTable.expand [("\\R", "\x7bR x\x7d")] (dropScriptSpacing lexed) = .ok expanded ∧
      ScriptsClose expanded ∧ ¬ BringsSpace [("\\R", "\x7bR x\x7d")] (dropScriptSpacing lexed) := by
  have read : tokenize "\\R ^ 2" = .ok [⟨.command, "\\R"⟩, ⟨.whitespace, " "⟩, ⟨.control, "^"⟩,
      ⟨.whitespace, " "⟩, ⟨.element, "2"⟩] := by
    cbv
  have replaced : MacroTable.expand [("\\R", "\x7bR x\x7d")] (dropScriptSpacing [⟨.command, "\\R"⟩,
      ⟨.whitespace, " "⟩, ⟨.control, "^"⟩, ⟨.whitespace, " "⟩, ⟨.element, "2"⟩]) =
      .ok [.openBrace, ⟨.element, "R"⟩, ⟨.whitespace, " "⟩, ⟨.element, "x"⟩, .closeBrace,
        ⟨.control, "^"⟩, ⟨.element, "2"⟩] := by
    cbv
  have close : ScriptsClose [.openBrace, ⟨.element, "R"⟩, ⟨.whitespace, " "⟩, ⟨.element, "x"⟩,
      .closeBrace, ⟨.control, "^"⟩, ⟨.element, "2"⟩] := by
    decide
  exact ⟨_, _, read, replaced, close, (scriptsClose_expanded_iff _ _ _ _ read replaced).mp close⟩

/-- The space at the end of a replacement stands before the script mark that follows the macro. -/
theorem space_of_macro_before_mark :
    ∃ lexed expanded, tokenize "\\R^2" = .ok lexed ∧
      MacroTable.expand [("\\R", "R ")] (dropScriptSpacing lexed) = .ok expanded ∧
      ¬ ScriptsClose expanded := by
  refine ⟨[⟨.command, "\\R"⟩, ⟨.control, "^"⟩, ⟨.element, "2"⟩],
    [⟨.element, "R"⟩, ⟨.whitespace, " "⟩, ⟨.control, "^"⟩, ⟨.element, "2"⟩], ?_, ?_, ?_⟩
  · cbv
  · cbv
  · decide

end Macros

end MathMarkup.Tex
