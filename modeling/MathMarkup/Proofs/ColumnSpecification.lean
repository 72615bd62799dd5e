import MathMarkup.Proofs.EnvironmentText
import MathMarkup.Proofs.RedundantBraces

/-!
# The column specification of an array

The braces directly after the name of an array are its column specification, and are passed
over: the grid is that of a matrix without them. With space between the name and the braces
they are no column specification but the start of the first cell.
-/

namespace MathMarkup.Tex

namespace Grammar

variable {options : ParseOptions} {reading : Reading} {name : String} {tree : Node}
  {specified others : List Token}

/-- All of the tokens after the command as an environment. -/
theorem environment_iff {node : Node} {rest : List Token}
    (specification : Parser.columnSpecificationLength name
      (specified ++ others ++ .endEnvironment :: bracedText name) = .ok specified.length)
    (balanced : Balanced .beginEnvironment .endEnvironment (specified ++ others)) :
    Environment reading (bracedText name ++ (specified ++ others ++ .endEnvironment :: bracedText name))
        node rest ↔
      ∃ rows, Rows reading (Parser.withoutTrailingLayout (others.dropWhile Token.isLayout)) rows ∧
        node = .beginend name rows ∧ rest = [] := by
  constructor
  · intro read
    generalize same : bracedText name ++ (specified ++ others ++ .endEnvironment :: bracedText name) =
      input at read
    obtain @⟨other, tokens, inside, _, columns, rows, split, otherBalanced, found, grid⟩ := read
    obtain ⟨rfl, rfl⟩ : name = other ∧
        specified ++ others ++ .endEnvironment :: bracedText name = tokens := by
      simpa [bracedText, braced] using same
    obtain ⟨rfl, sameRest⟩ := Balanced.unique (by decide) split balanced otherBalanced
    obtain rfl := Except.ok.inj (specification.symm.trans found)
    rw [drop_specification] at grid
    refine ⟨rows, grid, rfl, ?_⟩
    simpa [bracedText, braced] using sameRest
  · rintro ⟨rows, grid, rfl, rfl⟩
    rw [← drop_specification specified others (bracedText name)] at grid
    exact .intro rfl balanced specification grid

/-- All of the tokens as an environment. -/
theorem sequence_environment_iff {levels : Nat}
    (specification : Parser.columnSpecificationLength name
      (specified ++ others ++ .endEnvironment :: bracedText name) = .ok specified.length)
    (balanced : Balanced .beginEnvironment .endEnvironment (specified ++ others)) :
    Sequence (Reads options levels) options (.beginEnvironment :: (bracedText name ++
        (specified ++ others ++ .endEnvironment :: bracedText name))) tree ↔
      ∃ depth rows, levels = depth + 1 ∧
        Rows (Reads options depth) (Parser.withoutTrailingLayout (others.dropWhile Token.isLayout))
          rows ∧ tree = .beginend name rows := by
  constructor
  · intro read
    cases levels with
    | zero => cases read.eq_nil
    | succ depth =>
      have inner : ∀ ⦃node rest⦄, Reads options (depth + 1) (.beginEnvironment :: (bracedText name ++
          (specified ++ others ++ .endEnvironment :: bracedText name))) node rest →
          ∃ rows, Rows (Reads options depth)
            (Parser.withoutTrailingLayout (others.dropWhile Token.isLayout)) rows ∧
            node = .beginend name rows ∧ rest = [] := fun node rest operand =>
        (environment_iff specification balanced).mp ((operand_begin_iff options).mpr operand)
      obtain ⟨node, operand, rfl⟩ := read.of_operand fun node rest operand => by
        obtain ⟨-, -, -, isEnd⟩ := inner operand
        exact isEnd
      obtain ⟨rows, grid, rfl, -⟩ := inner operand
      exact ⟨depth, rows, rfl, grid, rfl⟩
  · rintro ⟨depth, rows, rfl, grid, rfl⟩
    have operand := (operand_begin_iff options).mp
      ((environment_iff specification balanced).mpr ⟨rows, grid, rfl, rfl⟩)
    have scripted : Scripted (Reads options (depth + 1)) _ (.beginend name rows) [] :=
      .intro operand (.none 0 []) (by simp [Settled])
    exact sequence_of_scripted (Reads.progresses options _) scripted ⟨rfl, rfl⟩

/-- An environment that is opened has an end. -/
theorem Sequence.endEnvironment_mem {levels : Nat} {tokens : List Token}
    (read : Sequence (Reads options levels) options (.beginEnvironment :: tokens) tree) :
    .endEnvironment ∈ tokens := by
  cases levels with
  | zero => cases read.eq_nil
  | succ depth =>
    obtain ⟨parts, -⟩ := read
    cases parts with
    | cons first others =>
      obtain ⟨operand, -, -⟩ := first
      obtain ⟨split, -, -, -⟩ := (operand_begin_iff options).mpr operand
      simp [split]

end Grammar

open Grammar Lexer

variable {options : ParseOptions}

/-- The source of an environment. -/
def environmentSource (name inside : String) : String :=
  "\\begin\x7b" ++ name ++ "\x7d" ++ inside ++ "\\end\x7b" ++ name ++ "\x7d"

theorem toList_environmentSource (name inside : String) :
    (environmentSource name inside).toList =
      named .beginEnvironment name ++ (inside.toList ++ named .endEnvironment name) := by
  simp [environmentSource, named, Token.beginEnvironment, Token.endEnvironment]

theorem parseSource_nil (source : String) :
    parseSource options [] source = (spacedTokens source.toList).bind (parseTokens options) := by
  rw [parseSource_eq_bind]
  unfold spacedTokens tokenize
  cases Lexer.tokens source.toList with
  | error cause => rfl
  | ok tokens => simp only [Except.map, Except.bind, MacroTable.expand_nil]

theorem balanced_of_notMem {tokens : List Token} (noBegin : .beginEnvironment ∉ tokens)
    (noEnd : .endEnvironment ∉ tokens) : Balanced .beginEnvironment .endEnvironment tokens := by
  refine .ofNeutral fun token member => ?_
  simp only [beq_eq_false_iff_ne]
  exact ⟨fun isBegin => noBegin (isBegin ▸ member), fun isEnd => noEnd (isEnd ▸ member)⟩

/-- The rows of an environment, given the tokens in it before the text of its body. -/
def GridOf (options : ParseOptions) (kept : List Token) (body : String) (rows : List (List Node)) :
    Prop :=
  ∃ tokens depth, IsBody body.toList tokens ∧ options.maxDepth.toNat = depth + 1 ∧
    Rows (Reads options depth)
      (Parser.withoutTrailingLayout ((kept ++ tokens).dropWhile Token.isLayout)) rows

/-- Layout at the start does not count. -/
theorem gridOf_cons {token : Token} {kept : List Token} {body : String} {rows : List (List Node)}
    (layout : token.isLayout = true) :
    GridOf options (token :: kept) body rows ↔ GridOf options kept body rows := by
  simp [GridOf, layout]

section Source

variable {name inside body : String} {front : List Char} {before : List Token} {tree : Node}

theorem spacedTokens_environmentSource (word : IsWord name)
    (split : inside.toList = front ++ body.toList) (ahead : ReadsAhead front before) :
    spacedTokens (environmentSource name inside).toList =
      (spacedTokens (body.toList ++ named .endEnvironment name)).map
        (.beginEnvironment :: bracedText name ++ before ++ ·) := by
  rw [toList_environmentSource, split, List.append_assoc, ← List.append_assoc (named _ _),
    (readsAhead_begin word).append ahead]

theorem IsBody.parseSource_eq {tokens : List Token} (isBody : IsBody body.toList tokens)
    (word : IsWord name) (split : inside.toList = front ++ body.toList)
    (ahead : ReadsAhead front before) :
    parseSource options [] (environmentSource name inside) =
      parseTokens options (.beginEnvironment :: (bracedText name ++
        (before ++ tokens ++ .endEnvironment :: bracedText name))) := by
  rw [parseSource_nil, spacedTokens_environmentSource word split ahead, isBody.read word]
  simp [Except.map, Except.bind]

/-- In an environment that is read the body ends where the environment does. -/
theorem exists_isBody_of_parseSource (word : IsWord name) (simple : IsSimple body.toList)
    (split : inside.toList = front ++ body.toList) (ahead : ReadsAhead front before)
    (noEnd : .endEnvironment ∉ before)
    (read : parseSource options [] (environmentSource name inside) = .ok tree) :
    ∃ tokens, IsBody body.toList tokens := by
  rcases exists_isBody_or simple with isBody | endless
  · exact isBody
  rw [parseSource_nil, spacedTokens_environmentSource word split ahead] at read
  cases rest : spacedTokens (body.toList ++ named .endEnvironment name) with
  | error cause => simp [rest, Except.map, Except.bind] at read
  | ok tokens =>
    rw [rest] at read
    have ends := (parseTokens_eq_ok_iff.mp read).endEnvironment_mem
    rcases List.mem_append.mp ends with inFront | inRest
    · rcases List.mem_append.mp inFront with inName | inFront
      · exact absurd rfl (kind_of_mem_bracedText name _ inName).1
      · exact absurd inFront noEnd
    · exact absurd inRest (endless word rest)

/-- The grid of an environment is made of what stands in it after the column specification. -/
theorem parseSource_environment_iff (options : ParseOptions) (specified kept : List Token)
    (word : IsWord name) (simple : IsSimple body.toList)
    (split : inside.toList = front ++ body.toList) (ahead : ReadsAhead front (specified ++ kept))
    (noBegin : .beginEnvironment ∉ specified ++ kept) (noEnd : .endEnvironment ∉ specified ++ kept)
    (specification : ∀ tail, Parser.columnSpecificationLength name (specified ++ (kept ++ tail)) =
      .ok specified.length) :
    parseSource options [] (environmentSource name inside) = .ok tree ↔
      ∃ rows, tree = .beginend name rows ∧ GridOf options kept body rows := by
  have parsed {tokens : List Token} (isBody : IsBody body.toList tokens) :
      parseSource options [] (environmentSource name inside) = .ok tree ↔
        ∃ depth rows, options.maxDepth.toNat = depth + 1 ∧ Rows (Reads options depth)
          (Parser.withoutTrailingLayout ((kept ++ tokens).dropWhile Token.isLayout)) rows ∧
          tree = .beginend name rows := by
    have found := specification (tokens ++ .endEnvironment :: bracedText name)
    have balanced := (balanced_of_notMem noBegin noEnd).append
      (balanced_of_notMem isBody.noBegin isBody.noEnd)
    rw [isBody.parseSource_eq word split ahead, parseTokens_eq_ok_iff]
    rw [List.append_assoc specified] at balanced ⊢
    exact sequence_environment_iff (by simpa using found) balanced
  constructor
  · intro read
    obtain ⟨tokens, isBody⟩ := exists_isBody_of_parseSource word simple split ahead noEnd read
    obtain ⟨depth, rows, levels, grid, isTree⟩ := (parsed isBody).mp read
    exact ⟨rows, isTree, tokens, depth, isBody, levels, grid⟩
  · rintro ⟨rows, isTree, tokens, depth, isBody, levels, grid⟩
    exact (parsed isBody).mpr ⟨depth, rows, levels, grid, isTree⟩

end Source

theorem columnSpecificationLength_braced {tokens : List Token}
    (balanced : Balanced .openBrace .closeBrace tokens) (tail : List Token) :
    Parser.columnSpecificationLength "array" (braced tokens ++ tail) = .ok (braced tokens).length := by
  have found : Parser.closing? .openBrace .closeBrace (tokens ++ .closeBrace :: tail) =
      some tokens.length :=
    (closing?_eq_some_iff (by decide)).mpr ⟨tokens, tail, rfl, rfl, balanced⟩
  simp [Parser.columnSpecificationLength, Parser.closingBrace, braced, found, Except.map]

theorem isWord_matrix : IsWord "matrix" := List.all_eq_true.mp rfl

theorem isWord_array : IsWord "array" := List.all_eq_true.mp rfl

/-- The text is read as the tokens, and ends at the brace that is put behind it. -/
structure IsSpecification (text : String) (tokens : List Token) : Prop where
  lexes : Lexes text.toList tokens
  closed : ∀ last ∈ tokens.getLast?, IsClosed last
  balanced : Balanced .openBrace .closeBrace tokens
  simple : IsSimple text.toList

namespace IsSpecification

variable {specification blanks body : String} {tokens : List Token} {tree : Node}

theorem balanced_spaced (isSpecification : IsSpecification specification tokens) :
    Balanced .openBrace .closeBrace (dropScriptSpacing tokens) := by
  have neutral (token : Token) (space : token.kind = .whitespace) :
      (token == .openBrace) = false ∧ (token == .closeBrace) = false := by
    simp only [beq_eq_false_iff_ne]
    constructor
    all_goals
      rintro rfl
      cases space
  exact (depthAfter?_dropScriptSpacingAfter neutral 0 none tokens).trans isSpecification.balanced

/-- Blanks and a column specification bring no command that is not in the specification. -/
theorem notMem (isSpecification : IsSpecification specification tokens) (blanks : List Char)
    {name : String} (absent : ¬ name.toList <:+: specification.toList) :
    ⟨.command, name⟩ ∉ (spaceOf blanks).toList ++ braced (dropScriptSpacing tokens) := by
  have kept := (dropScriptSpacingAfter_sublist none tokens).subset
  simp only [braced, List.mem_append, Option.mem_toList, List.mem_cons, List.not_mem_nil, or_false]
  rintro (inSpace | (isOpener | inText) | isCloser)
  · cases kind_of_mem_spaceOf _ inSpace
  · cases isOpener
  · exact absent (isSpecification.lexes.infix_of_mem (kept inText))
  · cases isCloser

/-- Directly after the name of an array the braces are passed over. -/
theorem array_iff (isSpecification : IsSpecification specification tokens)
    (simple : IsSimple body.toList) :
    parseSource options [] (environmentSource "array" ("\x7b" ++ specification ++ "\x7d" ++ body)) =
        .ok tree ↔ ∃ rows, tree = .beginend "array" rows ∧ GridOf options [] body rows := by
  have ahead := readsAhead_braced (List.forall_mem_nil _) isSpecification.lexes isSpecification.closed
  have noBegin := isSpecification.notMem [] isSpecification.simple.noBegin
  have noEnd := isSpecification.notMem [] isSpecification.simple.noEnd
  simp only [spaceOf, Option.toList_none, List.nil_append] at ahead noBegin noEnd
  rw [← List.append_nil (braced _)] at ahead noBegin noEnd
  exact parseSource_environment_iff options _ [] isWord_array simple (by simp) ahead noBegin noEnd
    (columnSpecificationLength_braced isSpecification.balanced_spaced)

/-- After space they are the start of the grid. -/
theorem array_iff_of_blanks (isSpecification : IsSpecification specification tokens)
    (simple : IsSimple body.toList) (spaces : ∀ blank ∈ blanks.toList, isSpace blank = true)
    (nonempty : blanks ≠ "") :
    parseSource options []
        (environmentSource "array" (blanks ++ "\x7b" ++ specification ++ "\x7d" ++ body)) = .ok tree ↔
      ∃ rows, tree = .beginend "array" rows ∧
        GridOf options (braced (dropScriptSpacing tokens)) body rows := by
  have ahead := readsAhead_braced spaces isSpecification.lexes isSpecification.closed
  have noBegin := isSpecification.notMem blanks.toList isSpecification.simple.noBegin
  have noEnd := isSpecification.notMem blanks.toList isSpecification.simple.noEnd
  obtain ⟨first, others, spelled⟩ := List.exists_cons_of_ne_nil
    (show blanks.toList ≠ [] by simpa using nonempty)
  rw [spelled] at ahead noBegin noEnd
  have layout : Token.isLayout ⟨.whitespace, String.ofList (first :: others)⟩ = true := rfl
  refine (parseSource_environment_iff options [] (_ :: braced _) isWord_array simple
    (by simp [spelled]) ahead noBegin noEnd fun tail => rfl).trans ?_
  simp only [gridOf_cons layout]

/-- In a matrix they are so in any case. -/
theorem matrix_iff (isSpecification : IsSpecification specification tokens)
    (simple : IsSimple body.toList) :
    parseSource options [] (environmentSource "matrix" ("\x7b" ++ specification ++ "\x7d" ++ body)) =
        .ok tree ↔
      ∃ rows, tree = .beginend "matrix" rows ∧
        GridOf options (braced (dropScriptSpacing tokens)) body rows := by
  have ahead := readsAhead_braced (List.forall_mem_nil _) isSpecification.lexes isSpecification.closed
  have noBegin := isSpecification.notMem [] isSpecification.simple.noBegin
  have noEnd := isSpecification.notMem [] isSpecification.simple.noEnd
  have noArray : "matrix" ≠ "array" := by decide
  exact parseSource_environment_iff options [] (braced _) isWord_matrix simple (by simp) ahead noBegin
    noEnd fun tail => columnSpecificationLength_of_ne noArray _

end IsSpecification

theorem parseSource_matrix_iff {body : String} {tree : Node} (simple : IsSimple body.toList) :
    parseSource options [] (environmentSource "matrix" body) = .ok tree ↔
      ∃ rows, tree = .beginend "matrix" rows ∧ GridOf options [] body rows := by
  have noArray : "matrix" ≠ "array" := by decide
  exact parseSource_environment_iff options [] [] isWord_matrix simple rfl .nil (by simp) (by simp)
    fun tail => columnSpecificationLength_of_ne noArray _

/-- The column specification directly after the name of an array is passed over: the array has
the grid of the matrix without it. With blanks before it, it is a part of the first cell. -/
theorem array_specification_iff (options : ParseOptions) {specification body blanks : String}
    {tokens : List Token} (lexed : tokenize specification = .ok tokens)
    (balanced : Balanced .openBrace .closeBrace tokens)
    (closed : tokens.getLast? ≠ some ⟨.unknown, "\\"⟩) (simple : IsSimple specification.toList)
    (simpleBody : IsSimple body.toList)
    (spaces : ∀ blank ∈ blanks.toList, blank = ' ' ∨ blank = '\t') :
    (∀ tree, parseSource options [] (environmentSource "matrix" body) = .ok tree →
      ∃ rows, tree = .beginend "matrix" rows) ∧
    ∀ tree,
      parseSource options []
          (environmentSource "array" (blanks ++ "\x7b" ++ specification ++ "\x7d" ++ body)) = .ok tree ↔
        ∃ rows, tree = .beginend "array" rows ∧
          parseSource options [] (environmentSource "matrix"
            (if blanks = "" then body else "\x7b" ++ specification ++ "\x7d" ++ body)) =
              .ok (.beginend "matrix" rows) := by
  have isBlank : ∀ blank ∈ blanks.toList, isSpace blank = true := by simpa [isSpace] using spaces
  have lexes := tokens_eq_ok_iff.mp lexed
  have closedAll : ∀ last ∈ tokens.getLast?, IsClosed last := fun last isLast =>
    ⟨lexes.kind_ne_comment simple.noComment last (List.mem_of_getLast? isLast),
      fun isLone => closed (isLone ▸ isLast)⟩
  have isSpecification : IsSpecification specification tokens := ⟨lexes, closedAll, balanced, simple⟩
  refine ⟨fun tree read => ?_, fun tree => ?_⟩
  · obtain ⟨rows, isTree, -⟩ := (parseSource_matrix_iff simpleBody).mp read
    exact ⟨rows, isTree⟩
  by_cases isEmpty : blanks = ""
  · simp only [isEmpty, if_true, String.empty_append, isSpecification.array_iff simpleBody,
      parseSource_matrix_iff simpleBody]
    simp
  · simp only [if_neg isEmpty, isSpecification.array_iff_of_blanks simpleBody isBlank isEmpty,
      isSpecification.matrix_iff simpleBody]
    simp

theorem array_specification_iff_twoColumns :
    parseSource { symbols := [] } [] "\\begin\x7barray\x7d\x7bc|c\x7da&b\\end\x7barray\x7d" =
      .ok (.beginend "array" [[.element "a", .element "b"]]) := by
  have lexed : tokenize "c|c" = .ok [⟨.element, "c"⟩, ⟨.element, "|"⟩, ⟨.element, "c"⟩] := by cbv
  have simple : IsSimple "c|c".toList := ⟨by decide, by decide, by decide⟩
  have simpleBody : IsSimple "a&b".toList := ⟨by decide, by decide, by decide⟩
  have noBlanks : ∀ blank ∈ "".toList, blank = ' ' ∨ blank = '\t' := by simp
  have spelled : environmentSource "array" ("" ++ "\x7b" ++ "c|c" ++ "\x7d" ++ "a&b") =
      "\\begin\x7barray\x7d\x7bc|c\x7da&b\\end\x7barray\x7d" := rfl
  have matrix : parseSource { symbols := [] } [] (environmentSource "matrix" "a&b") =
      .ok (.beginend "matrix" [[.element "a", .element "b"]]) := by
    have lexed : tokenize (environmentSource "matrix" "a&b") = .ok (.beginEnvironment ::
        bracedText "matrix" ++ [⟨.element, "a"⟩, ⟨.control, "&"⟩, ⟨.element, "b"⟩] ++
        .endEnvironment :: bracedText "matrix") :=
      tokens_of_step (.beginEnvironment :: bracedText "matrix") "a&b\\end\x7bmatrix\x7d" rfl <|
      tokens_of_step [⟨.element, "a"⟩] "&b\\end\x7bmatrix\x7d" rfl <|
      tokens_of_step [⟨.control, "&"⟩] "b\\end\x7bmatrix\x7d" rfl <|
      tokens_of_step [⟨.element, "b"⟩] "\\end\x7bmatrix\x7d" rfl <|
      tokens_of_step (.endEnvironment :: bracedText "matrix") "" rfl tokens_nil
    unfold parseSource sourceTokens
    rw [lexed]
    cbv
  have columns := array_specification_iff { symbols := [] } lexed (by decide) (by decide) simple
    simpleBody noBlanks
  rw [← spelled]
  exact (columns.2 _).mpr ⟨_, rfl, matrix⟩

/-- A blank before the column specification of an array makes a cell of it. -/
theorem blank_before_specification :
    parseSource { symbols := [] } [] "\\begin\x7bmatrix\x7da\\end\x7bmatrix\x7d" =
        .ok (.beginend "matrix" [[.element "a"]]) ∧
      parseSource { symbols := [] } [] "\\begin\x7barray\x7d \x7bc\x7da\\end\x7barray\x7d" =
        .ok (.beginend "array" [[.ordgroup "" [.element "c", .element "a"]]]) := by
  have lexed : tokenize "\\begin\x7bmatrix\x7da\\end\x7bmatrix\x7d" = .ok (.beginEnvironment ::
      bracedText "matrix" ++ ⟨.element, "a"⟩ :: .endEnvironment :: bracedText "matrix") :=
    tokens_of_step (.beginEnvironment :: bracedText "matrix") "a\\end\x7bmatrix\x7d" rfl <|
    tokens_of_step [⟨.element, "a"⟩] "\\end\x7bmatrix\x7d" rfl <|
    tokens_of_step (.endEnvironment :: bracedText "matrix") "" rfl tokens_nil
  have lexedArray : tokenize "\\begin\x7barray\x7d \x7bc\x7da\\end\x7barray\x7d" =
      .ok (.beginEnvironment :: bracedText "array" ++ ⟨.whitespace, " "⟩ :: .openBrace ::
        ⟨.element, "c"⟩ :: .closeBrace :: ⟨.element, "a"⟩ :: .endEnvironment :: bracedText "array") :=
    tokens_of_step (.beginEnvironment :: bracedText "array") " \x7bc\x7da\\end\x7barray\x7d" rfl <|
    tokens_of_step [⟨.whitespace, " "⟩] "\x7bc\x7da\\end\x7barray\x7d" rfl <|
    tokens_of_step [.openBrace] "c\x7da\\end\x7barray\x7d" rfl <|
    tokens_of_step [⟨.element, "c"⟩] "\x7da\\end\x7barray\x7d" rfl <|
    tokens_of_step [.closeBrace] "a\\end\x7barray\x7d" rfl <|
    tokens_of_step [⟨.element, "a"⟩] "\\end\x7barray\x7d" rfl <|
    tokens_of_step (.endEnvironment :: bracedText "array") "" rfl tokens_nil
  constructor
  · unfold parseSource sourceTokens
    rw [lexed]
    cbv
  · unfold parseSource sourceTokens
    rw [lexedArray]
    cbv

end MathMarkup.Tex
