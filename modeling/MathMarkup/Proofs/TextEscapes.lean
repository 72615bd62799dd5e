import MathMarkup.Proofs.Lexemes
import MathMarkup.Text.Edit

/-!
# Escaped text

`escape` puts a backslash before every character that has to be escaped in text.
Resolving the escapes gives the text back, in whatever order that is done: each replacement
leaves the escapes of the characters that are still to come. The scan for the
brace that ends an argument knows the escapes of braces only: a backslash at the end of a
text, itself escaped, takes the meaning from the brace behind it.
-/

namespace MathMarkup.Tex

section Escaping

/-- The text with a backslash before each of the given characters. -/
def escapeEach (characters : List Char) (text : List Char) : List Char :=
  text.flatMap fun character =>
    if character ∈ characters then ['\\', character] else [character]

/-- The text with a backslash before each character that has to be escaped. -/
def escape (text : List Char) : List Char :=
  escapeEach escapedCharacters text

variable {characters text : List Char} {character : Char}

@[simp]
theorem escapeEach_nil : escapeEach characters [] = [] := rfl

theorem escapeEach_nil_left (text : List Char) : escapeEach [] text = text := by
  simp [escapeEach]

theorem escapeEach_cons_of_mem (listed : character ∈ characters) (text : List Char) :
    escapeEach characters (character :: text) =
      '\\' :: character :: escapeEach characters text := by
  simp [escapeEach, listed]

theorem escapeEach_cons_of_notMem (unlisted : character ∉ characters) (text : List Char) :
    escapeEach characters (character :: text) = character :: escapeEach characters text := by
  simp [escapeEach, unlisted]

theorem escapeEach_append (first second : List Char) :
    escapeEach characters (first ++ second) =
      escapeEach characters first ++ escapeEach characters second :=
  List.flatMap_append

/-- Escaped text starts with no character that has an escape, but with the backslash of it. -/
theorem head?_escapeEach_ne (listed : character ∈ characters) (noBackslash : character ≠ '\\') :
    (escapeEach characters text).head? ≠ some character := by
  cases text with
  | nil => simp
  | cons first tail =>
    by_cases isListed : first ∈ characters
    · rw [escapeEach_cons_of_mem isListed, List.head?_cons]
      exact fun same => noBackslash (Option.some.inj same).symm
    · rw [escapeEach_cons_of_notMem isListed, List.head?_cons]
      intro same
      cases same
      exact isListed listed

end Escaping

section Resolving

variable {others rest : List Char} {escaped character : Char}

theorem resolveEscape_escape (escaped : Char) (rest : List Char) :
    resolveEscape escaped ('\\' :: escaped :: rest) = escaped :: resolveEscape escaped rest := by
  simp [resolveEscape]

/-- A character that starts no escape stays. -/
theorem resolveEscape_cons (plain : character = '\\' → rest.head? ≠ some escaped) :
    resolveEscape escaped (character :: rest) = character :: resolveEscape escaped rest := by
  by_cases isBackslash : character = '\\'
  · subst isBackslash
    cases rest with
    | nil => simp [resolveEscape]
    | cons next tail =>
      have other : next ≠ escaped := fun same => plain rfl (congrArg some same)
      simp [resolveEscape, other]
  · rw [resolveEscape]
    exact fun next tail isEscape => absurd isEscape isBackslash

/-- Resolving the escapes of one character leaves those of the others. -/
theorem resolveEscape_escapeEach (unlisted : escaped ∉ others) (text : List Char) :
    resolveEscape escaped (escapeEach (escaped :: others) text) = escapeEach others text := by
  induction text with
  | nil => rfl
  | cons character tail inductionHypothesis =>
    by_cases isEscaped : character = escaped
    · subst isEscaped
      rw [escapeEach_cons_of_mem List.mem_cons_self, escapeEach_cons_of_notMem unlisted,
        resolveEscape_escape, inductionHypothesis]
    -- Behind a backslash of the text stands the start of an escape or a character without one.
    have plain : character = '\\' →
        (escapeEach (escaped :: others) tail).head? ≠ some escaped := fun isBackslash =>
      head?_escapeEach_ne List.mem_cons_self fun same =>
        isEscaped (isBackslash.trans same.symm)
    by_cases isListed : character ∈ others
    · have ofOther (rest : List Char) : (character :: rest).head? ≠ some escaped := fun same =>
        isEscaped (Option.some.inj same)
      rw [escapeEach_cons_of_mem (List.mem_cons_of_mem _ isListed), escapeEach_cons_of_mem isListed,
        resolveEscape_cons fun _ => ofOther _, resolveEscape_cons plain, inductionHypothesis]
    · have notListed : character ∉ escaped :: others := by simp [isEscaped, isListed]
      rw [escapeEach_cons_of_notMem notListed, escapeEach_cons_of_notMem isListed,
        resolveEscape_cons plain, inductionHypothesis]

/-- Resolving the escapes of a character replaces them by the character. -/
theorem resolveEscape_eq_replaceAll (escaped : Char) (text : List Char) :
    resolveEscape escaped text = Text.replaceAll ['\\', escaped] [escaped] text := by
  unfold Text.replaceAll
  fun_induction resolveEscape escaped text with
  | case1 rest inductionHypothesis => simp [Text.replaceFrom, inductionHypothesis]
  | case2 character rest other inductionHypothesis =>
    rw [Text.replaceFrom, if_neg (by simp [Ne.symm other]), inductionHypothesis]
  | case3 character rest plain inductionHypothesis =>
    have absent : ¬ ['\\', escaped].isPrefixOf (character :: rest) = true := by
      intro found
      obtain ⟨tail, isEscape⟩ := List.isPrefixOf_iff_prefix.mp found
      cases isEscape
      exact plain escaped tail rfl rfl
    rw [Text.replaceFrom, if_neg absent, inductionHypothesis]
  | case4 => rfl

/-- The text after the escapes of the given characters are replaced, one character after the
other. -/
def replaceEscapes (characters text : List Char) : List Char :=
  characters.foldl (fun current escaped => Text.replaceAll ['\\', escaped] [escaped] current) text

theorem unescape_eq_replaceEscapes (text : List Char) :
    unescape text = replaceEscapes escapedCharacters text := by
  simp only [unescape, replaceEscapes, resolveEscape_eq_replaceAll]

/-- Replacing the escapes of some characters leaves those of the others. -/
theorem replaceEscapes_escapeEach {resolved left : List Char} (distinct : (resolved ++ left).Nodup)
    (text : List Char) :
    replaceEscapes resolved (escapeEach (resolved ++ left) text) = escapeEach left text := by
  unfold replaceEscapes
  induction resolved with
  | nil => rfl
  | cons escaped others inductionHypothesis =>
    rw [List.cons_append, List.nodup_cons] at distinct
    rw [List.foldl_cons, List.cons_append, ← resolveEscape_eq_replaceAll,
      resolveEscape_escapeEach distinct.1, inductionHypothesis distinct.2]

/-- Escaped text stands for the text that was escaped. -/
theorem unescape_escape (text : List Char) : unescape (escape text) = text := by
  have distinct : (escapedCharacters ++ []).Nodup := by decide
  have resolved := replaceEscapes_escapeEach distinct text
  rwa [List.append_nil, escapeEach_nil_left, ← unescape_eq_replaceEscapes] at resolved

/-- A text in which the eight characters are escaped is resolved to the text. Escapes are
replaced one character after the other, and at every stage those of the later characters are
left as they were written. -/
theorem unescape_inverts_escape (text : String) :
    String.ofList
        (unescape (escapeEach ['{', '}', '\\', '$', '&', '#', '_', '%'] text.toList)) = text ∧
      (∀ written, unescape written = replaceEscapes escapedCharacters written) ∧
      ∀ stage, replaceEscapes (escapedCharacters.take stage) (escape text.toList) =
        escapeEach (escapedCharacters.drop stage) text.toList := by
  refine ⟨?_, unescape_eq_replaceEscapes, fun stage => ?_⟩
  · have resolved := unescape_escape text.toList
    rw [escape, escapedCharacters] at resolved
    rw [resolved, String.ofList_toList]
  · have stages : escapedCharacters.take stage ++ escapedCharacters.drop stage =
        escapedCharacters := List.take_append_drop stage _
    have distinct : escapedCharacters.Nodup := by decide
    rw [← stages] at distinct
    have resolved := replaceEscapes_escapeEach distinct text.toList
    rwa [stages] at resolved

end Resolving

section Closing

variable {text rest : List Char} {character : Char} {depth : Nat}

/-- The text starts with a brace. -/
def StartsWithBrace (text : List Char) : Prop :=
  text.head? = some '{' ∨ text.head? = some '}'

/-- The text ends with a backslash. -/
def EndsWithBackslash (text : List Char) : Prop :=
  text.getLast? = some '\\'

instance (text : List Char) : Decidable (EndsWithBackslash text) :=
  inferInstanceAs (Decidable (_ = _))

theorem closingBraceFrom?_escape (isBrace : character = '{' ∨ character = '}') (rest : List Char) :
    closingBraceFrom? depth ('\\' :: character :: rest) =
      (closingBraceFrom? depth rest).map (· + 2) := by
  rcases isBrace with rfl | rfl <;> rw [closingBraceFrom?]

/-- The scan passes over a character that is no brace and does not escape one. -/
theorem closingBraceFrom?_cons (noBrace : character ≠ '{' ∧ character ≠ '}')
    (plain : character = '\\' → ¬ StartsWithBrace rest) :
    closingBraceFrom? depth (character :: rest) = (closingBraceFrom? depth rest).map (· + 1) := by
  rw [closingBraceFrom?]
  · rintro tail isBackslash rfl
    exact plain isBackslash (.inl rfl)
  · rintro tail isBackslash rfl
    exact plain isBackslash (.inr rfl)
  · exact noBrace.1
  · exact fun _ => noBrace.2
  · exact fun _ _ => noBrace.2

/-- Behind a backslash of escaped text stands a brace only if the text is at its end. -/
theorem not_startsWithBrace_escape (plain : text = [] → ¬ StartsWithBrace rest) :
    ¬ StartsWithBrace (escape text ++ rest) := by
  cases text with
  | nil => exact plain rfl
  | cons first tail =>
    have noOpening : (escape (first :: tail)).head? ≠ some '{' :=
      head?_escapeEach_ne (by decide) (by decide)
    have noClosing : (escape (first :: tail)).head? ≠ some '}' :=
      head?_escapeEach_ne (by decide) (by decide)
    have nonempty : escape (first :: tail) ≠ [] := by
      unfold escape
      by_cases isListed : first ∈ escapedCharacters
      · simp [escapeEach_cons_of_mem isListed]
      · simp [escapeEach_cons_of_notMem isListed]
    unfold StartsWithBrace
    rw [List.head?_append_of_ne_nil _ nonempty]
    exact not_or.mpr ⟨noOpening, noClosing⟩

/-- The scan passes over escaped text, unless its last backslash escapes what follows. -/
theorem closingBraceFrom?_escape_append
    (plain : EndsWithBackslash text → ¬ StartsWithBrace rest) :
    closingBraceFrom? depth (escape text ++ rest) =
      (closingBraceFrom? depth rest).map (· + (escape text).length) := by
  induction text with
  | nil => simp [escape]
  | cons character tail inductionHypothesis =>
    have plainTail : EndsWithBackslash tail → ¬ StartsWithBrace rest := by
      intro ends
      cases tail with
      | nil => cases ends
      | cons next more => exact plain (by simpa [EndsWithBackslash] using ends)
    have atBackslash : character = '\\' → ¬ StartsWithBrace (escape tail ++ rest) := by
      rintro rfl
      refine not_startsWithBrace_escape ?_
      rintro rfl
      exact plain rfl
    have passed := inductionHypothesis plainTail
    by_cases isBrace : character = '{' ∨ character = '}'
    · have isListed : character ∈ escapedCharacters := by
        rcases isBrace with rfl | rfl <;> decide
      rw [escape, escapeEach_cons_of_mem isListed, ← escape, List.cons_append, List.cons_append,
        closingBraceFrom?_escape isBrace, passed]
      simp [Function.comp_def, Nat.add_assoc]
    rw [not_or] at isBrace
    by_cases isListed : character ∈ escapedCharacters
    · have noEscape : ¬ StartsWithBrace (character :: (escape tail ++ rest)) := by
        simp [StartsWithBrace, isBrace]
      rw [escape, escapeEach_cons_of_mem isListed, ← escape, List.cons_append, List.cons_append,
        closingBraceFrom?_cons (by decide) (fun _ => noEscape),
        closingBraceFrom?_cons isBrace atBackslash, passed]
      simp [Function.comp_def, Nat.add_assoc]
    · rw [escape, escapeEach_cons_of_notMem isListed, ← escape, List.cons_append,
        closingBraceFrom?_cons isBrace atBackslash, passed]
      simp [Function.comp_def, Nat.add_assoc]

/-- Escaped text ends at the brace behind it. -/
theorem enclosed_escape (noBackslash : ¬ EndsWithBackslash text) :
    Lexer.Enclosed (escape text) := by
  intro rest
  rw [closingBrace?, closingBraceFrom?_escape_append fun ends => absurd ends noBackslash]
  simp [closingBraceFrom?]

/-- Behind escaped text that ends with a backslash a brace does not count. -/
theorem closingBrace?_escape_of_ends (ends : EndsWithBackslash text) (rest : List Char) :
    closingBrace? (escape text ++ '}' :: rest) =
      (closingBrace? rest).map (· + ((escape text).length + 1)) := by
  obtain ⟨front, rfl⟩ := List.getLast?_eq_some_iff.mp ends
  have last : escape (front ++ ['\\']) = escape front ++ ['\\', '\\'] :=
    escapeEach_append front ['\\']
  have noBrace (tail : List Char) : ¬ StartsWithBrace ('\\' :: tail) := by simp [StartsWithBrace]
  rw [last, List.append_assoc, closingBrace?, closingBrace?, List.cons_append, List.cons_append,
    List.nil_append, closingBraceFrom?_escape_append fun _ => noBrace _,
    closingBraceFrom?_cons (by decide) fun _ => noBrace _, closingBraceFrom?_escape (.inr rfl)]
  simp only [Option.map_map, Function.comp_def, List.length_append, List.length_cons,
    List.length_nil]
  congr 1
  funext offset
  omega

end Closing

section Source

/-- The source of a text argument: the text in escaped form, in the braces of the command. -/
def textSource (text : String) : String :=
  "\\text\x7b" ++ String.ofList (escape text.toList) ++ "\x7d"

theorem toList_textSource (text : String) :
    (textSource text).toList =
      '\\' :: (['t', 'e', 'x', 't'] ++ '{' :: (escape text.toList ++ ['}'])) := by
  simp [textSource]

/-- The command in front of a text argument is read by itself. -/
theorem firstToken_text (body : List Char) :
    Lexer.firstToken '\\' (['t', 'e', 'x', 't'] ++ '{' :: body) =
      (⟨.command, "\\text"⟩, '{' :: body) := by
  have ends : Lexer.Stops Char.isAlpha ('{' :: body) := by
    rintro character ⟨⟩
    rfl
  have letters : ∀ character ∈ ['e', 'x', 't'], character.isAlpha = true := by
    simp only [List.mem_cons, List.not_mem_nil, or_false]
    rintro character (rfl | rfl | rfl) <;> rfl
  have lexeme : Lexer.Lexeme ('\\' :: 't' :: ['e', 'x', 't']) ⟨.command, "\\text"⟩ ('{' :: body) :=
    .command rfl letters ends
  obtain ⟨first, others, isName, found⟩ := lexeme.firstToken_eq
  cases isName
  exact found

/-- A text argument that ends is read as its text. -/
theorem textArgument_enclosed (command : Token) {body : List Char} (enclosed : Lexer.Enclosed body)
    (rest : List Char) :
    Lexer.textArgument command ('{' :: (body ++ '}' :: rest)) =
      .ok ([.openBrace, ⟨.text, String.ofList (unescape body)⟩, .closeBrace], rest) :=
  Lexer.textArgument_eq_ok_iff.mpr ⟨[], body, rfl, by simp, enclosed, rfl⟩

theorem textArgument_unclosed (command : Token) {body : List Char}
    (unclosed : closingBrace? body = none) :
    Lexer.textArgument command ('{' :: body) = .error (.unmatchedBraces none) := by
  have noSpace : ('{' :: body).dropWhile Lexer.isSpace = '{' :: body := rfl
  rw [Lexer.textArgument, noSpace]
  simp only [unclosed]

/-- A source that is one text argument is read as what the argument is read as. -/
theorem tokenize_textSource (text : String) :
    tokenize (textSource text) =
      match Lexer.textArgument ⟨.command, "\\text"⟩ ('{' :: (escape text.toList ++ ['}'])) with
      | .error cause => .error cause
      | .ok (argument, after) =>
        (Lexer.tokens after).map (⟨.command, "\\text"⟩ :: argument ++ ·) := by
  have takes : Lexer.takesText ⟨.command, "\\text"⟩ = true := by decide
  rw [tokenize, toList_textSource, Lexer.tokens_cons, Lexer.step, firstToken_text]
  simp only [takes, if_true]
  cases Lexer.textArgument ⟨.command, "\\text"⟩ ('{' :: (escape text.toList ++ ['}'])) <;> rfl

theorem tokenize_textSource_of_not_ends {text : String}
    (noBackslash : ¬ EndsWithBackslash text.toList) :
    tokenize (textSource text) =
      .ok [⟨.command, "\\text"⟩, .openBrace, ⟨.text, text⟩, .closeBrace] := by
  rw [tokenize_textSource, textArgument_enclosed _ (enclosed_escape noBackslash), unescape_escape,
    String.ofList_toList]
  simp only [Lexer.tokens_nil]
  rfl

theorem tokenize_textSource_of_ends {text : String} (ends : EndsWithBackslash text.toList) :
    tokenize (textSource text) = .error (.unmatchedBraces none) := by
  have unclosed : closingBrace? (escape text.toList ++ ['}']) = none := by
    rw [closingBrace?_escape_of_ends ends]
    rfl
  rw [tokenize_textSource, textArgument_unclosed _ unclosed]

/-- Escaped text is read back from its argument exactly if it does not end with a backslash.
If it does, the brace behind it counts as escaped, and none is left to end the argument. -/
theorem escaped_text_read_back_iff (text : String) :
    (tokenize (textSource text) =
        .ok [⟨.command, "\\text"⟩, .openBrace, ⟨.text, text⟩, .closeBrace] ↔
      ¬ EndsWithBackslash text.toList) ∧
    (EndsWithBackslash text.toList →
      tokenize (textSource text) = .error (.unmatchedBraces none)) := by
  refine ⟨⟨fun read ends => ?_, tokenize_textSource_of_not_ends⟩, tokenize_textSource_of_ends⟩
  rw [tokenize_textSource_of_ends ends] at read
  cases read

/-- The text that is one backslash. -/
theorem backslash_escapes_brace :
    textSource "\\" = "\\text\x7b\\\\\x7d" ∧
      tokenize "\\text\x7b\\\\\x7d" = .error (.unmatchedBraces none) := by
  have source : textSource "\\" = "\\text\x7b\\\\\x7d" := by decide
  have refused : tokenize (textSource "\\") = .error (.unmatchedBraces none) :=
    tokenize_textSource_of_ends (by decide)
  exact ⟨source, source ▸ refused⟩

end Source

end MathMarkup.Tex
