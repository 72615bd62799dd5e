import MathMarkup.Text.Edit
import MathMarkup.Yaml.Node

/-!
# Reading YAML

Block mappings and sequences by their indentation, flow collections in brackets and
braces, and scalars with or without quotes. Anchors, tags, directives, block scalars
and explicit keys are refused. A document that is not well formed is `none`.

The readers of nested nodes take the number of levels and entries that are left;
`read` gives them the length of the text, which no document exceeds.
-/

namespace MathMarkup.Yaml

open Data

/-- A line break. -/
def isBreak (character : Char) : Bool :=
  character == '\n' || character == '\x85' || character == '\u2028' || character == '\u2029'

/-- The text is at its end, at a space or at a line break. -/
def atGap : List Char → Bool
  | [] => true
  | character :: _ => character == ' ' || character == '\t' || isBreak character

/-- A place in a text: the column, counted from the last line break, and what follows. -/
structure Place where
  column : Nat
  rest : List Char

/-- Passes over spaces, line breaks and comments, and says whether a line ended. -/
def skipLayout (comment ended : Bool) (column : Nat) : List Char → Place × Bool
  | [] => (⟨column, []⟩, ended)
  | character :: rest =>
    if isBreak character then skipLayout false true 0 rest
    else if comment || character == '#' then skipLayout true ended (column + 1) rest
    else if character == ' ' then skipLayout false ended (column + 1) rest
    else (⟨column, character :: rest⟩, ended)

/-- The next place that is not layout, and whether a line ended on the way. -/
def nextPlace (place : Place) : Place × Bool :=
  skipLayout false false place.column place.rest

/-- The text after layout, where lines do not matter. -/
def afterLayout (text : List Char) : List Char :=
  (nextPlace ⟨0, text⟩).1.rest

/-- The text starts with a mark between documents. -/
def startsWithMark (mark text : List Char) : Bool :=
  mark.isPrefixOf text && atGap (text.drop 3)

/-- The text starts with one of the marks between documents. -/
def startsWithAnyMark (text : List Char) : Bool :=
  startsWithMark ['-', '-', '-'] text || startsWithMark ['.', '.', '.'] text

/-- The place ends the document. -/
def Place.isEnd (place : Place) : Bool :=
  place.rest.isEmpty || place.column == 0 && startsWithAnyMark place.rest

/-- Signs that have a meaning in flow collections. -/
def flowSigns : List Char := [',', '[', ']', '{', '}']

/-- Signs that no plain scalar starts with. -/
def indicators : List Char :=
  ['-', '?', ':', ',', '[', ']', '{', '}', '#', '&', '*', '!', '|', '>', '\'', '"', '%', '@', '\x60']

/-- The text starts with a plain scalar. -/
def startsPlain (flow : Bool) : List Char → Bool
  | [] => false
  | character :: rest =>
    !atGap [character] && !indicators.contains character
      || !atGap rest && (character == '-' || !flow && (character == '?' || character == ':'))

/-- The character ends a plain scalar, given what follows it. -/
def endsPlain (flow : Bool) (character : Char) (rest : List Char) : Bool :=
  character == '\t' || isBreak character
    || character == ':' && (atGap rest || flow && (rest.head?.any flowSigns.contains))
    || flow && (character == '?' || flowSigns.contains character)

/-- The part of a plain scalar on one line, and what follows it. The number of spaces
just passed is given. -/
def plainLine (flow : Bool) : Nat → List Char → List Char × List Char
  | _, [] => ([], [])
  | spaces, character :: rest =>
    if character = ' ' then plainLine flow (spaces + 1) rest
    else if endsPlain flow character rest || spaces > 0 && character == '#' then
      ([], character :: rest)
    else
      let (text, after) := plainLine flow 0 rest
      (List.replicate spaces ' ' ++ character :: text, after)

/-- The next line with something on it, after the number of empty lines before it. -/
def nextLine (column empty : Nat) : List Char → Option (Place × Nat)
  | [] => none
  | character :: rest =>
    if column = 0 && startsWithAnyMark (character :: rest) then none
    else if isBreak character then nextLine 0 (empty + 1) rest
    else if character = ' ' then nextLine (column + 1) empty rest
    else some (⟨column, character :: rest⟩, empty)

/-- What stands for the end of a line and a number of empty lines after it in a scalar. -/
def folded : Nat → List Char
  | 0 => [' ']
  | empty => List.replicate empty '\n'

/-- The end of a line inside quotes, with the number of empty lines after it. -/
structure LineEnd where
  /-- A backslash stands before the line break, which then is no space. -/
  escaped : Bool
  empty : Nat

/-- What stands for the end of a line inside quotes. -/
def LineEnd.text (lineEnd : LineEnd) : List Char :=
  if lineEnd.escaped then List.replicate lineEnd.empty '\n' else folded lineEnd.empty

/-- The end of a line after what was passed since the last text. -/
def LineEnd.after : Option LineEnd → LineEnd
  | none => ⟨false, 0⟩
  | some lineEnd => { lineEnd with empty := lineEnd.empty + 1 }

/-- A plain scalar, which may go on over lines that are indented at least to a column. -/
def plain (flow : Bool) (indent : Nat) : Nat → List Char → List Char × List Char
  | 0, text => plainLine flow 0 text
  | lines + 1, text =>
    let (first, after) := plainLine flow 0 text
    match after with
    | character :: rest =>
      if isBreak character then
        match nextLine 0 0 rest with
        | none => (first, after)
        | some (place, empty) =>
          let continues := match place.rest with
            | next :: following => next != '#' && !endsPlain flow next following
            | [] => false
          if continues && (flow || indent ≤ place.column) then
            let (more, last) := plain flow indent lines place.rest
            (first ++ folded empty ++ more, last)
          else
            (first, after)
      else
        (first, after)
    | [] => (first, after)

/-- The character that an escape of one letter stands for. -/
def escape? : Char → Option Char
  | '0' => some '\x00'
  | 'a' => some '\x07'
  | 'b' => some '\x08'
  | 't' | '\t' => some '\t'
  | 'n' => some '\n'
  | 'v' => some '\x0b'
  | 'f' => some '\x0c'
  | 'r' => some '\r'
  | 'e' => some '\x1b'
  | ' ' => some ' '
  | '"' => some '"'
  | '\\' => some '\\'
  | '/' => some '/'
  | 'N' => some '\x85'
  | '_' => some '\xa0'
  | 'L' => some '\u2028'
  | 'P' => some '\u2029'
  | _ => none

/-- The number of digits after the letter of an escape by code point. -/
def escapeWidth? : Char → Option Nat
  | 'x' => some 2
  | 'u' => some 4
  | 'U' => some 8
  | _ => none

/-- The character of a code point. -/
def characterOf? (point : Nat) : Option Char :=
  if point.isValidChar then some (Char.ofNat point) else none

/-- The character of an escape by code point. -/
def pointEscape? (width : Nat) (text : List Char) : Option Char := do
  let digits := text.take width
  if digits.length = width && digits.all (fun digit => (digitValue? digit).isSome) then
    characterOf? (← natInBase? 16 digits)
  else
    none

/-- What a quoted scalar has before the place where its text goes on: spaces, or what
stands for the end of a line. -/
def pending (spaces : List Char) : Option LineEnd → List Char
  | none => spaces
  | some lineEnd => lineEnd.text

/-- A scalar in single quotes, after the opening one. A quote in it is written twice. -/
def singleQuoted (spaces : List Char) (lineEnd : Option LineEnd) :
    List Char → Option (List Char × List Char)
  | [] => none
  | '\'' :: '\'' :: rest =>
    (singleQuoted [] none rest).map fun (text, after) =>
      (pending spaces lineEnd ++ '\'' :: text, after)
  | '\'' :: rest => some (pending spaces lineEnd, rest)
  | character :: rest =>
    if isBreak character then
      if startsWithAnyMark rest then none
      else singleQuoted [] (some (.after lineEnd)) rest
    else if character = ' ' ∨ character = '\t' then
      if lineEnd.isSome then singleQuoted [] lineEnd rest
      else singleQuoted (spaces ++ [character]) none rest
    else
      (singleQuoted [] none rest).map fun (text, after) =>
        (pending spaces lineEnd ++ character :: text, after)

/-- A scalar in double quotes, after the opening one. The first argument counts the
characters of an escape that are still to be passed over. -/
def doubleQuoted (spaces : List Char) (lineEnd : Option LineEnd) :
    Nat → List Char → Option (List Char × List Char)
  | _, [] => none
  | passing + 1, _ :: rest => doubleQuoted spaces lineEnd passing rest
  | 0, '"' :: rest => some (pending spaces lineEnd, rest)
  | 0, ['\\'] => none
  | 0, '\\' :: letter :: rest =>
    if isBreak letter then
      (doubleQuoted [] (some ⟨true, 0⟩) 1 (letter :: rest)).map fun (text, after) =>
        (pending spaces lineEnd ++ text, after)
    else
      match escape? letter, escapeWidth? letter with
      | some character, _ =>
        (doubleQuoted [] none 1 (letter :: rest)).map fun (text, after) =>
          (pending spaces lineEnd ++ character :: text, after)
      | none, some width =>
        match pointEscape? width rest with
        | some character =>
          (doubleQuoted [] none (width + 1) (letter :: rest)).map fun (text, after) =>
            (pending spaces lineEnd ++ character :: text, after)
        | none => none
      | none, none => none
  | 0, character :: rest =>
    if isBreak character then
      if startsWithAnyMark rest then none
      else doubleQuoted [] (some (.after lineEnd)) 0 rest
    else if character = ' ' ∨ character = '\t' then
      if lineEnd.isSome then doubleQuoted [] lineEnd 0 rest
      else doubleQuoted (spaces ++ [character]) none 0 rest
    else
      (doubleQuoted [] none 0 rest).map fun (text, after) =>
        (pending spaces lineEnd ++ character :: text, after)

/-- A scalar. A plain one may go on over lines that are indented to a column. -/
def scalar? (flow : Bool) (indent : Nat) (text : List Char) : Option (Node × List Char) :=
  match text with
  | '\'' :: rest =>
    (singleQuoted [] none rest).map fun (content, after) =>
      (.scalar (.str (String.ofList content)), after)
  | '"' :: rest =>
    (doubleQuoted [] none 0 rest).map fun (content, after) =>
      (.scalar (.str (String.ofList content)), after)
  | _ =>
    if startsPlain flow text then
      let (content, after) := plain flow indent text.length text
      some (.scalar (resolve content), after)
    else
      none

/-- The text up to a later part of it stays on one line. -/
def staysOnLine (text after : List Char) : Bool :=
  (text.take (text.length - after.length)).all fun character => !isBreak character

/-- What follows the colon after a key in a flow collection. -/
def afterFlowColon? (text after : List Char) : Option (List Char) :=
  match after.dropWhile (· == ' ') with
  | ':' :: rest => if staysOnLine text after then some rest else none
  | _ => none

mutual

/-- A node in a flow collection. -/
def flowNode : Nat → List Char → Option (Node × List Char)
  | 0, _ => none
  | left + 1, '[' :: rest => flowSequence left [] (afterLayout rest)
  | left + 1, '{' :: rest => flowMapping left [] (afterLayout rest)
  | _ + 1, text => scalar? true 0 text

/-- The value after a key in a flow collection, which may be absent. -/
def flowValue : Nat → List Char → Option (Node × List Char)
  | 0, _ => none
  | left + 1, text =>
    match afterLayout text with
    | [] => none
    | character :: rest =>
      if character = ',' ∨ character = ']' ∨ character = '}' then
        some (.null, character :: rest)
      else
        flowNode left (character :: rest)

/-- An item of a flow sequence; a key with a value is a mapping of its own. -/
def flowItem : Nat → List Char → Option (Node × List Char)
  | 0, _ => none
  | left + 1, text =>
    match flowNode left text with
    | none => none
    | some (node, after) =>
      match afterFlowColon? text after with
      | none => some (node, after)
      | some rest =>
        if node.isKey then
          (flowValue left rest).map fun (value, following) =>
            (.mapping [(node, value)], following)
        else
          none

/-- A flow sequence after its bracket and the given items. -/
def flowSequence : Nat → List Node → List Char → Option (Node × List Char)
  | 0, _, _ => none
  | _ + 1, items, ']' :: rest => some (.sequence items, rest)
  | left + 1, items, text =>
    match flowItem left text with
    | none => none
    | some (item, after) =>
      match afterLayout after with
      | ',' :: rest => flowSequence left (items ++ [item]) (afterLayout rest)
      | ']' :: rest => some (.sequence (items ++ [item]), rest)
      | _ => none

/-- A flow mapping after its brace and the given entries. -/
def flowMapping : Nat → List (Node × Node) → List Char → Option (Node × List Char)
  | 0, _, _ => none
  | _ + 1, entries, '}' :: rest => some (.mapping entries, rest)
  | left + 1, entries, text =>
    match flowNode left text with
    | none => none
    | some (key, after) =>
      let value := match afterFlowColon? text after with
        | some rest => flowValue left rest
        | none => some (.null, after)
      match value with
      | none => none
      | some (value, following) =>
        if key.isKey then
          match afterLayout following with
          | ',' :: rest => flowMapping left (entries ++ [(key, value)]) (afterLayout rest)
          | '}' :: rest => some (.mapping (entries ++ [(key, value)]), rest)
          | _ => none
        else
          none

end

/-- Ends an entry: the line has to end. -/
def endEntry (node : Node) (place : Place) : Option (Node × Place) :=
  let (next, ended) := nextPlace place
  if ended || next.rest.isEmpty then some (node, next) else none

/-- A node that starts on the line at hand and is no block collection. -/
def inlineNode (left indent : Nat) (text : List Char) : Option (Node × Place) :=
  match text with
  | '[' :: _ | '{' :: _ => do
    let (node, after) ← flowNode left text
    endEntry node ⟨0, after⟩
  | _ => do
    let (node, after) ← scalar? false indent text
    endEntry node ⟨0, after⟩

/-- A key of a block mapping, and what follows its colon. -/
def blockKey? (text : List Char) : Option (Node × List Char) :=
  let key := match text with
    | '\'' :: _ | '"' :: _ => scalar? false 0 text
    | _ =>
      if startsPlain false text then
        let (content, after) := plainLine false 0 text
        some (.scalar (resolve content), after)
      else
        none
  match key with
  | some (node, after) =>
    match after.dropWhile (· == ' ') with
    | ':' :: rest => if atGap rest && staysOnLine text after then some (node, rest) else none
    | _ => none
  | none => none

/-- The text starts with the mark of an item of a block sequence. -/
def startsItem : List Char → Bool
  | '-' :: rest => atGap rest
  | _ => false

mutual

/-- A node that starts at a place and may be a block collection. -/
def blockNode : Nat → Nat → Place → Option (Node × Place)
  | 0, _, _ => none
  | left + 1, indent, place =>
    if startsItem place.rest then blockSequence left place.column [] place
    else if (blockKey? place.rest).isSome then blockMapping left place.column [] place
    else inlineNode left indent place.rest

/-- A block sequence in a column, after the given items. -/
def blockSequence : Nat → Nat → List Node → Place → Option (Node × Place)
  | 0, _, _, _ => none
  | left + 1, column, items, place =>
    let (start, ended) := nextPlace ⟨column + 1, place.rest.drop 1⟩
    let item :=
      if start.isEnd || ended && start.column ≤ column then some (.null, start)
      else blockNode left (column + 1) start
    match item with
    | none => none
    | some (node, next) =>
      if next.isEnd || next.column < column then some (.sequence (items ++ [node]), next)
      else if next.column = column then
        if startsItem next.rest then blockSequence left column (items ++ [node]) next
        else some (.sequence (items ++ [node]), next)
      else none

/-- A block mapping in a column, after the given entries. -/
def blockMapping : Nat → Nat → List (Node × Node) → Place → Option (Node × Place)
  | 0, _, _, _ => none
  | left + 1, column, entries, place =>
    match blockKey? place.rest with
    | none => none
    | some (key, afterColon) =>
      let (start, ended) := nextPlace ⟨column + 1, afterColon⟩
      let value :=
        if start.rest.isEmpty then some (.null, start)
        else if !ended then inlineNode left (column + 1) start.rest
        else if start.isEnd || start.column < column then some (.null, start)
        else if start.column = column then
          if startsItem start.rest then blockSequence left column [] start
          else some (.null, start)
        else blockNode left (column + 1) start
      match value with
      | none => none
      | some (value, next) =>
        if next.isEnd || next.column < column then
          some (.mapping (entries ++ [(key, value)]), next)
        else if next.column = column then
          blockMapping left column (entries ++ [(key, value)]) next
        else none

end

/-- The character can stand in a document. -/
def isPrintable (character : Char) : Bool :=
  let point := character.toNat
  point == 0x09 || point == 0x0a || point == 0x0d || 0x20 ≤ point && point ≤ 0x7e || point == 0x85
    || 0xa0 ≤ point && point ≤ 0xfffd || 0x10000 ≤ point

/-- The node of a document that starts at a place. After a mark the node may start on
the same line, but not as a block collection. -/
def documentNode (left : Nat) (place : Place) : Option (Node × Place) :=
  if place.column = 0 && startsWithMark ['-', '-', '-'] place.rest then
    let (start, ended) := nextPlace ⟨3, place.rest.drop 3⟩
    if start.isEnd then some (.null, start)
    else if ended then blockNode left 0 start
    else inlineNode left 0 start.rest
  else if place.isEnd then some (.null, place)
  else blockNode left 0 place

/-- The place is where a text with one document can end. -/
def endsText (place : Place) : Bool :=
  place.rest.isEmpty
    || place.column == 0 && startsWithMark ['.', '.', '.'] place.rest
      && (nextPlace ⟨3, place.rest.drop 3⟩).1.rest.isEmpty

/-- The document of a text. -/
def read (source : String) : Option Node :=
  let text := match Text.unifyLines source.toList with
    | '\ufeff' :: rest => rest
    | text => text
  if text.all isPrintable then
    match documentNode (2 * text.length + 2) (nextPlace ⟨0, text⟩).1 with
    | some (node, last) => if endsText last then some node else none
    | none => none
  else
    none

end MathMarkup.Yaml
