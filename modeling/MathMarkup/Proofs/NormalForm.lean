import MathMarkup.Proofs.Shape
import MathMarkup.Proofs.TreeData

/-!
# The normal form of parsed trees

A formula is read as a tree without idle nodes: a group has at least two parts, a base
has at least one script, and a grid has rows with cells in them. Nothing but a cell can be
an empty group. As data, such a tree passes all checks of its nodes.
-/

namespace MathMarkup.Tex

/-- The nodes that a delimiter can be read as. -/
def Node.IsDelimiter : Node → Prop
  | .leaf .element content => content ∈ delimiterElements
  | .leaf .symbol command => command ∈ delimiterCommands
  | _ => False

/-- Trees without idle nodes. -/
inductive NormalForm : Node → Prop where
  | leaf (kind : LeafKind) (content : String) : NormalForm (.leaf kind content)
  | ordgroup {first second : Node} {rest : List Node}
      (parts : ∀ part ∈ first :: second :: rest, NormalForm part) :
      NormalForm (.ordgroup "" (first :: second :: rest))
  | supsub {base : Node} {sup sub : Option Node} (baseNormal : NormalForm base)
      (supNormal : ∀ script ∈ sup, NormalForm script)
      (subNormal : ∀ script ∈ sub, NormalForm script)
      (scripted : sup.isSome = true ∨ sub.isSome = true) :
      NormalForm (.supsub "" base sup sub)
  | unaryFunc {command : String} {arg : Node} {index : Option Node} (argNormal : NormalForm arg)
      (indexNormal : ∀ node ∈ index, NormalForm node)
      (isRoot : index.isSome = true → command = "\\sqrt") :
      NormalForm (.unaryFunc command arg index)
  | binaryFunc {command : String} {first second : Node} (firstNormal : NormalForm first)
      (secondNormal : NormalForm second) : NormalForm (.binaryFunc command first second)
  | leftright {opening body closing : Node} (opens : opening.IsDelimiter)
      (bodyNormal : NormalForm body) (closes : closing.IsDelimiter) :
      NormalForm (.leftright "" opening body closing)
  /-- Only a cell can be an empty group. -/
  | beginend {name : String} {rows : List (List Node)} (someRow : rows ≠ [])
      (someCell : ∀ row ∈ rows, row ≠ [])
      (cells : ∀ row ∈ rows, ∀ cell ∈ row, cell ≠ .ordgroup "" [] → NormalForm cell) :
      NormalForm (.beginend name rows)

namespace Grid

/-- Every finished row has a cell. -/
def Draft.Filled (draft : Draft) : Prop :=
  ∀ row ∈ draft.rows, row ≠ []

variable {draft : Draft}

theorem Draft.Filled.endRow (filled : draft.Filled) : draft.endRow.Filled := by
  intro row member
  rcases List.mem_append.mp member with inRows | isLast
  · exact filled row inRows
  · rw [List.mem_singleton.mp isLast]
    simp [Draft.endCell]

theorem Draft.Filled.add (filled : draft.Filled) (part : Node) : (draft.add part).Filled := by
  unfold Draft.add
  split
  · exact filled
  split
  · exact filled.endRow
  split
  · exact filled
  · exact filled

theorem Draft.Filled.foldl_add (filled : draft.Filled) (parts : List Node) :
    (parts.foldl Draft.add draft).Filled := by
  induction parts generalizing draft with
  | nil => exact filled
  | cons part rest inductionHypothesis => exact inductionHypothesis (filled.add part)

/-- The last row is left out only if another row is there. -/
theorem Draft.Filled.finish (filled : draft.Filled) :
    draft.finish ≠ [] ∧ ∀ row ∈ draft.finish, row ≠ [] := by
  have ended : draft.endRow.rows ≠ [] ∧ ∀ row ∈ draft.endRow.rows, row ≠ [] :=
    ⟨by simp [Draft.endRow], filled.endRow⟩
  unfold Draft.finish
  split
  · rename_i first rest only isRows isRow
    split
    · exact ⟨by simp [isRows], filled⟩
    · exact ended
  · exact ended

/-- A grid has a row, and every row a cell. -/
theorem ofParts_filled (parts : List Node) :
    ofParts parts ≠ [] ∧ ∀ row ∈ ofParts parts, row ≠ [] := by
  have initial : Draft.Filled {} := by simp [Draft.Filled]
  exact (initial.foldl_add parts).finish

end Grid

namespace Grammar

theorem normalForm_group {parts : List Node} (normal : ∀ part ∈ parts, NormalForm part) :
    NormalForm (.group parts) := by
  match parts with
  | [] => exact .leaf .empty ""
  | [part] => exact normal part List.mem_cons_self
  | first :: second :: rest => exact .ordgroup normal

/-- Primes are one superscript together with the superscript after them. -/
theorem normalForm_superscript {scripts : Parser.Scripts}
    (supNormal : ∀ script ∈ scripts.sup, NormalForm script) :
    ∀ script ∈ scripts.superscript, NormalForm script := by
  unfold Parser.Scripts.superscript
  split
  · exact supNormal
  · rintro script ⟨⟩
    refine normalForm_group fun part member => ?_
    rcases List.mem_append.mp member with isPrime | isScript
    · rw [List.eq_of_mem_replicate isPrime]
      exact .leaf .symbol "\\prime"
    · exact supNormal part (Option.mem_toList.mp isScript)

theorem normalForm_attach {scripts : Parser.Scripts} {base : Node} (baseNormal : NormalForm base)
    (supNormal : ∀ script ∈ scripts.sup, NormalForm script)
    (subNormal : ∀ script ∈ scripts.sub, NormalForm script) :
    NormalForm (scripts.attach base) := by
  have primesNormal := normalForm_superscript supNormal
  unfold Parser.Scripts.attach
  generalize scripts.superscript = sup at primesNormal
  generalize scripts.sub = sub at subNormal
  split
  · exact baseNormal
  · rename_i someScript
    refine .supsub baseNormal primesNormal subNormal ?_
    cases sup with
    | some script => exact .inl rfl
    | none =>
      cases sub with
      | some script => exact .inr rfl
      | none => exact (someScript rfl rfl).elim

/-- A delimiter is read as one of the accepted elements or symbols. -/
theorem isDelimiter_delimiter {token : Token} (delimits : token.isDelimiter = true) :
    (Parser.delimiter token).IsDelimiter := by
  obtain ⟨kind, value⟩ := token
  cases kind with
  | element | command =>
    simpa [Parser.delimiter, Node.IsDelimiter, Token.isDelimiter] using delimits
  | text | comment | whitespace | newline | control | unknown => cases delimits

section Readings

variable {options : ParseOptions} {inner : Reading}

/-- Everything that is read is in normal form. -/
def Normal (reading : Reading) : Prop :=
  ∀ ⦃input node rest⦄, reading input node rest → NormalForm node

variable (innerNormal : Normal inner)

include innerNormal

theorem Scripted.normal : Normal (Scripted inner) := by
  rintro input node rest ⟨base, attached, -⟩
  obtain ⟨supNormal, subNormal⟩ := attached.all innerNormal
  exact normalForm_attach (innerNormal base) supNormal subNormal

theorem Sequence.normalForm {input : List Token} {node : Node}
    (read : Sequence inner options input node) : NormalForm node := by
  obtain ⟨partsRead, -⟩ := read
  exact normalForm_group fun part kept =>
    partsRead.all (Scripted.normal innerNormal) part (List.mem_filter.mp kept).1

theorem Rows.normalForm {input : List Token} {rows : List (List Node)}
    (read : Rows inner input rows) (name : String) : NormalForm (.beginend name rows) := by
  obtain ⟨partsRead⟩ := read
  rename_i parts
  obtain ⟨someRow, someCell⟩ := Grid.ofParts_filled parts
  have cells := Grid.cells_ofParts NormalForm fun part member _ =>
    partsRead.all (Scripted.normal innerNormal) part member
  refine .beginend someRow someCell fun row isRow cell isCell notEmpty => ?_
  obtain ⟨items, rfl, itemsNormal⟩ := cells row isRow cell isCell
  cases items with
  | nil => exact absurd rfl notEmpty
  | cons first rest => exact normalForm_group itemsNormal

theorem Argument.normal : Normal (Argument inner) := by
  rintro input node rest ⟨passed, solid, inside, read⟩
  exact innerNormal read

theorem IndexAt.normalForm {input rest : List Token} {index : Option Node}
    (read : IndexAt inner options input index rest) : ∀ node ∈ index, NormalForm node := by
  cases read with
  | some passed balanced inside =>
    rintro node ⟨⟩
    exact inside.normalForm innerNormal
  | none absent => simp

theorem CommandAt.normal (command : String) : Normal (CommandAt inner options command) := by
  intro input node rest read
  have argumentNormal := Argument.normal innerNormal
  cases read with
  | constant arity single => exact .leaf _ command
  | unary arity read =>
    cases read with
    | text isText content rest => exact .leaf .text content
    | operator isOperator content rest => exact .unaryFunc (.leaf .text content) (by simp) (by simp)
    | root isRoot indexRead argument =>
      exact .unaryFunc (argumentNormal argument) (indexRead.normalForm innerNormal) fun _ => isRoot
    | other math argument => exact .unaryFunc (argumentNormal argument) (by simp) (by simp)
  | binary arity firstArgument secondArgument =>
    exact .binaryFunc (argumentNormal firstArgument) (argumentNormal secondArgument)

theorem Operand.normal : Normal (Operand options inner) := by
  intro input node rest read
  cases read with
  | leaf plain =>
    obtain ⟨kind, content, rfl, -⟩ := eq_leaf_of_leafOf? plain
    exact .leaf kind content
  | missingBase mark rest => exact .leaf .empty ""
  | group balanced inside => exact inside.normalForm innerNormal
  | command read => exact CommandAt.normal innerNormal _ read
  | leftRight read =>
    obtain ⟨passed, opens, balanced, inside, morePassed, closes⟩ := read
    exact .leftright (isDelimiter_delimiter opens) (inside.normalForm innerNormal)
      (isDelimiter_delimiter closes)
  | environment read =>
    obtain ⟨split, balanced, specification, grid⟩ := read
    exact grid.normalForm innerNormal _

omit innerNormal in
theorem Reads.normal (options : ParseOptions) (depth : Nat) : Normal (Reads options depth) := by
  induction depth with
  | zero => exact fun _ _ _ read => read.elim
  | succ depth inductionHypothesis => exact Operand.normal inductionHypothesis

end Readings

/-- A formula is read as a tree in normal form, which passes all checks when it is read as
data. -/
theorem normalForm_of_parseTokens {options : ParseOptions} {tokens : List Token} {tree : Node}
    (parsed : parseTokens options tokens = .ok tree) :
    NormalForm tree ∧ Node.ofValue tree.toValue = .ok tree :=
  ⟨(parseTokens_eq_ok_iff.mp parsed).normalForm (Reads.normal options _), tree.ofValue_toValue⟩

/-- A prime before a superscript, and a matrix with an empty cell in its only row. -/
theorem normalForm_of_parseTokens_emptyCell :
    ∃ tree, parseTokens { symbols := [] } [⟨.element, "x"⟩, .prime, markToken .superscript,
        ⟨.element, "2"⟩, .beginEnvironment, .openBrace, ⟨.text, "matrix"⟩, .closeBrace,
        ⟨.control, "&"⟩, ⟨.element, "y"⟩, .endEnvironment, .openBrace, ⟨.text, "matrix"⟩,
        .closeBrace] = .ok tree ∧
      NormalForm tree ∧ Node.ofValue tree.toValue = .ok tree := by
  have parsed : parseTokens { symbols := [] } [⟨.element, "x"⟩, .prime, markToken .superscript,
      ⟨.element, "2"⟩, .beginEnvironment, .openBrace, ⟨.text, "matrix"⟩, .closeBrace,
      ⟨.control, "&"⟩, ⟨.element, "y"⟩, .endEnvironment, .openBrace, ⟨.text, "matrix"⟩,
      .closeBrace] = .ok (.ordgroup "" [
        .supsub "" (.element "x") (some (.ordgroup "" [.symbol "\\prime", .element "2"])) none,
        .beginend "matrix" [[.ordgroup "" [], .element "y"]]]) := by
    cbv
  exact ⟨_, parsed, normalForm_of_parseTokens parsed⟩

end Grammar
end MathMarkup.Tex
