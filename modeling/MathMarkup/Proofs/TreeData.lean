import MathMarkup.Proofs.AbridgedData
import MathMarkup.Tex.Encoding
import MathMarkup.Typst.Encoding

/-!
# Trees read back from their data

The fields that the nodes of the two languages declare, and that a tree is read back from
its data: in full, or abridged at any of its nodes.
-/

namespace MathMarkup

open Data Data.Tree

/-- A field that has to be there. -/
def requiredField (name : String) : Declaration := ⟨name, none⟩

/-- A field that may be left out where it has the given value. -/
def optionalField (name : String) (default : Value) : Declaration := ⟨name, some default⟩

/-- The text of a node, which has to be there if it has no default. -/
def contentField (default : Option String) : Declaration := ⟨"content", default.map .str⟩

section Kinds

-- The kinds of nodes that both languages have, by their fields and the rule for their tag.
variable {α : Type} {assemble : Record α → Checked α} {schema : Schema}
  {rule? : Record α → String → Option (Checked α)}
  (byTag : ∀ record : Record α, assemble record = record.byTag (rule? record))
  {tag : String} (text : String) {default : Option String}

include byTag

theorem Data.Tree.IsData.leaf {build : String → α}
    (declares : schema tag = [requiredField "type", contentField default])
    (rule : ∀ record : Record α,
      rule? record tag = some ((record.content default).map build)) :
    IsData assemble schema (.object [("type", .str tag), ("content", .str text)])
      (build text) := by
  refine .of_tag byTag rfl (by simp [declares, requiredField]) ?_ fun given fields => ?_
  · simp only [declares, List.forall_mem_cons]
    exact ⟨⟨_, rfl, .str _⟩, ⟨_, rfl, .str _⟩, by simp⟩
  · rw [rule, fields.content (by simp [declares, contentField]) rfl]
    rfl

theorem Data.Tree.IsData.group {build : String → List α → α} {values : List Value}
    {nodes : List α}
    (declares : schema tag =
      [requiredField "type", optionalField "content" (.str ""), optionalField "args" (.list [])])
    (rule : ∀ record : Record α, rule? record tag =
      some ((Checked.both (record.content (some "")) record.optionalArguments).map
        fun (content, args) => build content args))
    (areData : List.Forall₂ (IsData assemble schema) values nodes) :
    IsData assemble schema
      (.object [("type", .str tag), ("content", .str text), ("args", .list values)])
      (build text nodes) := by
  refine .of_tag byTag rfl (by simp [declares, requiredField]) ?_ fun given fields => ?_
  · simp only [declares, List.forall_mem_cons]
    exact ⟨⟨_, rfl, .str _⟩, ⟨_, rfl, .str _⟩, ⟨_, rfl, full_of_nodes areData⟩, by simp⟩
  · rw [rule, fields.content (by simp [declares, optionalField]) rfl,
      fields.optionalArguments (by simp [declares, optionalField]) rfl areData]
    rfl

theorem Data.Tree.IsData.scripts {build : String → α → Option α → Option α → α}
    {base sup sub : Value} {baseNode : α} {supNode subNode : Option α}
    (declares : schema tag =
      [requiredField "type", optionalField "content" (.str ""), requiredField "base",
        optionalField "sup" .null, optionalField "sub" .null])
    (rule : ∀ record : Record α, rule? record tag =
      some ((Checked.both (record.content (some "")) <| Checked.both (record.requiredNode "base") <|
        Checked.both (record.optionalNode "sup") (record.optionalNode "sub")).map
        fun (content, base, sup, sub) => build content base sup sub))
    (isBase : IsData assemble schema base baseNode)
    (isSup : IsOptionalData assemble schema sup supNode)
    (isSub : IsOptionalData assemble schema sub subNode) :
    IsData assemble schema
      (.object [("type", .str tag), ("content", .str text), ("base", base), ("sup", sup),
        ("sub", sub)])
      (build text baseNode supNode subNode) := by
  refine .of_tag byTag rfl (by simp [declares, requiredField]) ?_ fun given fields => ?_
  · simp only [declares, List.forall_mem_cons]
    exact ⟨⟨_, rfl, .str _⟩, ⟨_, rfl, .str _⟩, ⟨_, rfl, isBase.full⟩, ⟨_, rfl, isSup.full⟩,
      ⟨_, rfl, isSub.full⟩, by simp⟩
  · rw [rule, fields.content (by simp [declares, optionalField]) rfl,
      fields.requiredNode (by simp [declares, requiredField]) rfl isBase,
      fields.optionalNode (by simp [declares, optionalField]) rfl isSup,
      fields.optionalNode (by simp [declares, optionalField]) rfl isSub]
    rfl

/-- A call, which is put together from its arguments if it has the right number of them. -/
theorem Data.Tree.IsData.call (build : String → List α → Checked α) {values : List Value}
    {nodes : List α} {node : α}
    (declares : schema tag = [requiredField "type", contentField default, requiredField "args"])
    (rule : ∀ record : Record α, rule? record tag =
      some (Checked.both (record.content default) record.requiredArguments >>=
        fun (content, args) => build content args))
    (areData : List.Forall₂ (IsData assemble schema) values nodes)
    (built : build text nodes = .ok node) :
    IsData assemble schema
      (.object [("type", .str tag), ("content", .str text), ("args", .list values)]) node := by
  refine .of_tag byTag rfl (by simp [declares, requiredField]) ?_ fun given fields => ?_
  · simp only [declares, List.forall_mem_cons]
    exact ⟨⟨_, rfl, .str _⟩, ⟨_, rfl, .str _⟩, ⟨_, rfl, full_of_nodes areData⟩, by simp⟩
  · rw [rule, fields.content (by simp [declares, contentField]) rfl,
      fields.requiredArguments (by simp [declares, requiredField]) rfl areData, ← built]
    rfl

theorem Data.Tree.IsData.grid {build : String → List (List α) → α} {values : List Value}
    {rows : List (List α)}
    (declares : schema tag =
      [requiredField "type", contentField default, optionalField "data" (.list [])])
    (rule : ∀ record : Record α, rule? record tag =
      some ((Checked.both (record.content default) record.rows).map
        fun (content, rows) => build content rows))
    (areData : List.Forall₂ (IsRowData assemble schema) values rows) :
    IsData assemble schema
      (.object [("type", .str tag), ("content", .str text), ("data", .list values)])
      (build text rows) := by
  refine .of_tag byTag rfl (by simp [declares, requiredField]) ?_ fun given fields => ?_
  · simp only [declares, List.forall_mem_cons]
    exact ⟨⟨_, rfl, .str _⟩, ⟨_, rfl, .str _⟩, ⟨_, rfl, full_of_rows areData⟩, by simp⟩
  · rw [rule, fields.content (by simp [declares, contentField]) rfl,
      fields.rows (by simp [declares, optionalField]) rfl areData]
    rfl

end Kinds

namespace Tex

/-- The fields of the nodes of a TeX tree. -/
def schema : Schema
  | "element" | "text" | "comment" | "control" | "symbol" | "unknownMacro" =>
    [requiredField "type", requiredField "content"]
  | "whitespace" => [requiredField "type", optionalField "content" (.str " ")]
  | "newline" => [requiredField "type", optionalField "content" (.str "\n")]
  | "empty" => [requiredField "type", optionalField "content" (.str "")]
  | "ordgroup" =>
    [requiredField "type", optionalField "content" (.str ""), optionalField "args" (.list [])]
  | "supsub" =>
    [requiredField "type", optionalField "content" (.str ""), requiredField "base",
      optionalField "sup" .null, optionalField "sub" .null]
  | "unaryFunc" =>
    [requiredField "type", requiredField "content", requiredField "args", optionalField "data" .null]
  | "binaryFunc" => [requiredField "type", requiredField "content", requiredField "args"]
  | "leftright" =>
    [requiredField "type", optionalField "content" (.str ""), requiredField "args"]
  | "beginend" =>
    [requiredField "type", requiredField "content", optionalField "data" (.list [])]
  | _ => []

namespace Node

theorem isData_leaf (kind : LeafKind) (content : String) :
    IsData assemble schema (toValue (.leaf kind content)) (.leaf kind content) := by
  have declares : schema kind.word = [requiredField "type", contentField kind.defaultContent?] := by
    cases kind <;> rfl
  rw [toValue]
  refine .leaf (fun _ => rfl) content declares fun record => ?_
  simp only [LeafKind.ofWord?_word]

/-- A command with one argument has an index beside it. -/
theorem isData_unaryFunc {command : String} {arg : Node} {index : Option Node}
    (isArg : IsData assemble schema arg.toValue arg)
    (isIndex : IsOptionalData assemble schema (toOptionalValue index) index) :
    IsData assemble schema (toValue (.unaryFunc command arg index))
      (.unaryFunc command arg index) := by
  rw [toValue]
  have areArgs : List.Forall₂ (IsData assemble schema) [arg.toValue] [arg] := .cons isArg .nil
  refine .of_tag (fun _ => rfl) rfl (by simp [schema, requiredField]) ?_ fun given fields => ?_
  · simp only [schema, List.forall_mem_cons]
    exact ⟨⟨_, rfl, .str _⟩, ⟨_, rfl, .str _⟩, ⟨_, rfl, full_of_nodes areArgs⟩,
      ⟨_, rfl, isIndex.full⟩, by simp⟩
  · have text : (readFields assemble given).content none = .ok command :=
      fields.content (by simp [schema, requiredField]) rfl
    have arguments : (readFields assemble given).requiredArguments = .ok [arg] :=
      fields.requiredArguments (by simp [schema, requiredField]) rfl areArgs
    have isData : (readFields assemble given).optionalNode "data" = .ok index :=
      fields.optionalNode (by simp [schema, optionalField]) rfl isIndex
    change some _ = _
    simp only [text, arguments, isData]
    rfl

/-- A tree is read back from its data, whatever default is left out and whatever is added. -/
theorem isData_toValue (node : Node) : IsData assemble schema node.toValue node := by
  have byTag (record : Record Node) : assemble record = record.byTag _ := rfl
  -- Besides nodes the recursion goes through lists, options and rows of them.
  refine @Node.rec (fun node => IsData assemble schema node.toValue node)
    (fun nodes => List.Forall₂ (IsData assemble schema) (toValues nodes) nodes)
    (fun node => IsOptionalData assemble schema (toOptionalValue node) node)
    (fun rows => List.Forall₂ (IsRowData assemble schema) (toRowValues rows) rows)
    ?leaf ?ordgroup ?supsub ?unaryFunc ?binaryFunc ?leftright ?beginend
    .nil (fun _ _ => .cons) .none (fun _ => .some) .nil (fun _ _ row => .cons (.row row)) node
  case leaf => exact isData_leaf
  case ordgroup => exact fun content _ areArgs => .group byTag content rfl (fun _ => rfl) areArgs
  case supsub =>
    exact fun content _ _ _ isBase isSup isSub =>
      .scripts byTag content rfl (fun _ => rfl) isBase isSup isSub
  case unaryFunc => exact fun _ _ _ isArg isIndex => isData_unaryFunc isArg isIndex
  case binaryFunc =>
    intro command first second isFirst isSecond
    exact .call byTag command (fun content args => do
      let pair ← twoArguments content args
      return .binaryFunc content pair.1 pair.2) rfl (fun _ => rfl)
      (.cons isFirst (.cons isSecond .nil)) rfl
  case leftright =>
    intro content opening body closing isOpening isBody isClosing
    exact .call byTag content (fun content args => do
      let parts ← threeArguments "leftright" args
      return .leftright content parts.1 parts.2.1 parts.2.2) rfl (fun _ => rfl)
      (.cons isOpening (.cons isBody (.cons isClosing .nil))) rfl
  case beginend => exact fun name _ areRows => .grid byTag name rfl (fun _ => rfl) areRows

theorem ofValue_toValue (node : Node) : ofValue node.toValue = .ok node :=
  (isData_toValue node).read (isData_toValue node).full

end Node
end Tex

namespace Typst

/-- The fields of the nodes of a Typst tree. -/
def schema : Schema
  | "symbol" | "text" | "comment" | "unknown" => [requiredField "type", requiredField "content"]
  | "newline" => [requiredField "type", optionalField "content" (.str "\n")]
  | "softSpace" | "empty" => [requiredField "type", optionalField "content" (.str "")]
  | "group" =>
    [requiredField "type", optionalField "content" (.str ""), optionalField "args" (.list [])]
  | "supsub" =>
    [requiredField "type", optionalField "content" (.str ""), requiredField "base",
      optionalField "sup" .null, optionalField "sub" .null]
  | "unaryFunc" | "binaryFunc" =>
    [requiredField "type", requiredField "content", requiredField "args"]
  | "align" =>
    [requiredField "type", optionalField "content" (.str ""), optionalField "data" (.list [])]
  | "matrix" =>
    [requiredField "type", optionalField "content" (.str "mat"), optionalField "delim" .null,
      optionalField "data" (.list [])]
  | _ => []

namespace Node

theorem isData_leaf (kind : LeafKind) (content : String) :
    IsData assemble schema (toValue (.leaf kind content)) (.leaf kind content) := by
  have declares : schema kind.word = [requiredField "type", contentField kind.defaultContent?] := by
    cases kind <;> rfl
  rw [toValue]
  refine .leaf (fun _ => rfl) content declares fun record => ?_
  simp only [LeafKind.ofWord?_word]

/-- A call with rows is one of a few by its name, and has a delimiter beside it. -/
theorem isData_matrix {call : GridCall} {delimiter : Option String} {rows : List (List Node)}
    (areRows : List.Forall₂ (IsRowData assemble schema) (toRowValues rows) rows) :
    IsData assemble schema (toValue (.matrix call delimiter rows))
      (.matrix call delimiter rows) := by
  rw [toValue]
  have fullDelimiter : Abridges schema (.ofOptionalString delimiter) (.ofOptionalString delimiter) := by
    cases delimiter with
    | none => exact .null
    | some text => exact .str text
  refine .of_tag (fun _ => rfl) rfl (by simp [schema, requiredField]) ?_ fun given fields => ?_
  · simp only [schema, List.forall_mem_cons]
    exact ⟨⟨_, rfl, .str _⟩, ⟨_, rfl, .str _⟩, ⟨_, rfl, fullDelimiter⟩,
      ⟨_, rfl, full_of_rows areRows⟩, by simp⟩
  · have callDeclared : ⟨"content", some (.str "mat")⟩ ∈ schema "matrix" := by
      simp [schema, optionalField]
    have delimiterDeclared : ⟨"delim", some .null⟩ ∈ schema "matrix" := by
      simp [schema, optionalField]
    have isCall : Checked.optional "content" .mat (((readFields assemble given).field? "content").map
        fun field => GridCall.ofValue field.value) = .ok call := by
      refine fields.optional callDeclared rfl (fun item abridged => ?_) ?_
      · rw [abridged.eq_str]
        simp [readField, GridCall.ofValue]
      · cases call <;> simp [GridCall.word]
    have isDelimiter : Checked.optional "delim" none (((readFields assemble given).field? "delim").map
        fun field => Checked.stringOrNull field.value) = .ok delimiter := by
      refine fields.optional delimiterDeclared rfl (fun item abridged => ?_) ?_
      · cases delimiter with
        | none =>
          rw [abridged.eq_null]
          rfl
        | some text =>
          rw [abridged.eq_str]
          rfl
      · cases delimiter <;> simp [Value.ofOptionalString]
    have grid : (readFields assemble given).rows = .ok rows :=
      fields.rows (by simp [schema, optionalField]) rfl areRows
    change some _ = _
    simp only [isCall, isDelimiter, grid]
    rfl

/-- A tree is read back from its data, whatever default is left out and whatever is added. -/
theorem isData_toValue (node : Node) : IsData assemble schema node.toValue node := by
  have byTag (record : Record Node) : assemble record = record.byTag _ := rfl
  -- Besides nodes the recursion goes through lists, options and rows of them.
  refine @Node.rec (fun node => IsData assemble schema node.toValue node)
    (fun nodes => List.Forall₂ (IsData assemble schema) (toValues nodes) nodes)
    (fun node => IsOptionalData assemble schema (toOptionalValue node) node)
    (fun rows => List.Forall₂ (IsRowData assemble schema) (toRowValues rows) rows)
    ?leaf ?group ?supsub ?unaryFunc ?binaryFunc ?align ?matrix
    .nil (fun _ _ => .cons) .none (fun _ => .some) .nil (fun _ _ row => .cons (.row row)) node
  case leaf => exact isData_leaf
  case group => exact fun content _ areArgs => .group byTag content rfl (fun _ => rfl) areArgs
  case supsub =>
    exact fun content _ _ _ isBase isSup isSub =>
      .scripts byTag content rfl (fun _ => rfl) isBase isSup isSub
  case unaryFunc =>
    intro name arg isArg
    exact .call byTag name (fun content args => do
      let arg ← oneArgument content args
      return .unaryFunc content arg) rfl (fun _ => rfl)
      (.cons isArg .nil) rfl
  case binaryFunc =>
    intro name first second isFirst isSecond
    exact .call byTag name (fun content args => do
      let pair ← twoArguments content args
      return .binaryFunc content pair.1 pair.2) rfl (fun _ => rfl)
      (.cons isFirst (.cons isSecond .nil)) rfl
  case align => exact fun content _ areRows => .grid byTag content rfl (fun _ => rfl) areRows
  case matrix => exact fun _ _ _ areRows => isData_matrix areRows

end Node
end Typst

/-- A tree of either language is read back from its data: in full, or with defaults left out
and undeclared fields added at any of its nodes. -/
theorem trees_read_back :
    (∀ node : Tex.Node, Tex.Node.ofValue node.toValue = .ok node ∧
      ∀ value, Abridges Tex.schema node.toValue value → Tex.Node.ofValue value = .ok node) ∧
    ∀ node : Typst.Node, Typst.Node.ofValue node.toValue = .ok node ∧
      ∀ value, Abridges Typst.schema node.toValue value → Typst.Node.ofValue value = .ok node := by
  refine ⟨fun node => ⟨?_, fun value abridged => ?_⟩, fun node => ⟨?_, fun value abridged => ?_⟩⟩
  · exact Tex.Node.ofValue_toValue node
  · exact (Tex.Node.isData_toValue node).read abridged
  · exact (Typst.Node.isData_toValue node).read (Typst.Node.isData_toValue node).full
  · exact (Typst.Node.isData_toValue node).read abridged

/-- The data of a TeX tree, with the group and its scripts cut down to what has to be there. -/
def abridgedScripts : Value :=
  .object [("sup", .object [("type", .str "whitespace")]), ("note", .list [.bool true]),
    ("type", .str "supsub"), ("base", .object [("data", .int 3), ("type", .str "ordgroup")])]

/-- The data of a Typst tree, with the settings of the grid left out. -/
def abridgedGrid : Value :=
  .object [("args", .str "x"), ("type", .str "matrix"),
    ("data", .list [.list [.object [("type", .str "softSpace")]]])]

theorem trees_read_back_abridged :
    Tex.Node.ofValue abridgedScripts =
      .ok (.supsub "" (.ordgroup "" []) (some (.leaf .whitespace " ")) none) ∧
    Typst.Node.ofValue abridgedGrid = .ok (.matrix .mat none [[.leaf .softSpace ""]]) := by
  have base : Abridges Tex.schema (Tex.Node.toValue (.ordgroup "" []))
      (.object [("data", .int 3), ("type", .str "ordgroup")]) := by
    refine .object rfl ?_
    simp only [Tex.schema, List.forall_mem_cons]
    exact ⟨.kept (.str _), .leftOut _, .leftOut _, by simp⟩
  have sup : Abridges Tex.schema (Tex.Node.toValue (.leaf .whitespace " "))
      (.object [("type", .str "whitespace")]) := by
    refine .object rfl ?_
    simp only [Tex.LeafKind.word, Tex.schema, List.forall_mem_cons]
    exact ⟨.kept (.str _), .leftOut _, by simp⟩
  have cell : Abridges Typst.schema (Typst.Node.toValue (.leaf .softSpace ""))
      (.object [("type", .str "softSpace")]) := by
    refine .object rfl ?_
    simp only [Typst.LeafKind.word, Typst.schema, List.forall_mem_cons]
    exact ⟨.kept (.str _), .leftOut _, by simp⟩
  constructor
  · refine (trees_read_back.1 _).2 _ (.object rfl ?_)
    simp only [Tex.schema, List.forall_mem_cons]
    exact ⟨.kept (.str _), .leftOut _, .kept base, .kept sup, .leftOut _, by simp⟩
  · refine (trees_read_back.2 _).2 _ (.object rfl ?_)
    simp only [Typst.schema, List.forall_mem_cons]
    exact ⟨.kept (.str _), .leftOut _, .leftOut _,
      .kept (.list (.cons (.list (.cons cell .nil)) .nil)), by simp⟩

end MathMarkup
