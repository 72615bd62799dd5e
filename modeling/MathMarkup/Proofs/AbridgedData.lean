import Mathlib
import MathMarkup.Data.Tree

/-!
# Abridged data

The data of a tree can be given in less than its full form: a field may be left out where
it has its declared default, and fields that are not declared may be added. `Abridges` says
so for all nodes of a tree at once. For each way to read a field there is a lemma that
reads it from what is given as it would be read from the full form.
-/

namespace MathMarkup.Data.Tree

/-- A field that a kind of node declares, with the value that it has where it is left out. -/
structure Declaration where
  name : String
  default : Option Value

/-- The fields that each kind of node declares, by its tag. -/
abbrev Schema := String → List Declaration

/-- What is given of a field: its default, its full value and the value that is given. -/
inductive FieldAbridges (abridges : Value → Value → Prop) :
    Option Value → Option Value → Option Value → Prop where
  | kept {default : Option Value} {full given : Value} (abridged : abridges full given) :
      FieldAbridges abridges default (some full) (some given)
  | leftOut (value : Value) : FieldAbridges abridges (some value) (some value) none

/-- The second value is given in place of the first one, which is written out in full. -/
inductive Abridges (schema : Schema) : Value → Value → Prop where
  | null : Abridges schema .null .null
  | str (text : String) : Abridges schema (.str text) (.str text)
  | list {full given : List Value} (items : List.Forall₂ (Abridges schema) full given) :
      Abridges schema (.list full) (.list given)
  /-- Nothing is said of the fields that are not declared. -/
  | object {tag : String} {full given : List (String × Value)}
      (tagged : full.lookup "type" = some (.str tag))
      (fields : ∀ declaration ∈ schema tag, FieldAbridges (Abridges schema) declaration.default
        (full.lookup declaration.name) (given.lookup declaration.name)) :
      Abridges schema (.object full) (.object given)

/-- The declared fields of an object, in full and as they are given. -/
def FieldsAbridge (schema : Schema) (tag : String) (full given : List (String × Value)) : Prop :=
  ∀ declaration ∈ schema tag, FieldAbridges (Abridges schema) declaration.default
    (full.lookup declaration.name) (given.lookup declaration.name)

/-- A value that has all declared fields is given in place of itself. -/
theorem Abridges.object_self {schema : Schema} {tag : String} {full : List (String × Value)}
    (tagged : full.lookup "type" = some (.str tag))
    (fields : ∀ declaration ∈ schema tag, ∃ value, full.lookup declaration.name = some value ∧
      Abridges schema value value) :
    Abridges schema (.object full) (.object full) := by
  refine .object tagged fun declaration declared => ?_
  obtain ⟨value, written, abridged⟩ := fields declaration declared
  rw [written]
  exact .kept abridged

section Inversion

variable {schema : Schema} {value : Value}

theorem Abridges.eq_null (abridged : Abridges schema .null value) : value = .null := by
  cases abridged
  rfl

theorem Abridges.eq_str {text : String} (abridged : Abridges schema (.str text) value) :
    value = .str text := by
  cases abridged
  rfl

theorem Abridges.exists_list {full : List Value} (abridged : Abridges schema (.list full) value) :
    ∃ given, value = .list given ∧ List.Forall₂ (Abridges schema) full given := by
  cases abridged with
  | list items => exact ⟨_, rfl, items⟩

theorem Abridges.exists_object {full : List (String × Value)} {tag : String}
    (abridged : Abridges schema (.object full) value)
    (tagged : full.lookup "type" = some (.str tag)) :
    ∃ given, value = .object given ∧ FieldsAbridge schema tag full given := by
  cases abridged with
  | object taggedAs fields =>
    rw [tagged] at taggedAs
    cases taggedAs
    exact ⟨_, rfl, fields⟩

theorem FieldsAbridge.field {tag name : String} {default : Option Value} {full given : List (String × Value)}
    {value : Value} (fields : FieldsAbridge schema tag full given)
    (declared : ⟨name, default⟩ ∈ schema tag) (written : full.lookup name = some value) :
    FieldAbridges (Abridges schema) default (some value) (given.lookup name) := by
  rw [← written]
  exact fields _ declared

end Inversion

section Trees

variable {α : Type} (assemble : Record α → Checked α) (schema : Schema)

/-- The value is the data of the node: it has all declared fields, and whatever is given in
its place is read as the node. -/
structure IsData (value : Value) (node : α) : Prop where
  full : Abridges schema value value
  read : ∀ ⦃given⦄, Abridges schema value given → readNode assemble given = .ok node

/-- The data of a node, or null if there is none. -/
inductive IsOptionalData : Value → Option α → Prop where
  | none : IsOptionalData .null none
  | some {value : Value} {node : α} (isData : IsData assemble schema value node) :
      IsOptionalData value (some node)

/-- The data of a row of nodes. -/
inductive IsRowData : Value → List α → Prop where
  | row {values : List Value} {nodes : List α}
      (cells : List.Forall₂ (IsData assemble schema) values nodes) :
      IsRowData (.list values) nodes

variable {assemble schema}

theorem IsOptionalData.full {value : Value} {node : Option α}
    (isData : IsOptionalData assemble schema value node) : Abridges schema value value := by
  cases isData with
  | none => exact .null
  | some isData => exact isData.full

theorem full_of_nodes {values : List Value} {nodes : List α}
    (areData : List.Forall₂ (IsData assemble schema) values nodes) :
    Abridges schema (.list values) (.list values) := by
  refine .list ?_
  induction areData with
  | nil => exact .nil
  | cons first _ inductionHypothesis => exact .cons first.full inductionHypothesis

theorem full_of_rows {values : List Value} {rows : List (List α)}
    (areData : List.Forall₂ (IsRowData assemble schema) values rows) :
    Abridges schema (.list values) (.list values) := by
  refine .list ?_
  induction areData with
  | nil => exact .nil
  | cons first _ inductionHypothesis =>
    cases first with
    | row cells => exact .cons (full_of_nodes cells) inductionHypothesis

/-- Whatever is given in place of the data of nodes is read as the nodes. -/
theorem readNodesFrom_eq {values given : List Value} {nodes : List α}
    (areData : List.Forall₂ (IsData assemble schema) values nodes)
    (abridged : List.Forall₂ (Abridges schema) values given) (position : Nat) :
    readNodesFrom assemble position given = .ok nodes := by
  induction areData generalizing given position with
  | nil =>
    cases abridged
    rfl
  | cons first _ inductionHypothesis =>
    cases abridged with
    | cons item rest =>
      rw [readNodesFrom, first.read item, inductionHypothesis rest]
      rfl

/-- Whatever is given in place of the data of rows is read as the rows. -/
theorem readRowsFrom_eq {values given : List Value} {rows : List (List α)}
    (areData : List.Forall₂ (IsRowData assemble schema) values rows)
    (abridged : List.Forall₂ (Abridges schema) values given) (position : Nat) :
    readRowsFrom assemble position given = .ok rows := by
  induction areData generalizing given position with
  | nil =>
    cases abridged
    rfl
  | cons first _ inductionHypothesis =>
    cases abridged with
    | cons item rest =>
      cases first with
      | row cells =>
        obtain ⟨items, rfl, itemsAbridged⟩ := item.exists_list
        rw [readRowsFrom, readNodes, readNodesFrom_eq cells itemsAbridged,
          inductionHypothesis rest]
        rfl

end Trees

section Fields

variable {α : Type} {assemble : Record α → Checked α} {schema : Schema}

/-- The field of a record with all its readings. -/
def readField (assemble : Record α → Checked α) (value : Value) : Field α where
  value := value
  node := readNode assemble value
  nodes := readNodes assemble value
  rows := readRows assemble value

theorem field?_readFields (assemble : Record α → Checked α) (name : String)
    (fields : List (String × Value)) :
    (readFields assemble fields).field? name = (fields.lookup name).map (readField assemble) := by
  unfold Record.field?
  induction fields with
  | nil => rfl
  | cons field rest inductionHypothesis =>
    obtain ⟨known, value⟩ := field
    rw [readFields, List.lookup_cons, List.lookup_cons, inductionHypothesis]
    cases name == known <;> rfl

variable {β : Type} {tag name : String} {full given : List (String × Value)} {value : Value}
  (fields : FieldsAbridge schema tag full given)

include fields

/-- A field without a default is there, and is read as in the full form. -/
theorem FieldsAbridge.required {reading : Field α → Checked β} {result : β}
    (declared : ⟨name, none⟩ ∈ schema tag) (written : full.lookup name = some value)
    (reads : ∀ ⦃item⦄, Abridges schema value item → reading (readField assemble item) = .ok result) :
    Checked.required name (((readFields assemble given).field? name).map reading) = .ok result := by
  have field := fields.field declared written
  rw [field?_readFields]
  generalize given.lookup name = found at field
  cases field with
  | kept abridged => simp [Checked.required, Checked.under, reads abridged]

/-- A field with a default is read as in the full form, or has the default there. -/
theorem FieldsAbridge.optional {reading : Field α → Checked β} {default result : β}
    {defaultValue : Value} (declared : ⟨name, some defaultValue⟩ ∈ schema tag)
    (written : full.lookup name = some value)
    (reads : ∀ ⦃item⦄, Abridges schema value item → reading (readField assemble item) = .ok result)
    (standsFor : value = defaultValue → default = result) :
    Checked.optional name default (((readFields assemble given).field? name).map reading) =
      .ok result := by
  have field := fields.field declared written
  rw [field?_readFields]
  generalize given.lookup name = found at field
  cases field with
  | kept abridged => simp [Checked.optional, Checked.under, reads abridged]
  | leftOut => simp [Checked.optional, standsFor rfl]

theorem FieldsAbridge.content {default : Option String} {text : String}
    (declared : ⟨"content", default.map .str⟩ ∈ schema tag)
    (written : full.lookup "content" = some (.str text)) :
    (readFields assemble given).content default = .ok text := by
  have reads ⦃item : Value⦄ (abridged : Abridges schema (.str text) item) :
      Checked.string (readField assemble item).value = .ok text := by
    rw [abridged.eq_str]
    rfl
  cases default with
  | none => exact fields.required declared written reads
  | some default => exact fields.optional declared written reads (by simp [eq_comm])

theorem FieldsAbridge.requiredNode {node : α} (declared : ⟨name, none⟩ ∈ schema tag)
    (written : full.lookup name = some value) (isData : IsData assemble schema value node) :
    (readFields assemble given).requiredNode name = .ok node :=
  fields.required declared written isData.read

theorem FieldsAbridge.optionalNode {node : Option α} (declared : ⟨name, some .null⟩ ∈ schema tag)
    (written : full.lookup name = some value)
    (isData : IsOptionalData assemble schema value node) :
    (readFields assemble given).optionalNode name = .ok node := by
  cases isData with
  | none =>
    refine fields.optional declared written (fun item abridged => ?_) fun _ => rfl
    rw [abridged.eq_null]
    rfl
  | some isData =>
    refine fields.optional declared written (fun item abridged => ?_) ?_
    · have read := isData.read abridged
      cases item with
      | object fields => simp [readField, read, Except.map]
      | null | bool | int | decimal | str | list | other => cases read
    · rintro rfl
      cases isData.read .null

theorem FieldsAbridge.requiredArguments {values : List Value} {nodes : List α}
    (declared : ⟨"args", none⟩ ∈ schema tag) (written : full.lookup "args" = some (.list values))
    (areData : List.Forall₂ (IsData assemble schema) values nodes) :
    (readFields assemble given).requiredArguments = .ok nodes := by
  refine fields.required declared written fun item abridged => ?_
  obtain ⟨items, rfl, itemsAbridged⟩ := abridged.exists_list
  exact readNodesFrom_eq areData itemsAbridged 0

theorem FieldsAbridge.optionalArguments {values : List Value} {nodes : List α}
    (declared : ⟨"args", some (.list [])⟩ ∈ schema tag)
    (written : full.lookup "args" = some (.list values))
    (areData : List.Forall₂ (IsData assemble schema) values nodes) :
    (readFields assemble given).optionalArguments = .ok nodes := by
  refine fields.optional declared written (fun item abridged => ?_) ?_
  · obtain ⟨items, rfl, itemsAbridged⟩ := abridged.exists_list
    exact readNodesFrom_eq areData itemsAbridged 0
  · rintro ⟨⟩
    cases areData
    rfl

theorem FieldsAbridge.rows {values : List Value} {nodes : List (List α)}
    (declared : ⟨"data", some (.list [])⟩ ∈ schema tag)
    (written : full.lookup "data" = some (.list values))
    (areData : List.Forall₂ (IsRowData assemble schema) values nodes) :
    (readFields assemble given).rows = .ok nodes := by
  refine fields.optional declared written (fun item abridged => ?_) ?_
  · obtain ⟨items, rfl, itemsAbridged⟩ := abridged.exists_list
    exact readRowsFrom_eq areData itemsAbridged 0
  · rintro ⟨⟩
    cases areData
    rfl

omit fields in
/-- An object is the data of a node that is put together by its tag if it has all declared
fields and the rule for the tag gives the node. -/
theorem IsData.of_tag {rule? : Record α → String → Option (Checked α)} {node : α}
    (byTag : ∀ record : Record α, assemble record = record.byTag (rule? record))
    (written : full.lookup "type" = some (.str tag)) (declared : ⟨"type", none⟩ ∈ schema tag)
    (complete : ∀ declaration ∈ schema tag, ∃ value, full.lookup declaration.name = some value ∧
      Abridges schema value value)
    (rule : ∀ ⦃given⦄, FieldsAbridge schema tag full given →
      rule? (readFields assemble given) tag = some (.ok node)) :
    IsData assemble schema (.object full) node where
  full := .object_self written complete
  read value abridged := by
    obtain ⟨given, rfl, fields⟩ := abridged.exists_object written
    have field := fields.field declared written
    have ruled := rule fields
    rw [readNode, byTag]
    unfold Record.byTag
    rw [field?_readFields]
    generalize given.lookup "type" = found at field
    cases field with
    | kept abridged =>
      rw [abridged.eq_str]
      simp only [Option.map_some, readField, ruled]
      rfl

end Fields

end MathMarkup.Data.Tree
