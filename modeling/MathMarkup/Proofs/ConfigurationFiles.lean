import MathMarkup.Options.Configuration
import MathMarkup.Proofs.OptionFields

/-!
# Loading a configuration file

A file is loaded by decoding its bytes, reading the document, taking the section of the
options and reading these. Whatever goes wrong after the decoding leaves the built-in options
and a warning. Bytes that are no text are not caught: they are the one way to fail.
-/

namespace MathMarkup

open Data

namespace Data.Value

variable {α : Type}

theorem lookup_setField (name other : String) (value : α) (fields : List (String × α)) :
    (setField name value fields).lookup other =
      if other = name then some value else fields.lookup other := by
  induction fields with
  | nil => grind [setField]
  | cons field rest inductionHypothesis => grind [setField]

/-- Of pairs with one name the last counts. -/
theorem lookup_fieldsOfPairs (name : String) (pairs : List (String × α)) :
    (fieldsOfPairs pairs).lookup name = pairs.reverse.lookup name := by
  have step (fields : List (String × α)) :
      (pairs.foldl (fun fields pair => setField pair.1 pair.2 fields) fields).lookup name =
        (pairs.reverse.lookup name).or (fields.lookup name) := by
    induction pairs generalizing fields with
    | nil => rfl
    | cons pair rest inductionHypothesis =>
      rw [List.foldl_cons, inductionHypothesis, lookup_setField, List.reverse_cons,
        List.lookup_append, Option.or_assoc]
      grind
  simpa [fieldsOfPairs] using step []

end Data.Value

namespace Yaml.Node

/-- The entry is named by a string, and this is its field. -/
def NamedBy (setting : Node × Node) (field : String × Value) : Prop :=
  setting.1.key? = some field.1 ∧ setting.2.toValue = field.2

variable {settings : List (Node × Node)} {pairs : List (String × Value)}

theorem namedFields?_toEntries_eq_some_iff :
    namedFields? (toEntries settings) = some pairs ↔ List.Forall₂ NamedBy settings pairs := by
  induction settings generalizing pairs with
  | nil => simp [toEntries, namedFields?, eq_comm]
  | cons setting rest inductionHypothesis =>
    obtain ⟨key, value⟩ := setting
    rw [toEntries, List.forall₂_cons_left_iff]
    cases isKey : key.key? with
    | none => simp [namedFields?, NamedBy, isKey]
    | some name =>
      rw [namedFields?, Option.map_eq_some_iff]
      constructor
      · rintro ⟨others, read, rfl⟩
        exact ⟨(name, value.toValue), others, ⟨isKey, rfl⟩, inductionHypothesis.mp read, rfl⟩
      · rintro ⟨⟨_, _⟩, others, ⟨sameKey, rfl⟩, named, rfl⟩
        cases isKey.symm.trans sameKey
        exact ⟨others, inductionHypothesis.mpr named, rfl⟩

/-- Entries that are all named by strings have fields. -/
theorem exists_namedBy_iff :
    (∃ pairs, List.Forall₂ NamedBy settings pairs) ↔
      ∀ setting ∈ settings, ∃ name, setting.1.key? = some name := by
  induction settings with
  | nil => simp
  | cons setting rest inductionHypothesis =>
    rw [List.forall_mem_cons, ← inductionHypothesis]
    constructor
    · rintro ⟨_, _ | ⟨named, others⟩⟩
      exact ⟨⟨_, named.1⟩, _, others⟩
    · rintro ⟨⟨name, isKey⟩, pairs, others⟩
      exact ⟨(name, setting.2.toValue) :: pairs, .cons ⟨isKey, rfl⟩ others⟩

/-- Only a mapping whose entries are all named by strings is an object. -/
theorem toValue_eq_object_iff {node : Node} {fields : List (String × Value)} :
    node.toValue = .object fields ↔
      ∃ settings pairs, node = .mapping settings ∧ List.Forall₂ NamedBy settings pairs ∧
        Value.fieldsOfPairs pairs = fields := by
  cases node with
  | scalar value => cases value <;> simp [toValue, Scalar.toValue]
  | sequence items => simp [toValue]
  | mapping settings =>
    rw [toValue, objectOf]
    constructor
    · intro isObject
      split at isObject
      · rename_i pairs read
        cases isObject
        exact ⟨settings, pairs, rfl, namedFields?_toEntries_eq_some_iff.mp read, rfl⟩
      · cases isObject
    · rintro ⟨_, pairs, isMapping, named, rfl⟩
      cases isMapping
      rw [namedFields?_toEntries_eq_some_iff.mpr named]

/-- Of named entries the last one with a name gives the field. -/
theorem lookup_reverse_of_namedBy (named : List.Forall₂ NamedBy settings pairs) (name : String) :
    pairs.reverse.lookup name = (lookup? name settings).map toValue := by
  have reversed := List.forall₂_reverse_iff.mpr named
  rw [lookup?, Option.map_map]
  generalize settings.reverse = settings, pairs.reverse = pairs at reversed
  induction reversed with
  | nil => rfl
  | @cons setting pair _ _ first others inductionHypothesis => grind [NamedBy]

end Yaml.Node

namespace Configuration

open Yaml.Node (lookup?)

/-- The fields that a document gives in its section of options. A document without the
section gives none, and so does one that says nothing, or whose section does. -/
inductive Section : Yaml.Node → List (String × Value) → Prop where
  | nothing {document : Yaml.Node} (empty : saysNothing document = true) : Section document []
  | absent {entries : List (Yaml.Node × Yaml.Node)} (missing : lookup? "options" entries = none) :
      Section (.mapping entries) []
  | unset {entries : List (Yaml.Node × Yaml.Node)} {options : Yaml.Node}
      (found : lookup? "options" entries = some options) (empty : saysNothing options = true) :
      Section (.mapping entries) []
  /-- Options are named by strings. Of two values under one name the later counts. -/
  | given {entries settings : List (Yaml.Node × Yaml.Node)} {fields : List (String × Value)}
      (found : lookup? "options" entries = some (.mapping settings))
      (named : ∀ setting ∈ settings, ∃ name, setting.1.key? = some name)
      (values : ∀ name, fields.lookup name = (lookup? name settings).map Yaml.Node.toValue) :
      Section (.mapping entries) fields

theorem section_of_section? {document : Yaml.Node} {fields : List (String × Value)}
    (found : section? document = some fields) : Section document fields := by
  unfold section? at found
  split at found
  · rename_i empty
    cases found
    exact .nothing empty
  split at found
  · split at found
    · rename_i missing
      cases found
      exact .absent missing
    · rename_i options isGiven
      split at found
      · rename_i empty
        cases found
        exact .unset isGiven empty
      · split at found
        · rename_i given isObject
          cases found
          obtain ⟨settings, pairs, rfl, named, rfl⟩ :=
            Yaml.Node.toValue_eq_object_iff.mp isObject
          refine .given isGiven (Yaml.Node.exists_namedBy_iff.mp ⟨pairs, named⟩) fun name => ?_
          rw [Value.lookup_fieldsOfPairs, Yaml.Node.lookup_reverse_of_namedBy named]
        · cases found
  · cases found

theorem Section.exists_section? {document : Yaml.Node} {fields : List (String × Value)}
    (given : Section document fields) :
    ∃ found, section? document = some found ∧ ∀ name, found.lookup name = fields.lookup name := by
  cases given with
  | nothing empty => exact ⟨[], by unfold section?; rw [if_pos empty], fun _ => rfl⟩
  | absent missing => exact ⟨[], by simp [section?, missing], fun _ => rfl⟩
  | unset found empty => exact ⟨[], by simp [section?, found, empty], fun _ => rfl⟩
  | @given entries settings _ found named values =>
    have filled : saysNothing (.mapping entries) = false := by
      cases entries with
      | nil => cases found
      | cons entry rest => rfl
    simp only [section?, filled, found, Bool.false_eq_true, if_false]
    cases settings with
    | nil => exact ⟨[], rfl, fun name => (values name).symm⟩
    | cons setting rest =>
      obtain ⟨pairs, isNamed⟩ := Yaml.Node.exists_namedBy_iff.mpr named
      have isObject := Yaml.Node.toValue_eq_object_iff.mpr ⟨_, pairs, rfl, isNamed, rfl⟩
      refine ⟨Value.fieldsOfPairs pairs, ?_, fun name => ?_⟩
      · have filled : saysNothing (.mapping (setting :: rest)) = false := rfl
        simp [filled, isObject]
      · rw [Value.lookup_fieldsOfPairs, Yaml.Node.lookup_reverse_of_namedBy isNamed, values]

/-- A document is in order exactly if it gives fields that are read as options. -/
theorem options?_eq_some_iff {document : Yaml.Node} {options : Options} :
    options? document = some options ↔
      ∃ fields, Section document fields ∧ Options.ofFields fields = .ok options := by
  have toOption (checked : Checked Options) :
      checked.toOption = some options ↔ checked = .ok options := by
    cases checked <;> simp [Except.toOption]
  constructor
  · intro inOrder
    unfold options? at inOrder
    split at inOrder
    · cases inOrder
    · rename_i fields found
      exact ⟨fields, section_of_section? found, (toOption _).mp inOrder⟩
  · rintro ⟨fields, given, read⟩
    obtain ⟨found, isSection, same⟩ := given.exists_section?
    rw [options?, isSection]
    exact (toOption _).mpr ((Options.ofFields_congr same).trans read)

/-- The text of a file is a document whose section of options is read as the options. -/
def Configures (read : String → Option Yaml.Node) (source : String) (options : Options) : Prop :=
  ∃ document fields, read source = some document ∧ Section document fields ∧
    Options.ofFields fields = .ok options

section Loading

variable {read : String → Option Yaml.Node} {source : String} {options : Options}

theorem configures_iff :
    Configures read source options ↔ (read source).bind options? = some options := by
  simp only [Configures, Option.bind_eq_some_iff, options?_eq_some_iff]
  constructor
  · rintro ⟨document, fields, isDocument, given⟩
    exact ⟨document, isDocument, fields, given⟩
  · rintro ⟨document, isDocument, fields, given⟩
    exact ⟨document, fields, isDocument, given⟩

theorem ofText_of_configures (configures : Configures read source options) (name : String) :
    ofText read name source = { options } := by
  rw [ofText, configures_iff.mp configures]

theorem ofText_of_not_configures (refused : ∀ options, ¬ Configures read source options)
    (name : String) : ofText read name source = { warning := some (malformed name) } := by
  have nothing : (read source).bind options? = none :=
    Option.eq_none_iff_forall_ne_some.mpr fun options found =>
      refused options (configures_iff.mpr found)
  rw [ofText, nothing]

theorem fromUTF8?_eq_some_iff {bytes : ByteArray} :
    String.fromUTF8? bytes = some source ↔ source.toUTF8 = bytes := by
  unfold String.fromUTF8?
  constructor
  · intro decoded
    split at decoded
    · cases decoded
      rfl
    · cases decoded
  · rintro rfl
    exact dif_pos source.isValidUTF8

end Loading

/-- Loading an existing file fails exactly if its bytes, taken as a whole, are no text. For a text
it comes to the options of the section if there is one in order, without a warning, and to the
built-in options with a warning if there is none. -/
theorem load_fails_iff (read : String → Option Yaml.Node) (name : String) (bytes : ByteArray) :
    (loadBy read name (some bytes) = .error .notText ↔ ∀ source : String, source.toUTF8 ≠ bytes) ∧
    ∀ source : String, source.toUTF8 = bytes →
      (∀ options, Configures read source options →
        loadBy read name (some bytes) = .ok { options, warning := none }) ∧
      ((∀ options, ¬ Configures read source options) →
        loadBy read name (some bytes) =
          .ok { options := {}, warning := some (malformed name) }) := by
  have loaded {source : String} (decodes : source.toUTF8 = bytes) :
      loadBy read name (some bytes) = .ok (ofText read name source) := by
    rw [loadBy, fromUTF8?_eq_some_iff.mpr decodes]
  refine ⟨⟨fun fails source decodes => ?_, fun noText => ?_⟩, fun source decodes => ?_⟩
  · rw [loaded decodes] at fails
    cases fails
  · have undecoded : String.fromUTF8? bytes = none :=
      Option.eq_none_iff_forall_ne_some.mpr fun source decoded =>
        noText source (fromUTF8?_eq_some_iff.mp decoded)
    rw [loadBy, undecoded]
  · refine ⟨fun options configures => ?_, fun refused => ?_⟩
    · rw [loaded decodes, ofText_of_configures configures]
    · rw [loaded decodes, ofText_of_not_configures refused]

theorem load_fails_iff_limit :
    Configures Yaml.read "options:\n  max_depth: 16\n" { maxDepth := 16 } ∧
      loadBy Yaml.read "config.yaml" (some "options:\n  max_depth: 16\n".toUTF8) =
        .ok { options := { maxDepth := 16 }, warning := none } := by
  have configures : Configures Yaml.read "options:\n  max_depth: 16\n" { maxDepth := 16 } :=
    configures_iff.mpr (by cbv)
  exact ⟨configures, ((load_fails_iff Yaml.read "config.yaml" _).2 _ rfl).1 _ configures⟩

/-- A byte that starts no character stops the loading. -/
theorem load_stray_byte : load "config.yaml" (some ⟨#[255]⟩) = .error .notText := by
  have invalid : ¬ ByteArray.IsValidUTF8 ⟨#[255]⟩ := by
    rw [← ByteArray.validateUTF8_eq_false_iff]
    cbv
  have undecoded : String.fromUTF8? ⟨#[255]⟩ = none := dif_neg invalid
  rw [load, loadBy, undecoded]

end Configuration
end MathMarkup
