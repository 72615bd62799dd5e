import Mathlib
import MathMarkup.Options.Basic

/-!
# Options and their fields

Options are read from fields one by one, so that what they come to depends only on what
stands under the four names. Options that were read have a limit of at least one and a table
of macros named by commands, no command twice; and the fields of such options are read as the
options that they are of.
-/

namespace MathMarkup

open Data

namespace Tex.MacroTable

/-- Every macro is named by a command, and no command has two replacements. -/
structure WellFormed (table : MacroTable) : Prop where
  named : ∀ name ∈ table.map Prod.fst, commandOf name = name
  distinct : (table.map Prod.fst).Nodup

theorem commandOf_commandOf (name : String) : commandOf (commandOf name) = commandOf name := by
  by_cases isCommand : name.toList.head? = some '\\' <;> simp [commandOf, isCommand]

section Insertion

variable {command : String} {table : MacroTable}

/-- A new command comes last. -/
theorem insert_of_not_mem (body : String) (fresh : command ∉ table.map Prod.fst) :
    insert command body table = table ++ [(command, body)] := by
  induction table with
  | nil => rfl
  | cons entry rest inductionHypothesis =>
    rw [List.map_cons, List.mem_cons, not_or] at fresh
    rw [insert, if_neg (Ne.symm fresh.1), inductionHypothesis fresh.2, List.cons_append]

/-- A known command keeps its place, and so do all others. -/
theorem names_insert_of_mem (body : String) (known : command ∈ table.map Prod.fst) :
    (insert command body table).map Prod.fst = table.map Prod.fst := by
  induction table with
  | nil => cases known
  | cons entry rest inductionHypothesis =>
    rw [insert]
    split
    · rfl
    · rename_i other
      rw [List.map_cons, List.mem_cons] at known
      rw [List.map_cons, List.map_cons, inductionHypothesis (known.resolve_left (Ne.symm other))]

theorem WellFormed.insert (wellFormed : WellFormed table) (name body : String) :
    WellFormed (MacroTable.insert (commandOf name) body table) := by
  by_cases known : commandOf name ∈ table.map Prod.fst
  · have names := names_insert_of_mem body known
    exact ⟨names ▸ wellFormed.named, names ▸ wellFormed.distinct⟩
  · rw [insert_of_not_mem body known]
    constructor
    · rw [List.map_append, List.forall_mem_append]
      exact ⟨wellFormed.named, by simpa using commandOf_commandOf name⟩
    · rw [List.map_append, List.nodup_append]
      refine ⟨wellFormed.distinct, by simp, ?_⟩
      rintro other listed _ (isNew : _ ∈ [commandOf name]) rfl
      rw [List.mem_singleton] at isNew
      exact known (isNew ▸ listed)

end Insertion

/-- Definitions under the commands that they define. -/
def normalized (definitions : List (String × String)) : MacroTable :=
  definitions.map fun (name, body) => (commandOf name, body)

/-- The table after more definitions. -/
def define (table : MacroTable) (definitions : List (String × String)) : MacroTable :=
  definitions.foldl (fun table (name, body) => insert (commandOf name) body table) table

theorem define_cons (table : MacroTable) (name body : String) (rest : List (String × String)) :
    define table ((name, body) :: rest) = define (insert (commandOf name) body table) rest := rfl

theorem WellFormed.define {table : MacroTable} (wellFormed : WellFormed table)
    (definitions : List (String × String)) : WellFormed (define table definitions) := by
  induction definitions generalizing table with
  | nil => exact wellFormed
  | cons definition rest inductionHypothesis =>
    exact inductionHypothesis (wellFormed.insert definition.1 definition.2)

theorem wellFormed_ofDefinitions (definitions : List (String × String)) :
    WellFormed (ofDefinitions definitions) :=
  WellFormed.define ⟨by simp, by simp⟩ definitions

/-- Definitions of commands that are new and differ come last, in their order. -/
theorem define_of_distinct {table : MacroTable} {definitions : List (String × String)}
    (distinct : ((table ++ normalized definitions).map Prod.fst).Nodup) :
    define table definitions = table ++ normalized definitions := by
  induction definitions generalizing table with
  | nil => exact (List.append_nil table).symm
  | cons definition rest inductionHypothesis =>
    obtain ⟨name, body⟩ := definition
    -- The first definition moves over to the table, which the induction is general in.
    have regrouped : table ++ normalized ((name, body) :: rest) =
        table ++ [(commandOf name, body)] ++ normalized rest := by simp [normalized]
    rw [regrouped] at distinct ⊢
    have fresh : commandOf name ∉ table.map Prod.fst := by
      intro known
      rw [List.append_assoc, List.map_append, List.nodup_append] at distinct
      exact distinct.2.2 _ known _ List.mem_cons_self rfl
    rw [define_cons, insert_of_not_mem body fresh, inductionHypothesis distinct]

theorem ofDefinitions_eq_normalized {definitions : List (String × String)}
    (distinct : ((normalized definitions).map Prod.fst).Nodup) :
    ofDefinitions definitions = normalized definitions :=
  define_of_distinct distinct

theorem WellFormed.normalized_eq_self {table : MacroTable} (wellFormed : WellFormed table) :
    normalized table = table := by
  have each : ∀ entry ∈ table, (commandOf entry.1, entry.2) = entry := fun entry listed => by
    rw [wellFormed.named _ (List.mem_map_of_mem listed)]
  exact (List.map_congr_left each).trans (List.map_id' table)

/-- A well-formed table is given by its own entries. -/
theorem WellFormed.ofDefinitions_eq_self {table : MacroTable} (wellFormed : WellFormed table) :
    ofDefinitions table = table := by
  have same := wellFormed.normalized_eq_self
  rw [ofDefinitions_eq_normalized (same.symm ▸ wellFormed.distinct), same]

/-- In a table without a name twice, what is found is what is there. -/
theorem find?_eq_some_iff {table : MacroTable} (distinct : (table.map Prod.fst).Nodup)
    {command body : String} : table.find? command = some body ↔ (command, body) ∈ table := by
  unfold find?
  induction table with
  | nil => simp
  | cons entry rest inductionHypothesis =>
    obtain ⟨name, known⟩ := entry
    rw [List.map_cons, List.nodup_cons] at distinct
    by_cases isFirst : command = name
    · subst isFirst
      have notLater : (command, body) ∉ rest := fun listed =>
        distinct.1 (List.mem_map.mpr ⟨(command, body), listed, rfl⟩)
      simp [notLater, eq_comm]
    · have differs : (command == name) = false := beq_eq_false_iff_ne.mpr isFirst
      simp [List.lookup_cons, differs, isFirst, inductionHypothesis distinct.2]

end Tex.MacroTable

namespace Data.Checked

variable {α β : Type}

/-- What a field that may be absent comes to: the default, or what its value is read as. -/
def Gives (default : α) (read : Value → Checked α) : Option Value → α → Prop
  | none, value => value = default
  | some given, value => read given = .ok value

/-- What holds of the default and of whatever a value is read as holds of the field. -/
theorem Gives.holds {property : α → Prop} {default value : α} {read : Value → Checked α}
    {found : Option Value} (gives : Gives default read found value) (ofDefault : property default)
    (ofRead : ∀ given value, read given = .ok value → property value) : property value := by
  cases found with
  | none =>
    rw [(gives : value = default)]
    exact ofDefault
  | some given => exact ofRead given value gives

theorem under_eq_ok_iff {step : PathStep} {checked : Checked α} {value : α} :
    under step checked = .ok value ↔ checked = .ok value := by
  cases checked <;> simp [under]

theorem optional_eq_ok_iff {name : String} {default value : α} {read : Value → Checked α}
    {given : Option Value} :
    optional name default (given.map read) = .ok value ↔ Gives default read given value := by
  cases given with
  | none => simp [optional, Gives, eq_comm]
  | some given => exact under_eq_ok_iff

theorem both_eq_ok_iff {first : Checked α} {second : Checked β} {pair : α × β} :
    both first second = .ok pair ↔ first = .ok pair.1 ∧ second = .ok pair.2 := by
  cases first <;> cases second <;> simp [both, Prod.ext_iff]

theorem map_eq_ok_iff {checked : Checked α} {build : α → β} {result : β} :
    checked.map build = .ok result ↔ ∃ value, checked = .ok value ∧ build value = result := by
  cases checked <;> simp [Except.map]

end Data.Checked

namespace Options

/-- Options are read field by field. -/
theorem ofFields_eq_ok_iff {fields : List (String × Value)} {options : Options} :
    ofFields fields = .ok options ↔
      Checked.Gives false Checked.truth (fields.lookup "non_strict") options.nonStrict ∧
      Checked.Gives true Checked.truth (fields.lookup "prefer_typst_intrinsic")
        options.preferIntrinsic ∧
      Checked.Gives [] macrosOfValue (fields.lookup "custom_tex_macros") options.macros ∧
      Checked.Gives 128 Checked.positive (fields.lookup "max_depth") options.maxDepth := by
  unfold ofFields
  simp only [Checked.map_eq_ok_iff, Checked.both_eq_ok_iff, Checked.optional_eq_ok_iff]
  constructor
  · rintro ⟨values, given, rfl⟩
    exact given
  · intro given
    exact ⟨(_, _, _, _), given, rfl⟩

theorem ofFields_congr {fields others : List (String × Value)}
    (same : ∀ name, fields.lookup name = others.lookup name) :
    ofFields fields = ofFields others := by
  simp only [ofFields, same]

/-- The dictionary of some definitions. -/
def dictionary (definitions : List (String × String)) : Value :=
  .object (definitions.map fun (name, body) => (name, .str body))

theorem macrosOfValue_dictionary (definitions : List (String × String)) :
    macrosOfValue (dictionary definitions) = .ok (Tex.MacroTable.ofDefinitions definitions) := by
  have read : definitionsOfFields (definitions.map fun (name, body) => (name, Value.str body)) =
      .ok definitions := by
    induction definitions with
    | nil => rfl
    | cons definition rest inductionHypothesis =>
      rw [List.map_cons, definitionsOfFields, inductionHypothesis]
      rfl
  rw [dictionary, macrosOfValue, read]
  rfl

/-- The options can have been read: the limit is at least one, and the macros are in order. -/
structure Valid (options : Options) : Prop where
  limit : 1 ≤ options.maxDepth
  macros : options.macros.WellFormed

theorem valid_builtIn : Valid {} :=
  ⟨by decide, ⟨by simp, by simp⟩⟩

theorem one_le_of_positive {value : Value} {limit : Nat}
    (read : Checked.positive value = .ok limit) : 1 ≤ limit := by
  unfold Checked.positive at read
  split at read
  · cases read
  · split at read
    · cases read
      omega
    · cases read

theorem wellFormed_of_macrosOfValue {value : Value} {table : Tex.MacroTable}
    (read : macrosOfValue value = .ok table) : table.WellFormed := by
  unfold macrosOfValue at read
  split at read
  · obtain ⟨definitions, -, rfl⟩ := Checked.map_eq_ok_iff.mp read
    exact Tex.MacroTable.wellFormed_ofDefinitions definitions
  · cases read

theorem valid_of_ofFields {fields : List (String × Value)} {options : Options}
    (read : ofFields fields = .ok options) : Valid options := by
  obtain ⟨-, -, macros, limit⟩ := ofFields_eq_ok_iff.mp read
  exact ⟨limit.holds (by decide) fun _ _ => one_le_of_positive,
    macros.holds valid_builtIn.macros fun _ _ => wellFormed_of_macrosOfValue⟩

/-- The fields of options that are in order are read as these options. -/
theorem ofFields_toFields {options : Options} (valid : Valid options) :
    ofFields options.toFields = .ok options := by
  rw [ofFields_eq_ok_iff]
  refine ⟨rfl, rfl, ?_, ?_⟩
  · change macrosOfValue (dictionary options.macros) = .ok options.macros
    rw [macrosOfValue_dictionary, valid.macros.ofDefinitions_eq_self]
  · change Checked.positive (.int options.maxDepth) = .ok options.maxDepth
    have limit : 1 ≤ (options.maxDepth : Int) := by exact_mod_cast valid.limit
    simp [Checked.positive, Checked.integer, limit]

end Options
end MathMarkup
