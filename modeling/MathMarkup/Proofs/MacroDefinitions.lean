import MathMarkup.Formula
import MathMarkup.Proofs.OptionFields

/-!
# Macros as a set of definitions

A run looks macros up and counts them, and does nothing else with their table. Two
dictionaries that define the same commands alike therefore lead to the same run, whatever the
order of their entries and whether their names are written with a backslash.
-/

namespace MathMarkup

open Data

namespace Tex.MacroTable

section Agreement

variable {table other : MacroTable}

/-- Expansion depends on what is found in the table only. -/
theorem expand_congr (agree : ∀ command, table.find? command = other.find? command)
    (tokens : List Token) : table.expand tokens = other.expand tokens := by
  have single (token : Token) : table.expandToken token = other.expandToken token := by
    simp only [expandToken, agree]
  induction tokens with
  | nil => rfl
  | cons token rest inductionHypothesis => rw [expand, expand, single, inductionHypothesis]

/-- In tables without a name twice that have the same entries, the same is found. -/
theorem find?_congr (distinct : (table.map Prod.fst).Nodup)
    (otherDistinct : (other.map Prod.fst).Nodup) (same : ∀ entry, entry ∈ table ↔ entry ∈ other)
    (command : String) : table.find? command = other.find? command := by
  apply Option.ext
  intro body
  rw [find?_eq_some_iff distinct, find?_eq_some_iff otherDistinct, same]

theorem length_congr (distinct : (table.map Prod.fst).Nodup)
    (otherDistinct : (other.map Prod.fst).Nodup) (same : ∀ entry, entry ∈ table ↔ entry ∈ other) :
    table.length = other.length :=
  ((List.perm_ext_iff_of_nodup distinct.of_map otherDistinct.of_map).mpr same).length_eq

end Agreement

/-- Two dictionaries of macros give the same definitions: neither has two names of one command,
and they have the same entries once every name is a command. -/
structure SameDefinitions (first second : List (String × String)) : Prop where
  distinct : ((normalized first).map Prod.fst).Nodup
  otherDistinct : ((normalized second).map Prod.fst).Nodup
  same : ∀ entry, entry ∈ normalized first ↔ entry ∈ normalized second

end Tex.MacroTable

namespace Formula

/-- A run finds macros in their table and counts them. -/
theorem run_macros_congr (options : Options) {table other : Tex.MacroTable}
    (agree : ∀ command, table.find? command = other.find? command)
    (sizes : table.length = other.length) (symbols : Symbol.Table) (source : String) :
    run { options with macros := table } symbols source =
      run { options with macros := other } symbols source := by
  simp only [run, stages, Tex.MacroTable.expand_congr agree, sizes]

end Formula

namespace Options

section Macros

variable {fields others : List (String × Value)} {table other : Tex.MacroTable}

/-- Fields that differ in the macros only are read as options that do, or have the same faults. -/
theorem exists_ofFields_eq_map
    (given : (fields.lookup "custom_tex_macros").map macrosOfValue = some (.ok table))
    (otherGiven : (others.lookup "custom_tex_macros").map macrosOfValue = some (.ok other))
    (alike : ∀ name, name ≠ "custom_tex_macros" → fields.lookup name = others.lookup name) :
    ∃ checked : Checked Options,
      ofFields fields = checked.map (fun options => { options with macros := table }) ∧
      ofFields others = checked.map (fun options => { options with macros := other }) := by
  have strictness := alike "non_strict" (by decide)
  have preference := alike "prefer_typst_intrinsic" (by decide)
  have limit := alike "max_depth" (by decide)
  simp only [ofFields, given, otherGiven, strictness, preference, limit]
  generalize Checked.optional "non_strict" _ _ = nonStrict
  generalize Checked.optional "prefer_typst_intrinsic" _ _ = preferIntrinsic
  generalize Checked.optional "max_depth" _ _ = maxDepth
  refine ⟨(Checked.both nonStrict (Checked.both preferIntrinsic maxDepth)).map fun read =>
    { nonStrict := read.1, preferIntrinsic := read.2.1, maxDepth := read.2.2 }, ?_⟩
  cases nonStrict <;> cases preferIntrinsic <;> cases maxDepth <;> exact ⟨rfl, rfl⟩

variable {first second : List (String × String)}

/-- Dictionaries with the same definitions lead to the same run, or the other fields have the
same faults. -/
theorem map_run_congr (same : Tex.MacroTable.SameDefinitions first second)
    (given : fields.lookup "custom_tex_macros" = some (dictionary first))
    (otherGiven : others.lookup "custom_tex_macros" = some (dictionary second))
    (alike : ∀ name, name ≠ "custom_tex_macros" → fields.lookup name = others.lookup name)
    (symbols : Symbol.Table) (source : String) :
    (ofFields fields).map (Formula.run · symbols source) =
      (ofFields others).map (Formula.run · symbols source) := by
  have read (definitions : List (String × String))
      (distinct : ((Tex.MacroTable.normalized definitions).map Prod.fst).Nodup) :
      macrosOfValue (dictionary definitions) = .ok (Tex.MacroTable.normalized definitions) := by
    rw [macrosOfValue_dictionary, Tex.MacroTable.ofDefinitions_eq_normalized distinct]
  obtain ⟨checked, readFirst, readSecond⟩ := exists_ofFields_eq_map
    (by rw [given, Option.map_some, read first same.distinct])
    (by rw [otherGiven, Option.map_some, read second same.otherDistinct]) alike
  rw [readFirst, readSecond]
  cases checked with
  | error faults => rfl
  | ok options =>
    have runs := Formula.run_macros_congr options
      (Tex.MacroTable.find?_congr same.distinct same.otherDistinct same.same)
      (Tex.MacroTable.length_congr same.distinct same.otherDistinct same.same) symbols source
    exact congrArg Except.ok runs

end Macros

end Options

/-- The macros of a call are a set of definitions: neither the order of a dictionary nor the
backslash of its names shows in the outcome of a run or in its log, whether the fields are laid
over defaults or read on their own. And options that were read are read again from their own
fields. -/
theorem macros_are_definitions {first second : List (String × String)}
    (same : Tex.MacroTable.SameDefinitions first second) {fields others : List (String × Value)}
    (given : fields.lookup "custom_tex_macros" = some (Options.dictionary first))
    (otherGiven : others.lookup "custom_tex_macros" = some (Options.dictionary second))
    (alike : ∀ name, name ≠ "custom_tex_macros" → fields.lookup name = others.lookup name)
    (symbols : Symbol.Table) (source : String) :
    (∀ defaults : Options,
      (defaults.resolve (some fields)).map (Formula.run · symbols source) =
        (defaults.resolve (some others)).map (Formula.run · symbols source)) ∧
    (Options.ofFields fields).map (Formula.run · symbols source) =
      (Options.ofFields others).map (Formula.run · symbols source) ∧
    ∀ value options, Options.ofValue value = .ok options →
      Options.ofValue options.toValue = .ok options := by
  refine ⟨fun defaults => ?_, Options.map_run_congr same given otherGiven alike symbols source,
    fun value options read => ?_⟩
  · refine Options.map_run_congr same ?_ ?_ (fun name other => ?_) symbols source
    · rw [List.lookup_append, given, Option.some_or]
    · rw [List.lookup_append, otherGiven, Option.some_or]
    · rw [List.lookup_append, List.lookup_append, alike name other]
  · cases value with
    | object fields => exact Options.ofFields_toFields (Options.valid_of_ofFields read)
    | _ => cases read

/-- Two macros, the first without its backslash. -/
def realsFirst : List (String × String) := [("R", "x"), ("\\Q", "y")]

/-- The same macros in the other order, again the first without its backslash. -/
def realsLast : List (String × String) := [("Q", "y"), ("\\R", "x")]

theorem sameDefinitions_reals : Tex.MacroTable.SameDefinitions realsFirst realsLast := by
  have first : Tex.MacroTable.normalized realsFirst = [("\\R", "x"), ("\\Q", "y")] := by decide
  have last : Tex.MacroTable.normalized realsLast = [("\\Q", "y"), ("\\R", "x")] := by decide
  refine ⟨?_, ?_, fun entry => ?_⟩
  · rw [first]
    decide
  · rw [last]
    decide
  · rw [first, last, List.mem_pair, List.mem_pair, or_comm]

theorem macros_are_definitions_reals :
    (∀ defaults : Options,
      (defaults.resolve (some [("custom_tex_macros", Options.dictionary realsFirst)])).map
          (Formula.run · [] "\\R\\Q") =
        (defaults.resolve (some [("custom_tex_macros", Options.dictionary realsLast)])).map
          (Formula.run · [] "\\R\\Q")) ∧
    (Options.ofFields [("custom_tex_macros", Options.dictionary realsFirst)]).map
        (Formula.run · [] "\\R\\Q") =
      (Options.ofFields [("custom_tex_macros", Options.dictionary realsLast)]).map
        (Formula.run · [] "\\R\\Q") ∧
    ∀ value options, Options.ofValue value = .ok options →
      Options.ofValue options.toValue = .ok options := by
  refine macros_are_definitions sameDefinitions_reals rfl rfl (fun name other => ?_) [] "\\R\\Q"
  have differs : (name == "custom_tex_macros") = false := beq_eq_false_iff_ne.mpr other
  simp [List.lookup_cons, differs]

end MathMarkup
