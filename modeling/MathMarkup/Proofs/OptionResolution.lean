import MathMarkup.Proofs.ConfigurationFiles
import MathMarkup.Proofs.Failures
import MathMarkup.Service

/-!
# Options of a call and options of a request

A call lays the fields that it names over the configured options. A request of the service
is read on its own before it is answered, so that the fields it does not name are the
built-in ones. The two come to the same options exactly if the configuration says nothing else
than the built-in options about the fields that are not named.
-/

namespace MathMarkup

open Data

namespace Options

/-- The choices that options are made of. -/
inductive Choice where
  | nonStrict
  | preferIntrinsic
  | macros
  | maxDepth
deriving DecidableEq

/-- The name of the field that makes a choice. -/
def Choice.name : Choice → String
  | nonStrict => "non_strict"
  | preferIntrinsic => "prefer_typst_intrinsic"
  | macros => "custom_tex_macros"
  | maxDepth => "max_depth"

/-- What is chosen. -/
def Choice.Of : Choice → Type
  | nonStrict => Bool
  | preferIntrinsic => Bool
  | macros => Tex.MacroTable
  | maxDepth => Nat

/-- The choice that options make. -/
def chosen (options : Options) : (choice : Choice) → choice.Of
  | .nonStrict => options.nonStrict
  | .preferIntrinsic => options.preferIntrinsic
  | .macros => options.macros
  | .maxDepth => options.maxDepth

/-- The fields name the choice. -/
def Names (fields : List (String × Value)) (choice : Choice) : Prop :=
  (fields.lookup choice.name).isSome = true

section Overlay

variable {fields : List (String × Value)} {defaults given : Options}

/-- Options are the choices that they make. -/
theorem eq_iff_chosen_eq {first second : Options} :
    first = second ↔ ∀ choice, first.chosen choice = second.chosen choice := by
  constructor
  · rintro rfl choice
    rfl
  · intro same
    cases first
    cases second
    congr
    · exact same .nonStrict
    · exact same .preferIntrinsic
    · exact same .macros
    · exact same .maxDepth

/-- A choice that is not named is the built-in one. -/
theorem chosen_of_not_names (read : ofFields fields = .ok given) {choice : Choice}
    (unnamed : ¬ Names fields choice) : given.chosen choice = ({} : Options).chosen choice := by
  have absent : fields.lookup choice.name = none := Option.not_isSome_iff_eq_none.mp unnamed
  obtain ⟨strictness, preference, macros, limit⟩ := ofFields_eq_ok_iff.mp read
  cases choice with
  | nonStrict => rwa [show fields.lookup "non_strict" = none from absent] at strictness
  | preferIntrinsic =>
    rwa [show fields.lookup "prefer_typst_intrinsic" = none from absent] at preference
  | macros => rwa [show fields.lookup "custom_tex_macros" = none from absent] at macros
  | maxDepth => rwa [show fields.lookup "max_depth" = none from absent] at limit

/-- A field over defaults gives what it gives on its own if it is there, and else what the
defaults give. -/
theorem gives_or {α : Type} {builtIn value fallback : α} {read : Value → Checked α}
    {found defaultFound : Option Value} (gives : Checked.Gives builtIn read found value)
    (defaultGives : Checked.Gives builtIn read defaultFound fallback) :
    Checked.Gives builtIn read (found.or defaultFound)
      (if found.isSome then value else fallback) := by
  cases found with
  | none => exact defaultGives
  | some field => exact gives

/-- The given options as far as the fields name their choices, and the defaults for the rest. -/
def layered (fields : List (String × Value)) (given defaults : Options) : Options where
  nonStrict := if (fields.lookup "non_strict").isSome then given.nonStrict else defaults.nonStrict
  preferIntrinsic :=
    if (fields.lookup "prefer_typst_intrinsic").isSome then given.preferIntrinsic
    else defaults.preferIntrinsic
  macros := if (fields.lookup "custom_tex_macros").isSome then given.macros else defaults.macros
  maxDepth := if (fields.lookup "max_depth").isSome then given.maxDepth else defaults.maxDepth

theorem overlay_eq_layered (valid : defaults.Valid) (read : ofFields fields = .ok given) :
    defaults.overlay fields = .ok (layered fields given defaults) := by
  obtain ⟨strictness, preference, macros, limit⟩ := ofFields_eq_ok_iff.mp read
  obtain ⟨defaultStrictness, defaultPreference, defaultMacros, defaultLimit⟩ :=
    ofFields_eq_ok_iff.mp (ofFields_toFields valid)
  rw [overlay, ofFields_eq_ok_iff]
  simp only [List.lookup_append]
  exact ⟨gives_or strictness defaultStrictness, gives_or preference defaultPreference,
    gives_or macros defaultMacros, gives_or limit defaultLimit⟩

theorem chosen_layered_of_names {choice : Choice} (named : Names fields choice) :
    (layered fields given defaults).chosen choice = given.chosen choice := by
  cases choice <;> exact if_pos named

theorem chosen_layered_of_not_names {choice : Choice} (unnamed : ¬ Names fields choice) :
    (layered fields given defaults).chosen choice = defaults.chosen choice := by
  cases choice <;> exact if_neg unnamed

/-- The defaults do not show exactly if they make the built-in choices wherever no field does. -/
theorem eq_layered_iff (read : ofFields fields = .ok given) :
    given = layered fields given defaults ↔
      ∀ choice, ¬ Names fields choice → defaults.chosen choice = ({} : Options).chosen choice := by
  rw [eq_iff_chosen_eq]
  constructor
  · intro same choice unnamed
    rw [← chosen_layered_of_not_names unnamed, ← same, chosen_of_not_names read unnamed]
  · intro builtIn choice
    by_cases named : Names fields choice
    · rw [chosen_layered_of_names named]
    · rw [chosen_layered_of_not_names named, builtIn choice named, chosen_of_not_names read named]

end Overlay

end Options

namespace Configuration

/-- Options that were loaded are in order. -/
theorem valid_of_loadBy {read : String → Option Yaml.Node} {name : String}
    {file : Option ByteArray} {loaded : Loaded} (success : loadBy read name file = .ok loaded) :
    loaded.options.Valid := by
  cases file with
  | none =>
    cases success
    exact Options.valid_builtIn
  | some bytes =>
    rw [loadBy] at success
    split at success
    · rename_i source _
      by_cases configures : ∃ options, Configures read source options
      · obtain ⟨options, configures⟩ := configures
        rw [ofText_of_configures configures] at success
        cases success
        obtain ⟨_, _, _, _, isRead⟩ := configures
        exact Options.valid_of_ofFields isRead
      · rw [ofText_of_not_configures (not_exists.mp configures)] at success
        cases success
        exact Options.valid_builtIn
    · cases success

end Configuration

namespace Service

open Options (Choice Names)

/-- A request is answered with its own options over the built-in ones. -/
theorem respond_eq {body fields : List (String × Value)} {source : String} {given : Options}
    (formula : body.lookup "tex" = some (.str source))
    (options : body.lookup "options" = some (.object fields))
    (notBlank : source.toList.all Text.isBlank = false)
    (read : Options.ofFields fields = .ok given) (defaults : Options) :
    respond defaults (.object body) = .ofReport (Formula.run given Symbol.standard source) := by
  have request : Request.ofValue (.object body) = .ok ⟨source, some given⟩ := by
    simp only [Request.ofValue, formula, options, Option.map_some, optionsOrNull, Options.ofValue,
      read]
    rfl
  rw [respond, request]
  simp [answer, notBlank]

/-- The service answers a request with options of its own as the call with these fields does,
exactly as far as the configured options do not count: both come to the same options if and only if
the configuration makes the built-in choice wherever the request makes none. The call takes the
named fields from what is given and all others from the configuration; the service takes the others
from the built-in options. -/
theorem request_resolved_as_call_iff {readDocument : String → Option Yaml.Node} {name : String}
    {file : Option ByteArray} {configured : Configuration.Loaded}
    (loaded : Configuration.loadBy readDocument name file = .ok configured)
    {body fields : List (String × Value)} {source : String} {given : Options}
    (formula : body.lookup "tex" = some (.str source))
    (options : body.lookup "options" = some (.object fields))
    (notBlank : source.toList.all Text.isBlank = false)
    (read : Options.ofFields fields = .ok given) :
    ∃ resolved, configured.options.resolve (some fields) = .ok resolved ∧
      (∀ choice, (Names fields choice → resolved.chosen choice = given.chosen choice) ∧
        (¬ Names fields choice → resolved.chosen choice = configured.options.chosen choice)) ∧
      respond configured.options (.object body) =
        .ofReport (Formula.run given Symbol.standard source) ∧
      (given = resolved ↔ ∀ choice, ¬ Names fields choice →
        configured.options.chosen choice = ({} : Options).chosen choice) := by
  have valid := Configuration.valid_of_loadBy loaded
  refine ⟨_, Options.overlay_eq_layered valid read, fun choice => ?_,
    respond_eq formula options notBlank read _, Options.eq_layered_iff read⟩
  exact ⟨Options.chosen_layered_of_names, Options.chosen_layered_of_not_names⟩

/-- A configuration that admits a single level. -/
def oneLevel : String := "options:\n  max_depth: 1\n"

/-- A request that chooses strict mode and nothing else. -/
def strictRequest (source : String) : Value :=
  .object [("tex", .str source), ("options", .object [("non_strict", .bool false)])]

theorem load_oneLevel :
    Configuration.load "config.yaml" (some oneLevel.toUTF8) =
      .ok { options := { maxDepth := 1 } } := by
  have configures : Configuration.Configures Yaml.read oneLevel { maxDepth := 1 } :=
    Configuration.configures_iff.mpr (by cbv)
  rw [Configuration.load, Configuration.loadBy, Configuration.fromUTF8?_eq_some_iff.mpr rfl]
  exact congrArg Except.ok (Configuration.ofText_of_configures configures _)

theorem request_resolved_as_call_iff_oneLevel :
    ∃ resolved,
      Options.resolve { maxDepth := 1 } (some [("non_strict", .bool false)]) = .ok resolved ∧
      (∀ choice, (Names [("non_strict", .bool false)] choice →
          resolved.chosen choice = ({} : Options).chosen choice) ∧
        (¬ Names [("non_strict", .bool false)] choice →
          resolved.chosen choice = Options.chosen { maxDepth := 1 } choice)) ∧
      respond { maxDepth := 1 } (strictRequest "x") =
        .ofReport (Formula.run {} Symbol.standard "x") ∧
      (({} : Options) = resolved ↔ ∀ choice, ¬ Names [("non_strict", .bool false)] choice →
        Options.chosen { maxDepth := 1 } choice = ({} : Options).chosen choice) :=
  request_resolved_as_call_iff load_oneLevel rfl rfl (by decide) rfl

/-- The configured limit counts for a call that does not choose one, and is passed over in
the answer to a request. -/
theorem configured_limit_passed_over :
    Configuration.load "config.yaml" (some oneLevel.toUTF8) =
      .ok { options := { maxDepth := 1 } } ∧
    (∃ resolved,
      Options.resolve { maxDepth := 1 } (some [("non_strict", .bool false)]) = .ok resolved ∧
      (Formula.run resolved Symbol.standard "\x7bx\x7d").outcome =
        .error (.parse (.tooDeep 1 ⟨.element, "x"⟩))) ∧
    ∃ log, respond { maxDepth := 1 } (strictRequest "\x7bx\x7d") = .converted "x" log := by
  have tooDeep (symbols : Symbol.Table) :
      Formula.treeOf { maxDepth := 1 } symbols "\x7bx\x7d" =
        .error (.tooDeep 1 ⟨.element, "x"⟩) := by
    cbv
  have read (symbols : Symbol.Table) :
      Formula.treeOf {} symbols "\x7bx\x7d" = .ok (.element "x") := by
    cbv
  have written : (Formula.run {} Symbol.standard "\x7bx\x7d").outcome = .ok "x" := by
    rw [Formula.outcome_run, read]
    rfl
  have answered : respond { maxDepth := 1 } (strictRequest "\x7bx\x7d") =
      .ofReport (Formula.run {} Symbol.standard "\x7bx\x7d") :=
    respond_eq rfl rfl (by decide) rfl { maxDepth := 1 }
  rw [Response.ofReport, written] at answered
  refine ⟨load_oneLevel, ⟨{ maxDepth := 1 }, rfl, ?_⟩, _, answered⟩
  rw [Formula.outcome_run, tooDeep]
  rfl

end Service

end MathMarkup
