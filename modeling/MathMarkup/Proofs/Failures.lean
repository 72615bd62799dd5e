import MathMarkup.Proofs.Pieces
import MathMarkup.Proofs.Refusal

/-!
# How a run fails

A run stops at the first stage that fails. Reading can fail in all of its ways, writing
cannot fail, and a conversion fails at the first leaf that it refuses.
-/

namespace MathMarkup.Formula

open Tex (Node)

/-- The tree that a source is read as. -/
def treeOf (options : Options) (symbols : Symbol.Table) (source : String) :
    Except Tex.ParseError Node := do
  let tokens ← Tex.tokenize source
  let tokens ← options.macros.expand (Tex.dropScriptSpacing tokens)
  Tex.parseTokens { symbols, maxDepth := options.maxDepth } tokens

/-- The settings of the conversion in a run. -/
def settingsOf (options : Options) (symbols : Symbol.Table) : Conversion.Settings :=
  { passUnknown := options.nonStrict, preferIntrinsic := options.preferIntrinsic, symbols }

section Stages

variable {α β : Type}

/-- The outcome of a stage without its log. -/
def withoutLog : EStateM.Result Failure (List String) α → Except Failure α
  | .ok value _ => .ok value
  | .error failure _ => .error failure

/-- The stage comes to the outcome, whatever was noted before it. -/
def ComesTo (stage : Stage α) (outcome : Except Failure α) : Prop :=
  ∀ log, withoutLog (stage log) = outcome

theorem ComesTo.bind {stage : Stage α} {next : α → Stage β} {outcome : Except Failure α}
    {after : α → Except Failure β} (first : ComesTo stage outcome)
    (second : ∀ value, ComesTo (next value) (after value)) :
    ComesTo (stage >>= next) (outcome >>= after) := by
  intro log
  change withoutLog (EStateM.bind stage next log) = _
  rw [← first log]
  unfold EStateM.bind
  cases stage log with
  | ok value noted => exact second value noted
  | error failure noted => rfl

theorem ComesTo.note_bind (line : String) {next : Stage α} {outcome : Except Failure α}
    (comesTo : ComesTo next outcome) : ComesTo (do note line; next) outcome :=
  fun log => comesTo (log ++ [line])

theorem ComesTo.pure_note (line : String) (value : α) :
    ComesTo (do note line; return value) (pure value) :=
  .note_bind line fun _ => rfl

/-- An error that is passed on is the same before and after the next step. -/
theorem mapError_bind {ε ε' : Type} (result : Except ε α) (next : α → Except ε β) (wrap : ε → ε') :
    (result >>= next).mapError wrap =
      result.mapError wrap >>= fun value => (next value).mapError wrap := by
  cases result with
  | ok value => rfl
  | error cause => rfl

theorem mapError_eq_ok_iff {ε ε' : Type} {result : Except ε α} {wrap : ε → ε'} {value : α} :
    result.mapError wrap = .ok value ↔ result = .ok value := by
  cases result <;> simp [Except.mapError]

theorem mapError_eq_error_iff {ε ε' : Type} {result : Except ε α} {wrap : ε → ε'} {cause : ε'} :
    result.mapError wrap = .error cause ↔ ∃ inner, result = .error inner ∧ cause = wrap inner := by
  cases result <;> simp [Except.mapError, eq_comm]

theorem bind_eq_ok_iff {ε : Type} {result : Except ε α} {next : α → Except ε β} {value : β} :
    (result >>= next) = .ok value ↔ ∃ middle, result = .ok middle ∧ next middle = .ok value := by
  cases result <;> simp [bind, Except.bind]

theorem bind_eq_error_iff {ε : Type} {result : Except ε α} {next : α → Except ε β} {cause : ε} :
    (result >>= next) = .error cause ↔
      result = .error cause ∨ ∃ middle, result = .ok middle ∧ next middle = .error cause := by
  cases result <;> simp [bind, Except.bind]

theorem comesTo_reading (result : Except Tex.ParseError α) :
    ComesTo (reading result) (result.mapError .parse) := by
  intro log
  cases result with
  | ok value => rfl
  | error cause => rfl

/-- The outcome of a conversion. -/
def converted (settings : Conversion.Settings) (tree : Node) : Except Failure Typst.Node :=
  match Conversion.convert settings tree [] with
  | .ok node _ => .ok node
  | .error cause _ => .error (.convert cause)

theorem comesTo_converting (settings : Conversion.Settings) (tree : Node) :
    ComesTo (converting (Conversion.convert settings tree)) (converted settings tree) := by
  intro log
  unfold converting converted
  cases Conversion.convert settings tree [] with
  | ok node passed => rfl
  | error cause passed => rfl

theorem comesTo_writing (result : Except Typst.WriteError String) :
    ComesTo (writing result) (result.mapError .write) := by
  intro log
  cases result with
  | ok text => rfl
  | error cause => rfl

end Stages

variable (options : Options) (symbols : Symbol.Table) (source : String)

theorem comesTo_stages :
    ComesTo (stages options symbols source) (do
      let tree ← (treeOf options symbols source).mapError .parse
      let node ← converted (settingsOf options symbols) tree
      (Typst.write node).mapError .write) := by
  unfold treeOf
  simp only [mapError_bind, bind_assoc]
  refine (comesTo_reading _).bind fun tokens => .note_bind _ ?_
  refine (comesTo_reading _).bind fun tokens => .note_bind _ ?_
  refine (comesTo_reading _).bind fun tree => .note_bind _ ?_
  refine (comesTo_converting _ tree).bind fun node => .note_bind _ ?_
  have last := (comesTo_writing (Typst.write node)).bind fun text => .pure_note
    s!"[WRITE] {text.length} characters." text
  rwa [bind_pure] at last

/-- A run comes to the outcome of its stages. -/
theorem outcome_run :
    (run options symbols source).outcome = (do
      let tree ← (treeOf options symbols source).mapError .parse
      let node ← converted (settingsOf options symbols) tree
      (Typst.write node).mapError .write) := by
  rw [← comesTo_stages options symbols source []]
  unfold run
  cases stages options symbols source [] with
  | ok text log => rfl
  | error failure log => rfl

/-- The error of a conversion is the refusal of the first leaf that is refused. -/
theorem converted_eq_error_iff {parsing : Tex.ParseOptions} {tree : Node}
    (shape : Tex.Grammar.Shape parsing tree) (settings : Conversion.Settings) (failure : Failure) :
    converted settings tree = .error failure ↔
      ∃ leaf, Conversion.firstRefused? settings.passUnknown tree = some leaf ∧
        failure = .convert (Conversion.refusal leaf) := by
  have stops : Conversion.error? (Conversion.convert settings tree []) =
      (Conversion.firstRefused? settings.passUnknown tree).map Conversion.refusal :=
    Conversion.converts_of_shape shape []
  unfold converted
  cases result : Conversion.convert settings tree [] with
  | ok node passed =>
    rw [result] at stops
    have accepted := Option.map_eq_none_iff.mp stops.symm
    simp [accepted]
  | error cause passed =>
    rw [result] at stops
    obtain ⟨leaf, first, same⟩ := Option.map_eq_some_iff.mp stops.symm
    simp [first, same, eq_comm]

theorem shape_of_treeOf {tree : Node} (read : treeOf options symbols source = .ok tree) :
    Tex.Grammar.Shape { symbols, maxDepth := options.maxDepth } tree ∧
      Tex.Grid.isCellMark tree = false := by
  obtain ⟨tokens, -, read⟩ := bind_eq_ok_iff.mp read
  obtain ⟨tokens, -, parsed⟩ := bind_eq_ok_iff.mp read
  exact Tex.Grammar.shape_of_parseTokens parsed

/-- A run fails at the source itself or at the first leaf that is refused. -/
theorem outcome_run_eq_error_iff {failure : Failure} :
    (run options symbols source).outcome = .error failure ↔
      (∃ cause, treeOf options symbols source = .error cause ∧ failure = .parse cause) ∨
      ∃ tree, treeOf options symbols source = .ok tree ∧
        ∃ leaf, Conversion.firstRefused? options.nonStrict tree = some leaf ∧
          failure = .convert (Conversion.refusal leaf) := by
  have converting {tree : Node} (read : treeOf options symbols source = .ok tree) :
      (do let node ← converted (settingsOf options symbols) tree
          (Typst.write node).mapError .write) = .error failure ↔
        ∃ leaf, Conversion.firstRefused? options.nonStrict tree = some leaf ∧
          failure = .convert (Conversion.refusal leaf) := by
    have refused := converted_eq_error_iff (shape_of_treeOf options symbols source read).1
      (settingsOf options symbols) failure
    rw [bind_eq_error_iff]
    constructor
    · rintro (failed | ⟨node, -, unwritten⟩)
      · exact refused.mp failed
      · -- Nothing that is converted cannot be written.
        obtain ⟨text, written⟩ := Typst.exists_write_eq_ok node
        rw [written] at unwritten
        cases unwritten
    · intro first
      exact .inl (refused.mpr first)
  rw [outcome_run, bind_eq_error_iff, mapError_eq_error_iff]
  constructor
  · rintro (failed | ⟨tree, read, failed⟩)
    · exact .inl failed
    · have read := mapError_eq_ok_iff.mp read
      exact .inr ⟨tree, read, (converting read).mp failed⟩
  · rintro (failed | ⟨tree, read, first⟩)
    · exact .inl failed
    · exact .inr ⟨tree, mapError_eq_ok_iff.mpr read, (converting read).mpr first⟩

/-- A run fails in one of three ways: the source cannot be read, or a command is not
known and not passed through, or a cell mark is read as a script, as the base of scripts
or as an argument. The last two are told apart by which leaf is converted first. -/
theorem run_fails_iff (failure : Failure) :
    (run options symbols source).outcome = .error failure ↔
      (∃ cause, treeOf options symbols source = .error cause ∧ failure = .parse cause) ∨
      (options.nonStrict = false ∧ ∃ tree command, treeOf options symbols source = .ok tree ∧
        Conversion.firstRefused? false tree = some (.leaf .unknownMacro command) ∧
        failure = .convert (.unknownMacro command (.leaf .unknownMacro command))) ∨
      (∃ tree, treeOf options symbols source = .ok tree ∧
        Conversion.firstRefused? options.nonStrict tree = some (.leaf .control "&") ∧
        Tex.Grid.isCellMark tree = false ∧ Conversion.marksPlaced tree = true ∧
        failure = .convert (.unknownControl "&" (.leaf .control "&"))) := by
  rw [outcome_run_eq_error_iff]
  refine or_congr_right ?_
  constructor
  · rintro ⟨tree, read, leaf, first, rfl⟩
    obtain ⟨shape, noMark⟩ := shape_of_treeOf options symbols source read
    rcases Conversion.firstRefused?_of_shape shape first with rfl | ⟨strict, command, rfl⟩
    · exact .inr ⟨tree, read, first, noMark, Conversion.marksPlaced_of_shape shape, rfl⟩
    · exact .inl ⟨strict, tree, command, read, strict ▸ first, rfl⟩
  · rintro (⟨strict, tree, command, read, first, rfl⟩ | ⟨tree, read, first, -, -, rfl⟩)
    · exact ⟨tree, read, _, strict ▸ first, rfl⟩
    · exact ⟨tree, read, _, first, rfl⟩

/-- A cell mark that is read as a subscript is an error of the conversion. -/
theorem run_mark_as_subscript :
    (run {} [] "x_&").outcome = .error (.convert (.unknownControl "&" (.leaf .control "&"))) := by
  have read : treeOf {} [] "x_&" =
      .ok (.supsub "" (.element "x") none (some (.leaf .control "&"))) := by
    cbv
  exact (outcome_run_eq_error_iff {} [] "x_&").mpr (.inr ⟨_, read, _, rfl, rfl⟩)

end MathMarkup.Formula
