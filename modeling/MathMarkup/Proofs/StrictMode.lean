import MathMarkup.Proofs.Failures

/-!
# A strict conversion only refuses

The same tree is converted twice, once with unknown commands refused and once with them
passed through. As long as the strict conversion goes on, both give the same and nothing
is noted. Where it stops, the lenient one stops as well, or has noted the command at
which the strict one stopped, or has met the name of an operator that is not text.
-/

namespace MathMarkup.Conversion

open Tex (Node)

/-- The same settings, with unknown commands refused. -/
def Settings.strict (settings : Settings) : Settings :=
  { settings with passUnknown := false }

/-- The same settings, with unknown commands passed through. -/
def Settings.lenient (settings : Settings) : Settings :=
  { settings with passUnknown := true }

section Operators

/-- The node is text. -/
def isText : Node → Bool
  | .leaf .text _ => true
  | _ => false

mutual

/-- Every operator in the tree has a text as its name. -/
def operatorsNamed : Node → Bool
  | .leaf _ _ => true
  | .ordgroup _ args => operatorsNamedEach args
  | .supsub _ base sup sub =>
    operatorsNamed base && operatorsNamedOptional sup && operatorsNamedOptional sub
  | .unaryFunc command arg index =>
    (command != "\\operatorname" || isText arg) && operatorsNamedOptional index &&
      operatorsNamed arg
  | .binaryFunc _ first second => operatorsNamed first && operatorsNamed second
  | .leftright _ opening body closing =>
    operatorsNamed opening && operatorsNamed body && operatorsNamed closing
  | .beginend _ rows => operatorsNamedRows rows

/-- The same in a tree that may be absent. -/
def operatorsNamedOptional : Option Node → Bool
  | none => true
  | some node => operatorsNamed node

/-- The same in each of some trees. -/
def operatorsNamedEach : List Node → Bool
  | [] => true
  | node :: rest => operatorsNamed node && operatorsNamedEach rest

/-- The same in each cell of some rows. -/
def operatorsNamedRows : List (List Node) → Bool
  | [] => true
  | row :: rest => operatorsNamedEach row && operatorsNamedRows rest

end

end Operators

section Tracking

variable {α β : Type}

/-- What a conversion ends with: its result, and the commands that it noted. -/
abbrev Ending (α : Type) := EStateM.Result (ConvertError Node) (List String) α

/-- The commands that are noted in the end. -/
def Ending.noted : Ending α → List String
  | .ok _ noted | .error _ noted => noted

/-- How the endings of a strict and a lenient conversion compare that start with the same
commands noted. The strict one notes nothing. The last case needs an operator without a
name. -/
inductive Parallel (named : Bool) (passed : List String) : Ending α → Ending α → Prop where
  | same (value : α) : Parallel named passed (.ok value passed) (.ok value passed)
  | refused (cause : ConvertError Node) :
      Parallel named passed (.error cause passed) (.error cause passed)
  | unknown (command : String) {lenient : Ending α}
      (first : passed ++ [command] <+: lenient.noted) :
      Parallel named passed
        (.error (.unknownMacro command (.leaf .unknownMacro command)) passed) lenient
  | nameless (node : Node) {lenient : Ending α} (unnamed : named = false) :
      Parallel named passed (.error (.operatorWithoutText node) passed) lenient

/-- The two conversions run in parallel, and the lenient one only adds to what is noted. -/
structure Tracks (named : Bool) (strict lenient : Converter Node α) : Prop where
  parallel : ∀ passed, Parallel named passed (strict passed) (lenient passed)
  extending : ∀ passed, passed <+: Ending.noted (lenient passed)

variable {named others : Bool}

theorem Parallel.weaken {passed : List String} {strict lenient : Ending α}
    (parallel : Parallel named passed strict lenient) (fewer : others = true → named = true) :
    Parallel others passed strict lenient := by
  cases parallel with
  | same value => exact .same value
  | refused cause => exact .refused cause
  | unknown command first => exact .unknown command first
  | nameless node unnamed =>
    refine .nameless node (Bool.eq_false_iff.mpr fun allNamed => ?_)
    rw [fewer allNamed] at unnamed
    cases unnamed

/-- How a conversion goes on after an ending. -/
def Ending.next (ending : Ending α) (continuation : α → Converter Node β) : Ending β :=
  match ending with
  | .ok value noted => continuation value noted
  | .error cause noted => .error cause noted

theorem bind_apply (converter : Converter Node α) (continuation : α → Converter Node β)
    (passed : List String) :
    (converter >>= continuation) passed = Ending.next (converter passed) continuation := by
  change EStateM.bind converter continuation passed = _
  unfold EStateM.bind Ending.next
  cases converter passed <;> rfl

variable {strict lenient : Converter Node α}

theorem Tracks.pure (value : α) : Tracks true (pure value) (pure value) where
  parallel _ := .same value
  extending passed := List.prefix_refl passed

theorem Tracks.throw (cause : ConvertError Node) :
    Tracks true (throw cause : Converter Node α) (throw cause) where
  parallel _ := .refused cause
  extending passed := List.prefix_refl passed

theorem Tracks.weaken (tracks : Tracks named strict lenient)
    (fewer : others = true → named = true) : Tracks others strict lenient where
  parallel passed := (tracks.parallel passed).weaken fewer
  extending := tracks.extending

theorem Tracks.bind {strictNext lenientNext : α → Converter Node β}
    (first : Tracks named strict lenient)
    (second : ∀ value, Tracks others (strictNext value) (lenientNext value)) :
    Tracks (named && others) (strict >>= strictNext) (lenient >>= lenientNext) := by
  have goesOn (ending : Ending α) : ending.noted <+: (ending.next lenientNext).noted := by
    cases ending with
    | ok value noted => exact (second value).extending noted
    | error cause noted => exact List.prefix_refl noted
  refine ⟨fun passed => ?_, fun passed => ?_⟩
  · have parallel := first.parallel passed
    rw [bind_apply, bind_apply]
    generalize strict passed = strictEnding at parallel ⊢
    generalize lenient passed = lenientEnding at parallel ⊢
    cases parallel with
    | same value => exact ((second value).parallel passed).weaken (by simp)
    | refused cause => exact .refused cause
    | unknown command first => exact .unknown command (first.trans (goesOn _))
    | nameless node unnamed => exact .nameless node (by simp [unnamed])
  · rw [bind_apply]
    exact (first.extending passed).trans (goesOn _)

/-- What comes after a conversion without a failure of its own changes nothing. -/
theorem Tracks.map (build : α → β) (tracks : Tracks named strict lenient) :
    Tracks named (do return build (← strict)) (do return build (← lenient)) := by
  simpa using tracks.bind fun value => .pure (build value)

end Tracking

section Trees

variable {settings : Settings}

/-- The strict conversion of the tree is tracked by the lenient one. -/
def Tracked (settings : Settings) (tree : Node) : Prop :=
  Tracks (operatorsNamed tree) (convert settings.strict tree) (convert settings.lenient tree)

theorem tracked_leaf (kind : Tex.LeafKind) (content : String) :
    Tracked settings (.leaf kind content) := by
  unfold Tracked
  rw [convert, convert]
  cases kind with
  | control =>
    change Tracks true (controlToken content _) (controlToken content _)
    unfold controlToken
    split
    · exact .pure _
    · exact .pure _
    · exact .throw _
  | unknownMacro =>
    refine ⟨fun passed => .unknown content ?_, fun passed => ?_⟩
    · exact List.prefix_refl (passed ++ [content])
    · exact List.prefix_append passed [content]
  | element | text | comment | whitespace | newline | symbol | empty => exact .pure _

theorem tracks_convertOptional {tree : Option Node}
    (tracked : ∀ node ∈ tree, Tracked settings node) :
    Tracks (operatorsNamedOptional tree) (convertOptional settings.strict tree)
      (convertOptional settings.lenient tree) := by
  cases tree with
  | none => exact .pure none
  | some node => exact (tracked node rfl).map some

theorem tracks_convertAll {trees : List Node} (tracked : ∀ node ∈ trees, Tracked settings node) :
    Tracks (operatorsNamedEach trees) (convertAll settings.strict trees)
      (convertAll settings.lenient trees) := by
  induction trees with
  | nil => exact .pure []
  | cons node rest inductionHypothesis =>
    exact (tracked node (by simp)).bind fun first =>
      (inductionHypothesis fun other member =>
        tracked other (List.mem_cons_of_mem _ member)).map (first :: ·)

theorem tracks_convertRows {rows : List (List Node)}
    (tracked : ∀ row ∈ rows, ∀ cell ∈ row, Tracked settings cell) :
    Tracks (operatorsNamedRows rows) (convertRows settings.strict rows)
      (convertRows settings.lenient rows) := by
  induction rows with
  | nil => exact .pure []
  | cons row rest inductionHypothesis =>
    exact (tracks_convertAll (tracked row (by simp))).bind fun first =>
      (inductionHypothesis fun other member =>
        tracked other (List.mem_cons_of_mem _ member)).map (first :: ·)

theorem tracks_operatorName (text : Option String) (node : Node) :
    Tracks text.isSome (operatorName settings.strict text node)
      (operatorName settings.lenient text node) := by
  cases text with
  | some name =>
    -- A name that is text is converted in the same way by both.
    change Tracks true (operatorName settings.strict (some name) node)
      (operatorName settings.strict (some name) node)
    unfold operatorName
    dsimp only
    split
    · exact .pure _
    · exact .pure _
  | none => exact ⟨fun passed => .nameless node rfl, fun passed => List.prefix_refl passed⟩

theorem exists_argumentText_of_isText {arg : Node} (text : isText arg = true) :
    ∃ content, argumentText arg = .text content := by
  unfold isText at text
  split at text
  · rename_i content
    exact ⟨content, rfl⟩
  · cases text

theorem tracked_unaryFunc {command : String} {arg : Node} {index : Option Node}
    (argTracked : Tracked settings arg) (indexTracked : ∀ node ∈ index, Tracked settings node) :
    Tracked settings (.unaryFunc command arg index) := by
  have indexTracks := tracks_convertOptional indexTracked
  unfold Tracked
  rw [convert, convert]
  unfold unaryCall
  split
  · exact (tracks_operatorName (some _) _).weaken (by simp)
  · rename_i noText
    refine (tracks_operatorName none _).weaken fun named => ?_
    have text : isText arg = true := by
      simp only [operatorsNamed, bne_self_eq_false, Bool.false_or, Bool.and_eq_true] at named
      exact named.1.1
    obtain ⟨content, isContent⟩ := exists_argumentText_of_isText text
    exact (noText content isContent).elim
  · exact (argTracked.map _).weaken (by simp [operatorsNamed])
  · split
    · exact (Tracks.pure _).weaken (by simp)
    · exact (argTracked.map _).weaken (by simp [operatorsNamed])
  · have named : operatorsNamed (.unaryFunc "\\sqrt" arg index) =
        (operatorsNamedOptional index && operatorsNamed arg) := by
      simp [operatorsNamed, Bool.and_comm]
    rw [named]
    refine indexTracks.bind fun degree => ?_
    cases degree with
    | some degree => exact argTracked.map _
    | none => exact argTracked.map _
  · exact (argTracked.map _).weaken (by simp [operatorsNamed])

section Scripts

variable {baseNamed supNamed subNamed : Bool}
  {strictBase lenientBase strictLabel lenientLabel : Converter Node Typst.Node}
  {strictSup lenientSup strictSub lenientSub : Converter Node (Option Typst.Node)}

theorem tracks_scripted (base : Tracks baseNamed strictBase lenientBase)
    (sup : Tracks supNamed strictSup lenientSup) (sub : Tracks subNamed strictSub lenientSub) :
    Tracks (baseNamed && supNamed && subNamed) (scripted strictBase strictSup strictSub)
      (scripted lenientBase lenientSup lenientSub) := by
  rw [Bool.and_assoc]
  exact base.bind fun _ => sup.bind fun _ => sub.map _

theorem tracks_overbrace (body : Tracks baseNamed strictBase lenientBase)
    (label : Tracks supNamed strictLabel lenientLabel)
    (sub : Tracks subNamed strictSub lenientSub) :
    Tracks (baseNamed && supNamed && subNamed) (overbrace strictBase strictLabel strictSub)
      (overbrace lenientBase lenientLabel lenientSub) := by
  rw [Bool.and_assoc, ← Bool.and_true subNamed]
  refine body.bind fun _ => label.bind fun _ => sub.bind fun below => ?_
  cases below with
  | none => exact .pure _
  | some below => exact .pure _

theorem tracks_underbrace (body : Tracks baseNamed strictBase lenientBase)
    (label : Tracks subNamed strictLabel lenientLabel)
    (sup : Tracks supNamed strictSup lenientSup) :
    Tracks (baseNamed && subNamed && supNamed) (underbrace strictBase strictLabel strictSup)
      (underbrace lenientBase lenientLabel lenientSup) := by
  rw [Bool.and_assoc, ← Bool.and_true supNamed]
  refine body.bind fun _ => label.bind fun _ => sup.bind fun above => ?_
  cases above with
  | none => exact .pure _
  | some above => exact .pure _

end Scripts

/-- A base with scripts. A brace is converted by its argument alone. -/
theorem tracked_supsub {content : String} {base : Node} {sup sub : Option Node}
    (baseTracked : Tracked settings base)
    (argTracked : ∀ command arg index, base = .unaryFunc command arg index → Tracked settings arg)
    (supTracked : ∀ node ∈ sup, Tracked settings node)
    (subTracked : ∀ node ∈ sub, Tracked settings node) :
    Tracked settings (.supsub content base sup sub) := by
  have above := tracks_convertOptional supTracked
  have below := tracks_convertOptional subTracked
  have plain := tracks_scripted baseTracked above below
  unfold Tracked convert
  split
  · exact (tracks_scripted (.pure _) above below).weaken (by simp [operatorsNamed])
  · have body := argTracked _ _ _ rfl
    split
    · rename_i label
      refine (tracks_overbrace body (supTracked label rfl) below).weaken fun named => ?_
      simp only [operatorsNamed, operatorsNamedOptional, Bool.and_eq_true] at named ⊢
      exact ⟨⟨named.1.1.2, named.1.2⟩, named.2⟩
    · rename_i label
      refine (tracks_underbrace body (subTracked label rfl) above).weaken fun named => ?_
      simp only [operatorsNamed, operatorsNamedOptional, Bool.and_eq_true] at named ⊢
      exact ⟨⟨named.1.1.2, named.2⟩, named.1.2⟩
    · exact plain
  · exact plain

theorem tracks_delimiter {node : Node} (tracked : Tracked settings node) :
    Tracks (operatorsNamed node) (delimiter node.content (convert settings.strict node))
      (delimiter node.content (convert settings.lenient node)) := by
  unfold delimiter
  split
  · exact (Tracks.pure _).weaken (by simp)
  · exact tracked

theorem tracked_leftright {content : String} {opening body closing : Node}
    (openingTracked : Tracked settings opening) (bodyTracked : Tracked settings body)
    (closingTracked : Tracked settings closing) :
    Tracked settings (.leftright content opening body closing) := by
  unfold Tracked
  rw [convert, convert, operatorsNamed, Bool.and_assoc, ← Bool.and_true (operatorsNamed closing)]
  refine (tracks_delimiter openingTracked).bind fun left => bodyTracked.bind fun inner =>
    (tracks_delimiter closingTracked).bind fun right => ?_
  dsimp only
  split
  · exact .pure _
  · exact .pure _

mutual

/-- The lenient conversion of every tree tracks the strict one. -/
theorem tracked_convert (settings : Settings) : ∀ tree : Node, Tracked settings tree
  | .leaf kind content => tracked_leaf kind content
  | .ordgroup _ args => (tracks_convertAll (tracked_each settings args)).map (Typst.Node.group "")
  | .supsub _ base sup sub =>
    tracked_supsub (tracked_convert settings base) (tracked_argument settings base)
      (tracked_optional settings sup) (tracked_optional settings sub)
  | .unaryFunc _ arg index =>
    tracked_unaryFunc (tracked_convert settings arg) (tracked_optional settings index)
  | .binaryFunc _ first second =>
    (tracked_convert settings first).bind fun one =>
      (tracked_convert settings second).map (Typst.Node.binaryFunc _ one)
  | .leftright _ opening body closing =>
    tracked_leftright (tracked_convert settings opening) (tracked_convert settings body)
      (tracked_convert settings closing)
  | .beginend name rows =>
    (tracks_convertRows (tracked_rows settings rows)).map (environment name)

theorem tracked_argument (settings : Settings) :
    ∀ (base : Node) (command arg index), base = .unaryFunc command arg index → Tracked settings arg
  | .unaryFunc _ arg _, _, _, _, rfl => tracked_convert settings arg

theorem tracked_optional (settings : Settings) :
    ∀ tree : Option Node, ∀ node ∈ tree, Tracked settings node
  | none => by simp
  | some node => by
    rintro _ ⟨⟩
    exact tracked_convert settings node

theorem tracked_each (settings : Settings) :
    ∀ trees : List Node, ∀ node ∈ trees, Tracked settings node
  | [] => by simp
  | node :: rest => by
    rintro other (_ | ⟨_, member⟩)
    · exact tracked_convert settings node
    · exact tracked_each settings rest other member

theorem tracked_rows (settings : Settings) :
    ∀ rows : List (List Node), ∀ row ∈ rows, ∀ cell ∈ row, Tracked settings cell
  | [] => by simp
  | row :: rest => by
    rintro other (_ | ⟨_, member⟩)
    · exact tracked_each settings row
    · exact tracked_rows settings rest other member

end

/-- What a strict conversion gives, a lenient one gives too, and neither notes anything. -/
theorem convert_lenient_of_strict {tree : Node} {node : Typst.Node} {passed noted : List String}
    (converted : convert settings.strict tree passed = .ok node noted) :
    noted = passed ∧ convert settings.lenient tree passed = .ok node passed := by
  have parallel := (tracked_convert settings tree).parallel passed
  rw [converted] at parallel
  generalize convert settings.lenient tree passed = lenient at parallel ⊢
  cases parallel with
  | same => exact ⟨rfl, rfl⟩

/-- The first command that is noted in a lenient conversion stops the strict one. -/
theorem convert_strict_of_noted {tree : Node} {node : Typst.Node} {command : String}
    {others : List String} (named : operatorsNamed tree = true)
    (converted : convert settings.lenient tree [] = .ok node (command :: others)) :
    convert settings.strict tree [] =
      .error (.unknownMacro command (.leaf .unknownMacro command)) [] := by
  have parallel := (tracked_convert settings tree).parallel []
  rw [converted, named] at parallel
  generalize convert settings.strict tree [] = strict at parallel ⊢
  cases parallel with
  | unknown first noted =>
    obtain ⟨rest, same⟩ := noted
    cases same
    rfl
  | nameless node unnamed => cases unnamed

end Trees

end MathMarkup.Conversion

namespace MathMarkup.Formula

open Tex (Node)

theorem converting_eq_ok_iff {converter : Conversion.Converter Node Typst.Node}
    {log after : List String} {node : Typst.Node} :
    converting converter log = .ok node after ↔
      ∃ passed, converter [] = .ok node passed ∧ after = log ++ passed.map warning := by
  unfold converting
  cases converter [] with
  | ok value passed =>
    constructor
    · rintro ⟨⟩
      exact ⟨passed, rfl, rfl⟩
    · rintro ⟨_, ⟨⟩, rfl⟩
      rfl
  | error cause passed =>
    constructor
    · rintro ⟨⟩
    · rintro ⟨_, ⟨⟩, -⟩

/-- A stage succeeds wherever another one does, with the same value and the same log. -/
def Follows {α : Type} (lenient strict : Stage α) : Prop :=
  ∀ ⦃log value after⦄, strict log = .ok value after → lenient log = .ok value after

theorem Follows.refl {α : Type} (stage : Stage α) : Follows stage stage :=
  fun _ _ _ given => given

theorem Follows.bind {α β : Type} {lenient strict : Stage α} {lenientNext strictNext : α → Stage β}
    (first : Follows lenient strict)
    (second : ∀ value, Follows (lenientNext value) (strictNext value)) :
    Follows (lenient >>= lenientNext) (strict >>= strictNext) := by
  intro log value after given
  change EStateM.bind strict strictNext log = _ at given
  change EStateM.bind lenient lenientNext log = _
  unfold EStateM.bind at given ⊢
  split at given
  · rename_i middle noted reached
    rw [first reached]
    exact second middle given
  · cases given

theorem follows_converting (settings : Conversion.Settings) (tree : Node) :
    Follows (converting (Conversion.convert settings.lenient tree))
      (converting (Conversion.convert settings.strict tree)) := by
  intro log node after given
  obtain ⟨passed, converted, rfl⟩ := converting_eq_ok_iff.mp given
  obtain ⟨rfl, lenient⟩ := Conversion.convert_lenient_of_strict converted
  exact converting_eq_ok_iff.mpr ⟨[], lenient, rfl⟩

theorem follows_stages (options : Options) (symbols : Symbol.Table) (source : String) :
    Follows (stages { options with nonStrict := true } symbols source)
      (stages { options with nonStrict := false } symbols source) :=
  .bind (.refl _) fun _ => .bind (.refl _) fun _ =>
    .bind (.refl _) fun _ => .bind (.refl _) fun _ =>
    .bind (.refl _) fun tree => .bind (.refl _) fun _ =>
    .bind (follows_converting { preferIntrinsic := options.preferIntrinsic, symbols } tree)
      fun _ => .refl _

/-- A run that succeeds in strict mode is the same in the other mode, with its log. -/
theorem run_lenient_of_strict {options : Options} {symbols : Symbol.Table} {source text : String}
    (succeeds : (run { options with nonStrict := false } symbols source).outcome = .ok text) :
    run { options with nonStrict := true } symbols source =
      run { options with nonStrict := false } symbols source := by
  unfold run at succeeds ⊢
  cases strict : stages { options with nonStrict := false } symbols source [] with
  | ok written log => rw [follows_stages options symbols source strict]
  | error failure log =>
    rw [strict] at succeeds
    cases succeeds

/-- Strict mode rejects and changes nothing else. A tree that is converted in strict mode
is converted to the same tree in the other mode, without a warning. A warning in the
other mode means that strict mode stops at the command of the first warning, if all
operators of the tree have names. So a run that succeeds in strict mode succeeds in the
other mode with the same text and the same log. -/
theorem strict_only_rejects (settings : Conversion.Settings) (options : Options)
    (symbols : Symbol.Table) :
    (∀ tree node log, converting (Conversion.convert settings.strict tree) [] = .ok node log →
      converting (Conversion.convert settings.lenient tree) [] = .ok node []) ∧
    (∀ tree node line log, Conversion.operatorsNamed tree = true →
      converting (Conversion.convert settings.lenient tree) [] = .ok node (line :: log) →
      ∃ command, line = warning command ∧
        converting (Conversion.convert settings.strict tree) [] =
          .error (.convert (.unknownMacro command (.leaf .unknownMacro command))) []) ∧
    (∀ source text, (run { options with nonStrict := false } symbols source).outcome = .ok text →
      (run { options with nonStrict := true } symbols source).outcome = .ok text ∧
      (run { options with nonStrict := true } symbols source).log =
        (run { options with nonStrict := false } symbols source).log) := by
  refine ⟨fun tree node log given => ?_, fun tree node line log named given => ?_,
    fun source text succeeds => ?_⟩
  · obtain ⟨passed, converted, rfl⟩ := converting_eq_ok_iff.mp given
    obtain ⟨rfl, lenient⟩ := Conversion.convert_lenient_of_strict converted
    exact converting_eq_ok_iff.mpr ⟨[], lenient, rfl⟩
  · obtain ⟨passed, converted, warnings⟩ := converting_eq_ok_iff.mp given
    cases passed with
    | nil => cases warnings
    | cons command others =>
      obtain ⟨rfl, -⟩ := List.cons.inj warnings
      refine ⟨command, rfl, ?_⟩
      unfold converting
      rw [Conversion.convert_strict_of_noted named converted]
      rfl
  · rw [run_lenient_of_strict succeeds]
    exact ⟨succeeds, rfl⟩

/-- A brace with unknown commands on both sides. The label below comes first. -/
def labelledBrace : Node :=
  .supsub "" (.unaryFunc "\\underbrace" (.element "x") none)
    (some (.leaf .unknownMacro "\\above")) (some (.leaf .unknownMacro "\\below"))

theorem strict_only_rejects_labelledBrace :
    Conversion.operatorsNamed labelledBrace = true ∧
      converting (Conversion.convert { passUnknown := true, symbols := [] } labelledBrace) [] =
        .ok (.supsub "" (.binaryFunc "underbrace" (.symbol "x") (.leaf .unknown "below"))
          (some (.leaf .unknown "above")) none) [warning "\\below", warning "\\above"] ∧
      (∃ command, warning "\\below" = warning command ∧
        converting (Conversion.convert { passUnknown := false, symbols := [] } labelledBrace) [] =
          .error (.convert (.unknownMacro command (.leaf .unknownMacro command))) []) ∧
      (run { nonStrict := false } [] "x").outcome = .ok "x" ∧
      (run { nonStrict := true } [] "x").outcome = .ok "x" := by
  obtain ⟨-, stops, same⟩ := strict_only_rejects { symbols := [] } {} []
  have named : Conversion.operatorsNamed labelledBrace = true := by decide
  have converted : converting (Conversion.convert { passUnknown := true, symbols := [] }
      labelledBrace) [] =
        .ok (.supsub "" (.binaryFunc "underbrace" (.symbol "x") (.leaf .unknown "below"))
          (some (.leaf .unknown "above")) none) [warning "\\below", warning "\\above"] := by
    rfl
  have read : treeOf { nonStrict := false } [] "x" = .ok (.element "x") := by
    cbv
  have written : Typst.write (.symbol "x") = .ok "x" := rfl
  have succeeds : (run { nonStrict := false } [] "x").outcome = .ok "x" := by
    rw [outcome_run]
    exact bind_eq_ok_iff.mpr ⟨_, mapError_eq_ok_iff.mpr read,
      bind_eq_ok_iff.mpr ⟨.symbol "x", rfl, mapError_eq_ok_iff.mpr written⟩⟩
  exact ⟨named, converted, stops _ _ _ _ named converted, succeeds, (same _ _ succeeds).1⟩

end MathMarkup.Formula
