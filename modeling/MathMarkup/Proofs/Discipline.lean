import MathMarkup.Proofs.Realization

/-!
# What all readers of a formula keep

The readers of a formula are put together from few steps. A `Discipline` is a relation of two
readers that these steps keep, so that the readers of a formula keep it as well. They are gone
through here once, for two readers that differ in how they read inside an operand. `Terms`
says what they may count on, and `Terms.Lawful` what has to be known of the terms. The two
readers may be the same one, which makes a discipline an invariant of reading.
-/

namespace MathMarkup.Tex.Grammar

/-- What readers hold to: what is true of the tokens that are left wherever one of their
parts begins, and the errors at which they stop. -/
structure Terms where
  holds : List Token → Prop
  stops : ParseError → Prop

/-- A relation of two readers, from given tokens on, that every step of reading keeps. Only
readers that look back may depend on the token before the place. -/
structure Discipline (terms : Terms) where
  Keeps {α : Type} (looksBack : Bool) (input : List Token) (first second : Reader α) : Prop
  congr {α : Type} {looksBack : Bool} {input : List Token} {first second one other : Reader α}
    (keeps : Keeps looksBack input first second)
    (sameFirst : ∀ before, one ⟨before, input⟩ = first ⟨before, input⟩)
    (sameSecond : ∀ before, other ⟨before, input⟩ = second ⟨before, input⟩) :
    Keeps looksBack input one other
  lookBack {α : Type} {looksBack : Bool} {input : List Token} {first second : Reader α}
    (keeps : Keeps false input first second) : Keeps looksBack input first second
  pure {α : Type} {looksBack : Bool} {input : List Token} (holds : terms.holds input) (value : α) :
    Keeps looksBack input (Pure.pure value) (Pure.pure value)
  throw {α : Type} {looksBack : Bool} {input : List Token} {cause : ParseError}
    (stops : terms.stops cause) :
    Keeps looksBack input (MonadExcept.throw cause : Reader α) (MonadExcept.throw cause)
  /-- Readers after others start from the tokens that are left. -/
  bind {α β : Type} {looksBack : Bool} {input : List Token} {first second : Reader α}
    {next following : α → Reader β} (keeps : Keeps looksBack input first second)
    (later : ∀ value rest, terms.holds rest →
      Keeps looksBack rest (next value) (following value)) :
    Keeps looksBack input (first >>= next) (second >>= following)
  previous_bind {α : Type} {input : List Token} {next following : Option Token → Reader α}
    (keeps : ∀ previous, Keeps true input (next previous) (following previous)) :
    Keeps true input (Reader.previous? >>= next) (Reader.previous? >>= following)
  skip_bind {α : Type} {looksBack : Bool} {input : List Token} {count : Nat}
    {next following : Unit → Reader α}
    (keeps : Keeps looksBack (input.drop count) (next ()) (following ())) :
    Keeps looksBack input (Reader.skip count >>= next) (Reader.skip count >>= following)
  /-- A token that was taken may be looked back at. -/
  take_bind {α : Type} {token : Token} {tail : List Token} {next following : Token → Reader α}
    (keeps : Keeps true tail (next token) (following token)) :
    Keeps false (token :: tail) (Reader.take >>= next) (Reader.take >>= following)
  splitNumber_bind {α : Type} {looksBack : Bool} {input : List Token}
    {next following : PUnit → Reader α}
    (keeps : Keeps looksBack (splitFirst input) (next ⟨⟩) (following ⟨⟩)) :
    Keeps looksBack input (modify Cursor.splitNumber >>= next)
      (modify Cursor.splitNumber >>= following)
  /-- A list of its own is read from its start. -/
  within {α : Type} {looksBack : Bool} {input tokens : List Token} {first second : Reader α}
    (holds : terms.holds input) (keeps : Keeps false tokens first second) :
    Keeps looksBack input (Reader.within tokens first) (Reader.within tokens second)

/-- The loop over items, one item at a time. -/
theorem untilEnd_eq {α : Type} (item : Reader α) (input before : List Token) :
    Reader.untilEnd item ⟨before, input⟩ =
      (match input with
      | [] => pure []
      | token :: tail => do
        let value ← item
        let rest ← Reader.remaining
        if rest.length < (token :: tail).length then
          let values ← (Reader.untilEnd item : Reader (List α))
          return value :: values
        else
          return [value] : Reader (List α)) ⟨before, input⟩ := by
  rw [Reader.untilEnd]
  cases input with
  | nil => rfl
  | cons token tail =>
    change _ = EStateM.bind item _ ⟨before, token :: tail⟩
    unfold EStateM.bind
    cases item ⟨before, token :: tail⟩ with
    | error cause place => rfl
    | ok value place =>
      change (if place.after.length < (token :: tail).length then _ else _) =
        (if place.after.length < (token :: tail).length then _ else _ : Reader (List α)) place
      split
      · change _ = EStateM.bind (Reader.untilEnd item) _ place
        unfold EStateM.bind
        cases Reader.untilEnd item place <;> rfl
      · rfl

namespace Discipline

variable {terms : Terms} (discipline : Discipline terms) {α β : Type} {looksBack : Bool}
  {input : List Token}

theorem map {first second : Reader α} (keeps : discipline.Keeps looksBack input first second)
    (change : α → β) :
    discipline.Keeps looksBack input (first >>= fun value => Pure.pure (change value))
      (second >>= fun value => Pure.pure (change value)) :=
  discipline.bind keeps fun value _ holds => discipline.pure holds (change value)

/-- What comes after a failure is not read. -/
theorem throw_bind {cause : ParseError} (stops : terms.stops cause)
    {next following : α → Reader β} :
    discipline.Keeps looksBack input ((MonadExcept.throw cause : Reader α) >>= next)
      ((MonadExcept.throw cause : Reader α) >>= following) :=
  discipline.congr (discipline.throw stops) (fun _ => rfl) fun _ => rfl

theorem remaining_bind {next following : List Token → Reader β}
    (keeps : discipline.Keeps looksBack input (next input) (following input)) :
    discipline.Keeps looksBack input (Reader.remaining >>= next) (Reader.remaining >>= following) :=
  discipline.congr keeps (fun _ => rfl) fun _ => rfl

theorem peek_bind {token : Token} {tail : List Token} {next following : Token → Reader β}
    (keeps : discipline.Keeps looksBack (token :: tail) (next token) (following token)) :
    discipline.Keeps looksBack (token :: tail) (Reader.peek >>= next)
      (Reader.peek >>= following) :=
  discipline.congr keeps (fun _ => rfl) fun _ => rfl

theorem skipLayout_bind {next following : Unit → Reader β}
    (keeps : discipline.Keeps looksBack (input.dropWhile Token.isLayout) (next ()) (following ())) :
    discipline.Keeps looksBack input (Reader.skipLayout >>= next)
      (Reader.skipLayout >>= following) := by
  rw [← drop_layoutLength] at keeps
  exact discipline.congr (discipline.skip_bind keeps) (fun _ => rfl) fun _ => rfl

theorem check_bind {result : Except ParseError α} {next following : α → Reader β}
    (stops : ∀ cause, result = .error cause → terms.stops cause)
    (keeps : ∀ value, result = .ok value →
      discipline.Keeps looksBack input (next value) (following value)) :
    discipline.Keeps looksBack input (Reader.check result >>= next)
      (Reader.check result >>= following) := by
  cases result with
  | ok value => exact discipline.congr (keeps value rfl) (fun _ => rfl) fun _ => rfl
  | error cause => exact discipline.throw_bind (stops cause rfl)

theorem untilEnd {item other : Reader α}
    (keeps : ∀ token tail, terms.holds (token :: tail) →
      discipline.Keeps looksBack (token :: tail) item other)
    (holds : terms.holds input) :
    discipline.Keeps looksBack input (Reader.untilEnd item) (Reader.untilEnd other) := by
  -- Both readers stop at the same places, so that the tokens left get fewer for both at once.
  induction count : input.length using Nat.strongRecOn generalizing input with
  | ind count inductionHypothesis =>
    subst count
    refine discipline.congr ?_ (untilEnd_eq item input) (untilEnd_eq other input)
    cases input with
    | nil => exact discipline.pure holds []
    | cons token tail =>
      refine discipline.bind (keeps token tail holds) fun value rest left => ?_
      apply discipline.remaining_bind
      split
      · rename_i shorter
        exact discipline.map (inductionHypothesis _ shorter left rfl) (value :: ·)
      · exact discipline.pure left [value]

end Discipline

/-- The pairs of tokens between which a list of its own is read. -/
def enclosures : List (Token × Token) :=
  [(.openBrace, .closeBrace), (.openBracket, .closeBracket), (.left, .right),
   (.beginEnvironment, .endEnvironment)]

/-- The control tokens that the grammar has a rule for. -/
def knownControls : List String := ["\x7b", "\x7d", "\\\\", "\\,", "&", "_", "^"]

/-- The error can be met in tokens of every origin: it is not one about the end of the
tokens, the nesting, a control token that is not known or a text that is missing. -/
def isCommon : ParseError → Bool
  | .endOfInput | .tooDeep _ _ | .unknownControl _ | .missingContent _ _ => false
  | _ => true

/-- What has to be known of terms so that the readers of a formula can hold to them. -/
structure Terms.Lawful (terms : Terms) : Prop where
  drop {tokens : List Token} (holds : terms.holds tokens) (count : Nat) :
    terms.holds (tokens.drop count)
  body {opener closer : Token} (encloses : (opener, closer) ∈ enclosures)
    {inside rest : List Token} (balanced : Balanced opener closer inside)
    (holds : terms.holds (inside ++ closer :: rest)) : terms.holds inside
  trailing {tokens layout : List Token} (passed : ∀ blank ∈ layout, blank.isLayout = true)
    (holds : terms.holds (tokens ++ layout)) : terms.holds tokens
  remainder {token digit remainder : Token} {tail : List Token}
    (split : Cursor.splitNumber? token = some (digit, remainder))
    (holds : terms.holds (token :: tail)) : terms.holds (remainder :: tail)
  common {cause : ParseError} (common : isCommon cause = true) : terms.stops cause
  content {command : Token} {tokens : List Token} (takes : Lexer.takesText command = true)
    (bare : Parser.bracedText? tokens = none) (holds : terms.holds (command :: tokens))
    (previous : Option Token) : terms.stops (.missingContent command.value previous)
  control {token : Token} {tokens : List Token} (isControl : token.kind = .control)
    (unknown : token.value ∉ knownControls) (holds : terms.holds (token :: tokens)) :
    terms.stops (.unknownControl token)

section Causes

open MathMarkup.Tex.Parser

variable {cause : ParseError} {tokens : List Token}

theorem isCommon_delimiterAfter {side : Side} {command : Token}
    (failed : delimiterAfter side command tokens = .error cause) : isCommon cause = true := by
  unfold delimiterAfter at failed
  split at failed
  · cases failed
    rfl
  · split at failed
    · cases failed
    · cases failed
      rfl

theorem isCommon_columnSpecificationLength {environment : String}
    (failed : columnSpecificationLength environment tokens = .error cause) :
    isCommon cause = true := by
  unfold columnSpecificationLength at failed
  split at failed
  · split at failed
    · unfold closingBrace at failed
      split at failed
      · cases failed
      · cases failed
        rfl
    · cases failed
  · cases failed

/-- The end of an environment is refused because of its name, or because it has none. -/
theorem checkEnd_eq_error {name : String} (failed : checkEnd name tokens = .error cause) :
    isCommon cause = true ∨
      bracedText? tokens = none ∧ cause = .missingContent "\\end" (some .endEnvironment) := by
  unfold checkEnd at failed
  split at failed
  · rename_i found
    cases failed
    exact .inr ⟨found, rfl⟩
  · split at failed
    · cases failed
    · cases failed
      exact .inl rfl

end Causes

/-- Two readers of operands keep a discipline, also where a number was split before they
read. -/
structure Discipline.Inner {terms : Terms} (discipline : Discipline terms)
    (first second : Reader Node) : Prop where
  keeps {token : Token} {tail : List Token} (holds : terms.holds (token :: tail)) :
    discipline.Keeps false (token :: tail) first second
  afterSplit {token digit remainder : Token} {tail : List Token}
    (split : Cursor.splitNumber? token = some (digit, remainder))
    (holds : terms.holds (token :: tail)) :
    discipline.Keeps false (digit :: remainder :: tail) first second

/-- A number is split before both readers at once. -/
theorem Discipline.Inner.splitNumber_bind {terms : Terms} {discipline : Discipline terms}
    {first second : Reader Node} (inner : discipline.Inner first second) {token : Token}
    {tail : List Token} (holds : terms.holds (token :: tail)) :
    discipline.Keeps false (token :: tail) (modify Cursor.splitNumber >>= fun _ => first)
      (modify Cursor.splitNumber >>= fun _ => second) := by
  apply discipline.splitNumber_bind
  cases split : Cursor.splitNumber? token with
  | none =>
    simp only [splitFirst, split]
    exact inner.keeps holds
  | some parts =>
    simp only [splitFirst, split]
    exact inner.afterSplit split holds

section Lawful

open MathMarkup.Tex.Parser

variable {terms : Terms} {input : List Token} (lawful : terms.Lawful)

include lawful

theorem Terms.Lawful.dropLayout (holds : terms.holds input) :
    terms.holds (input.dropWhile Token.isLayout) := by
  rw [← drop_layoutLength]
  exact lawful.drop holds _

/-- The tokens up to a partner are a list of their own. -/
theorem Terms.Lawful.takeBody {opener closer : Token} {offset : Nat}
    (encloses : (opener, closer) ∈ enclosures) (found : closing? opener closer input = some offset)
    (holds : terms.holds input) : terms.holds (input.take offset) := by
  have distinct : ∀ pair ∈ enclosures, pair.2 ≠ pair.1 := by decide
  obtain ⟨body, rest, rfl, rfl, balanced⟩ :=
    (closing?_eq_some_iff (distinct _ encloses)).mp found
  rw [List.take_left' rfl]
  exact lawful.body encloses balanced holds

/-- The end of an environment that is refused stops the reader. -/
theorem Terms.Lawful.stops_checkEnd {offset : Nat} {name : String} {cause : ParseError}
    (found : closing? .beginEnvironment .endEnvironment input = some offset)
    (holds : terms.holds input)
    (failed : checkEnd name (input.drop (offset + 1)) = .error cause) : terms.stops cause := by
  obtain ⟨body, rest, rfl, rfl, -⟩ := (closing?_eq_some_iff (by decide)).mp found
  rw [drop_past] at failed
  rcases checkEnd_eq_error failed with common | ⟨bare, rfl⟩
  · exact lawful.common common
  · have atEnd := lawful.drop holds body.length
    rw [List.drop_left' rfl] at atEnd
    exact lawful.content (by decide) bare atEnd _

end Lawful

section Readers

open MathMarkup.Tex.Parser

variable {terms : Terms} {discipline : Discipline terms} {first second : Reader Node}
  {looksBack : Bool} {input : List Token} (lawful : terms.Lawful)
  (inner : discipline.Inner first second)

include lawful

theorem keeps_takePrimes (holds : terms.holds input) :
    discipline.Keeps looksBack input Reader.takePrimes Reader.takePrimes := by
  apply discipline.remaining_bind
  apply discipline.skip_bind
  exact discipline.pure (lawful.drop holds _) _

theorem keeps_refusePrime (holds : terms.holds input) :
    discipline.Keeps looksBack input refusePrime refusePrime := by
  apply discipline.remaining_bind
  cases input with
  | nil => exact discipline.pure holds ()
  | cons token tail =>
    by_cases isPrime : token = .prime
    · simp only [isPrime, if_true]
      exact discipline.throw (lawful.common rfl)
    · simp only [isPrime, if_false]
      exact discipline.pure holds ()

theorem keeps_refuseScriptMark (holds : terms.holds input) :
    discipline.Keeps looksBack input refuseScriptMark refuseScriptMark := by
  apply discipline.remaining_bind
  cases input with
  | nil => exact discipline.pure holds ()
  | cons token tail =>
    cases mark : token.scriptMark? with
    | none =>
      simp only [mark]
      exact discipline.pure holds ()
    | some kind =>
      simp only [mark]
      cases kind <;> exact discipline.throw (lawful.common rfl)

theorem keeps_textArgument {command : String} (holds : terms.holds input)
    (stops : bracedText? input = none → ∀ previous, terms.stops (.missingContent command previous)) :
    discipline.Keeps true input (textArgument command) (textArgument command) := by
  apply discipline.remaining_bind
  cases found : bracedText? input with
  | some content =>
    apply discipline.skip_bind
    exact discipline.pure (lawful.drop holds 3) content
  | none =>
    apply discipline.previous_bind
    intro previous
    exact discipline.throw (stops found previous)

/-- A formula that stands in a list of its own, with the tokens to pass over after it. -/
theorem keeps_enclosed {α β : Type} {body : List Token} {reader other : Reader α} (count : Nat)
    (complete : α → β) (inside : discipline.Keeps false body reader other)
    (holds : terms.holds input) :
    discipline.Keeps looksBack input
      (do
        let value ← Reader.within body reader
        Reader.skip count
        return complete value)
      (do
        let value ← Reader.within body other
        Reader.skip count
        return complete value) := by
  refine discipline.bind (discipline.within holds inside) fun value rest holds => ?_
  apply discipline.skip_bind
  exact discipline.pure (lawful.drop holds count) (complete value)

include inner

theorem keeps_script (mark : Token.ScriptMark) (holds : terms.holds input) :
    discipline.Keeps false input (script? first mark) (script? second mark) := by
  apply discipline.remaining_bind
  cases input with
  | nil => exact discipline.pure holds none
  | cons token tail =>
    by_cases marked : token.scriptMark? = some mark
    · simp only [marked, if_true]
      apply discipline.skip_bind
      cases tail with
      | nil => exact discipline.throw_bind (lawful.common rfl)
      | cons next others => exact discipline.map (inner.keeps (lawful.drop holds 1)) some
    · simp only [marked, if_false]
      exact discipline.pure holds none

/-- The last script of a base, after which no prime may follow. -/
theorem keeps_lastScript (mark : Token.ScriptMark) (complete : Option Node → Parser.Scripts)
    (holds : terms.holds input) :
    discipline.Keeps false input
      (do
        let script ← script? first mark
        if script.isSome then refusePrime
        return complete script)
      (do
        let script ← script? second mark
        if script.isSome then refusePrime
        return complete script) := by
  refine discipline.bind (keeps_script lawful inner mark holds) fun script rest holds => ?_
  cases script with
  | some node => exact discipline.map (keeps_refusePrime lawful holds) fun _ => complete _
  | none => exact discipline.pure holds _

theorem keeps_scripts (holds : terms.holds input) :
    discipline.Keeps false input (scripts first) (scripts second) := by
  refine discipline.bind (keeps_takePrimes lawful holds) fun primes rest holds => ?_
  refine discipline.bind (keeps_script lawful inner .subscript holds) fun sub rest holds => ?_
  cases sub with
  | some sub =>
    refine discipline.bind (keeps_takePrimes lawful holds) fun morePrimes rest holds => ?_
    exact keeps_lastScript lawful inner .superscript
      (fun sup => { primes := primes + morePrimes, sub := some sub, sup }) holds
  | none =>
    refine discipline.bind (keeps_script lawful inner .superscript holds) fun sup rest holds => ?_
    cases sup with
    | some sup =>
      refine discipline.bind (keeps_refusePrime lawful holds) fun _ rest holds => ?_
      exact keeps_lastScript lawful inner .subscript
        (fun sub => { primes, sub, sup := some sup }) holds
    | none => exact discipline.pure holds _

/-- The scripts after a base, and what is checked after them. -/
theorem keeps_allScripts {α : Type} (complete : Parser.Scripts → α) (holds : terms.holds input) :
    discipline.Keeps false input
      (do
        let attached ← scripts first
        refuseScriptMark
        return complete attached)
      (do
        let attached ← scripts second
        refuseScriptMark
        return complete attached) := by
  refine discipline.bind (keeps_scripts lawful inner holds) fun attached rest holds => ?_
  exact discipline.map (keeps_refuseScriptMark lawful holds) fun _ => complete attached

theorem keeps_scripted {token : Token} {tail : List Token} (holds : terms.holds (token :: tail)) :
    discipline.Keeps false (token :: tail) (scripted first) (scripted second) :=
  discipline.bind (inner.keeps holds) fun base _ holds =>
    keeps_allScripts lawful inner (·.attach base) holds

theorem keeps_part {token : Token} {tail : List Token} (holds : terms.holds (token :: tail)) :
    discipline.Keeps false (token :: tail) (part first) (part second) := by
  apply discipline.peek_bind
  refine discipline.bind (keeps_scripted lawful inner holds) fun node rest holds => ?_
  cases isMark : Grid.isCellMark node with
  | true => exact discipline.throw_bind (lawful.common rfl)
  | false => exact discipline.pure holds node

theorem keeps_parts (holds : terms.holds input) :
    discipline.Keeps false input (Reader.untilEnd (part first)) (Reader.untilEnd (part second)) :=
  discipline.untilEnd (fun _ _ => keeps_part lawful inner) holds

theorem keeps_sequence (options : ParseOptions) (limit : Int) (holds : terms.holds input) :
    discipline.Keeps false input (sequence options first)
      (sequence { options with maxDepth := limit } second) :=
  discipline.map (keeps_parts lawful inner holds) fun parts =>
    Node.group (parts.filter (keeps options))

theorem keeps_grid (holds : terms.holds input) :
    discipline.Keeps false input (grid first) (grid second) :=
  discipline.map (discipline.untilEnd (fun _ _ => keeps_scripted lawful inner) holds) Grid.ofParts

theorem keeps_argument (command : String) (holds : terms.holds input) :
    discipline.Keeps true input (argument first command) (argument second command) := by
  apply discipline.previous_bind
  intro previous
  apply discipline.skipLayout_bind
  apply discipline.remaining_bind
  have left := lawful.dropLayout holds
  cases ends : input.dropWhile Token.isLayout with
  | nil => exact discipline.throw (lawful.common rfl)
  | cons token tail =>
    rw [ends] at left
    by_cases closes : token = .closeBrace
    · simp only [closes, if_true]
      exact discipline.throw_bind (lawful.common rfl)
    · simp only [closes, if_false]
      exact discipline.lookBack (inner.splitNumber_bind left)

theorem keeps_rootIndex (options : ParseOptions) (limit : Int) (holds : terms.holds input) :
    discipline.Keeps looksBack input (rootIndex? options first)
      (rootIndex? { options with maxDepth := limit } second) := by
  apply discipline.remaining_bind
  have left := lawful.dropLayout holds
  cases ends : input.dropWhile Token.isLayout with
  | nil => exact discipline.pure holds none
  | cons opener tail =>
    rw [ends] at left
    by_cases isOpener : opener = .openBracket
    · simp only [isOpener, if_true]
      unfold closingBracket
      cases found : closing? .openBracket .closeBracket tail with
      | none => exact discipline.throw_bind (lawful.common rfl)
      | some offset =>
        have inside := lawful.takeBody (by simp [enclosures]) found (lawful.drop left 1)
        exact keeps_enclosed lawful _ some
          (keeps_sequence lawful inner options limit inside) holds
    · simp only [isOpener, if_false]
      exact discipline.pure holds none

theorem keeps_unaryCommand (options : ParseOptions) (limit : Int) {command : String}
    (holds : terms.holds input)
    (stops : Lexer.takesText ⟨.command, command⟩ = true → bracedText? input = none →
      ∀ previous, terms.stops (.missingContent command previous)) :
    discipline.Keeps true input (unaryCommand options first command)
      (unaryCommand { options with maxDepth := limit } second command) := by
  unfold unaryCommand
  by_cases isText : command = "\\text"
  · rw [if_pos isText, if_pos isText]
    subst isText
    exact discipline.map (keeps_textArgument lawful holds (stops (by decide))) Node.text
  rw [if_neg isText, if_neg isText]
  by_cases isOperator : command = "\\operatorname"
  · rw [if_pos isOperator, if_pos isOperator]
    subst isOperator
    exact discipline.map (keeps_textArgument lawful holds (stops (by decide))) fun content =>
      Node.unaryFunc _ (.text content) none
  rw [if_neg isOperator, if_neg isOperator]
  by_cases isRoot : command = "\\sqrt"
  · simp only [isRoot, if_true]
    refine discipline.bind (keeps_rootIndex lawful inner options limit holds)
      fun index rest holds => ?_
    exact discipline.map (keeps_argument lawful inner _ holds) fun arg =>
      Node.unaryFunc _ arg index
  · simp only [isRoot, if_false]
    exact discipline.map (keeps_argument lawful inner _ holds) fun arg =>
      Node.unaryFunc _ arg none

theorem keeps_command (options : ParseOptions) (limit : Int) {value : String}
    (holds : terms.holds input)
    (stops : Lexer.takesText ⟨.command, value⟩ = true → bracedText? input = none →
      ∀ previous, terms.stops (.missingContent value previous)) :
    discipline.Keeps false (⟨.command, value⟩ :: input) (command options first)
      (command { options with maxDepth := limit } second) := by
  apply discipline.take_bind
  change discipline.Keeps true input
    (if pairedNames.contains (commandName value) = true then _ else _)
    (if pairedNames.contains (commandName value) = true then _ else _)
  by_cases paired : pairedNames.contains (commandName value) = true
  · rw [if_pos paired, if_pos paired]
    exact discipline.throw_bind (lawful.common rfl)
  · have named : String.ofList (value.toList.drop 1) = commandName value := rfl
    rw [if_neg paired, if_neg paired]
    simp only [named]
    cases Arity.ofName (commandName value) with
    | constant => exact discipline.pure holds _
    | unary => exact keeps_unaryCommand lawful inner options limit holds stops
    | binary =>
      refine discipline.bind (keeps_argument lawful inner value holds) fun one rest holds => ?_
      exact discipline.map (keeps_argument lawful inner value holds) fun other =>
        Node.binaryFunc value one other

theorem keeps_leftRight (options : ParseOptions) (limit : Int) (holds : terms.holds input) :
    discipline.Keeps false (.left :: input) (leftRight options first)
      (leftRight { options with maxDepth := limit } second) := by
  apply discipline.take_bind
  apply discipline.remaining_bind
  refine discipline.check_bind
    (fun cause failed => lawful.common (isCommon_delimiterAfter failed)) ?_
  rintro ⟨opening, bodyStart⟩ -
  cases found : closing? .left .right input with
  | none => exact discipline.throw (lawful.common rfl)
  | some offset =>
    refine discipline.check_bind
      (fun cause failed => lawful.common (isCommon_delimiterAfter failed)) ?_
    rintro ⟨closing, length⟩ -
    have body := lawful.takeBody (by simp [enclosures]) found holds
    exact keeps_enclosed lawful _ (Node.leftright "" opening · closing)
      (keeps_sequence lawful inner options limit (lawful.drop body bodyStart)) holds

theorem keeps_environment (holds : terms.holds input)
    (stops : bracedText? input = none → ∀ previous, terms.stops (.missingContent "\\begin" previous)) :
    discipline.Keeps false (.beginEnvironment :: input) (environment first)
      (environment second) := by
  apply discipline.take_bind
  refine discipline.bind (keeps_textArgument lawful holds stops) fun name rest holds => ?_
  apply discipline.remaining_bind
  refine discipline.check_bind
    (fun cause failed => lawful.common (isCommon_columnSpecificationLength failed)) ?_
  intro columns _
  cases found : closing? .beginEnvironment .endEnvironment rest with
  | none => exact discipline.throw (lawful.common rfl)
  | some offset =>
    refine discipline.check_bind (fun cause failed => ?_) fun _ _ => ?_
    · exact lawful.stops_checkEnd found holds failed
    · have body := lawful.takeBody (by simp [enclosures]) found holds
      obtain ⟨trailing, split, passed⟩ := eq_withoutTrailingLayout_append
        ((rest.take offset).drop (columns + Token.layoutLength (rest.drop columns)))
      have inside := lawful.trailing passed (split ▸ lawful.drop body _)
      exact keeps_enclosed lawful _ (Node.beginend name) (keeps_grid lawful inner inside) holds

theorem keeps_bracedGroup (options : ParseOptions) (limit : Int) (holds : terms.holds input) :
    discipline.Keeps false (.openBrace :: input) (bracedGroup options first)
      (bracedGroup { options with maxDepth := limit } second) := by
  apply discipline.take_bind
  apply discipline.remaining_bind
  unfold closingBrace
  cases found : closing? .openBrace .closeBrace input with
  | none => exact discipline.throw_bind (lawful.common rfl)
  | some offset =>
    have inside := lawful.takeBody (by simp [enclosures]) found holds
    exact keeps_enclosed lawful _ id (keeps_sequence lawful inner options limit inside) holds

end Readers

section Operands

open MathMarkup.Tex.Parser

/-- How the terms for what stands inside an operand go with those for the operand itself. -/
structure Terms.Nested (terms outer : Terms) : Prop where
  inside : terms.Lawful
  outside : outer.Lawful
  enters {token : Token} {tokens : List Token} (holds : outer.holds (token :: tokens)) :
    terms.holds tokens
  leaves {tokens : List Token} (holds : terms.holds tokens) : outer.holds tokens
  stops {cause : ParseError} : terms.stops cause ↔ outer.stops cause

/-- Readers that keep the one discipline keep the other. -/
def Discipline.Refines {terms outer : Terms} (discipline : Discipline terms)
    (wider : Discipline outer) : Prop :=
  ∀ {α : Type} {looksBack : Bool} {input : List Token} {first second : Reader α},
    discipline.Keeps looksBack input first second → wider.Keeps looksBack input first second

variable {terms outer : Terms} {discipline : Discipline terms} {wider : Discipline outer}
  {first second : Reader Node} {token : Token} {tokens : List Token}

theorem keeps_leaf (holds : outer.holds tokens) (kind : LeafKind) (content : String) :
    wider.Keeps false (token :: tokens) (leaf kind content) (leaf kind content) := by
  apply wider.skip_bind
  exact wider.pure holds (Node.leaf kind content)

variable (nested : terms.Nested outer) (refines : discipline.Refines wider)
  (inner : discipline.Inner first second) (options : ParseOptions) (limit : Int)

include nested refines inner

theorem keeps_control {value : String} (holds : outer.holds (⟨.control, value⟩ :: tokens)) :
    wider.Keeps false (⟨.control, value⟩ :: tokens)
      (Parser.control options first ⟨.control, value⟩)
      (Parser.control { options with maxDepth := limit } second ⟨.control, value⟩) := by
  have after := nested.leaves (nested.enters holds)
  unfold Parser.control
  split
  · rename_i isBrace
    change value = "\x7b" at isBrace
    subst isBrace
    exact refines (keeps_bracedGroup nested.inside inner options limit (nested.enters holds))
  · exact wider.throw (nested.outside.common rfl)
  iterate 3 exact keeps_leaf after .control _
  iterate 2 exact wider.pure holds Node.empty
  · rename_i noOpen noClose noRow noThin noCell noSub noSup
    refine wider.throw (nested.outside.control rfl ?_ holds)
    simp only [knownControls, List.mem_cons, List.not_mem_nil, or_false, not_or]
    exact ⟨noOpen, noClose, noRow, noThin, noCell, noSub, noSup⟩

/-- Two readers of operands keep a discipline if those for the inside of an operand do. -/
theorem Discipline.Inner.operandOver :
    wider.Inner (operandOver options first)
      (operandOver { options with maxDepth := limit } second) where
  keeps {token tokens} holds := by
    have after := nested.enters holds
    apply wider.peek_bind
    obtain ⟨kind, value⟩ := token
    cases kind with
    | command =>
      have stops (takes : Lexer.takesText ⟨.command, value⟩ = true)
          (bare : bracedText? tokens = none) (previous : Option Token) :
          terms.stops (.missingContent value previous) :=
        nested.stops.mpr (nested.outside.content takes bare holds previous)
      by_cases begins : Token.mk .command value = .beginEnvironment
      · cases begins
        exact refines (keeps_environment nested.inside inner after (stops (by decide)))
      by_cases opens : Token.mk .command value = .left
      · cases opens
        exact refines (keeps_leftRight nested.inside inner options limit after)
      · simp only [begins, opens, if_false]
        exact refines (keeps_command nested.inside inner options limit after stops)
    | control => exact keeps_control nested refines inner options limit holds
    | element | unknown | text | comment | whitespace | newline =>
      exact keeps_leaf (nested.leaves after) _ _
  afterSplit {token digit remainder tail} split holds := by
    obtain ⟨_, _, _, -, -, rfl, -⟩ := splitNumber?_eq_some split
    apply wider.peek_bind
    exact keeps_leaf (nested.outside.remainder split holds) .element _

end Operands

/-- A discipline for the same terms at every level is kept at every level. -/
theorem Discipline.inner_operandAt {terms : Terms} (discipline : Discipline terms)
    (nested : terms.Nested terms) (options : ParseOptions)
    (limitStops : ∀ token, terms.stops (.tooDeep options.maxDepth token)) (depth : Nat) :
    discipline.Inner (Parser.operandAt options depth) (Parser.operandAt options depth) := by
  induction depth with
  | zero =>
    have refuses (token : Token) (tail : List Token) :
        discipline.Keeps false (token :: tail) (Parser.operandAt options 0)
          (Parser.operandAt options 0) :=
      discipline.peek_bind (discipline.throw (limitStops token))
    exact ⟨fun _ => refuses _ _, fun _ _ => refuses _ _⟩
  | succ depth inductionHypothesis =>
    exact inductionHypothesis.operandOver nested id options options.maxDepth

/-- The terms that ask for nothing. -/
def Terms.free : Terms where
  holds _ := True
  stops _ := True

theorem Terms.lawful_free : Terms.free.Lawful where
  drop _ _ := trivial
  body _ _ _ _ _ := trivial
  trailing _ _ := trivial
  remainder _ _ := trivial
  common _ := trivial
  content _ _ _ _ := trivial
  control _ _ _ := trivial

theorem Terms.nested_free : Terms.free.Nested Terms.free where
  inside := lawful_free
  outside := lawful_free
  enters _ := trivial
  leaves _ := trivial
  stops := .rfl

end MathMarkup.Tex.Grammar
