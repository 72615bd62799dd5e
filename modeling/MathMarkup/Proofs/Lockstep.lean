import MathMarkup.Proofs.Discipline

/-!
# Readers in step

Two readers that differ only in how they read inside an operand go through the tokens in
step: they read the same, and fail alike, until the first one meets an error of its own.
-/

namespace MathMarkup.Tex.Grammar

/-- Two readings end in step: both alike, or the first one with an error at which it stops by
itself. -/
inductive InStep {α : Type} (terms : Terms) (diverges : ParseError → Prop) :
    EStateM.Result ParseError Cursor α → EStateM.Result ParseError Cursor α → Prop where
  | ok (value : α) (place : Cursor) (holds : terms.holds place.after) :
      InStep terms diverges (.ok value place) (.ok value place)
  | stop {cause : ParseError} (place : Cursor) (stops : terms.stops cause) :
      InStep terms diverges (.error cause place) (.error cause place)
  | diverge {cause : ParseError} (place : Cursor) (own : diverges cause)
      (other : EStateM.Result ParseError Cursor α) :
      InStep terms diverges (.error cause place) other

/-- From the given tokens the two readers go in step. -/
def Together {α : Type} (terms : Terms) (diverges : ParseError → Prop) (input : List Token)
    (first second : Reader α) : Prop :=
  ∀ before, InStep terms diverges (first ⟨before, input⟩) (second ⟨before, input⟩)

section Steps

variable {α β : Type} {terms : Terms} {diverges : ParseError → Prop} {input : List Token}

theorem Together.bind {first second : Reader α} {next following : α → Reader β}
    (together : Together terms diverges input first second)
    (later : ∀ value rest, terms.holds rest →
      Together terms diverges rest (next value) (following value)) :
    Together terms diverges input (first >>= next) (second >>= following) := by
  intro before
  change InStep terms diverges (EStateM.bind first next ⟨before, input⟩)
    (EStateM.bind second following ⟨before, input⟩)
  unfold EStateM.bind
  have ends := together before
  generalize first ⟨before, input⟩ = one at ends
  generalize second ⟨before, input⟩ = other at ends
  cases ends with
  | ok value place holds => exact later value place.after holds place.before
  | stop place stops => exact .stop place stops
  | diverge place own other => exact .diverge place own _

theorem Together.within {tokens : List Token} {first second : Reader α}
    (holds : terms.holds input) (together : Together terms diverges tokens first second) :
    Together terms diverges input (Reader.within tokens first) (Reader.within tokens second) := by
  intro before
  unfold Reader.within Cursor.ofTokens
  have ends := together []
  generalize first ⟨[], tokens⟩ = one at ends
  generalize second ⟨[], tokens⟩ = other at ends
  cases ends with
  | ok value place _ => exact .ok value _ holds
  | stop place stops => exact .stop _ stops
  | diverge place own other => exact .diverge _ own _

end Steps

/-- Going in step is kept by every reader. -/
def inStep (terms : Terms) (diverges : ParseError → Prop) : Discipline terms where
  Keeps _ := Together terms diverges
  congr together sameFirst sameSecond before := by
    rw [sameFirst, sameSecond]
    exact together before
  lookBack together := together
  pure {_ _ input} holds value before := .ok value ⟨before, input⟩ holds
  throw {_ _ input _} stops before := .stop ⟨before, input⟩ stops
  bind := Together.bind
  previous_bind together before := together before.head? before
  skip_bind {_ _ input count _ _} together before :=
    together ((input.take count).reverse ++ before)
  take_bind {_ token _ _ _} together before := together (token :: before)
  splitNumber_bind {_ _ input next following} together before := by
    change InStep terms diverges (next ⟨⟩ (Cursor.splitNumber ⟨before, input⟩))
      (following ⟨⟩ (Cursor.splitNumber ⟨before, input⟩))
    rw [splitNumber_eq]
    exact together before
  within := Together.within

/-- Readers inside an operand go in step for the operand as well. -/
theorem inStep_refines {terms outer : Terms} (nested : terms.Nested outer)
    (diverges : ParseError → Prop) :
    (inStep terms diverges).Refines (inStep outer diverges) := by
  intro α _ input first second together before
  have ends := together before
  generalize first ⟨before, input⟩ = one at ends ⊢
  generalize second ⟨before, input⟩ = other at ends ⊢
  cases ends with
  | ok value place holds => exact .ok value place (nested.leaves holds)
  | stop place stops => exact .stop place (nested.stops.mp stops)
  | diverge place own other => exact .diverge place own other

/-- How two readings of a whole list of tokens end, when their readers go in step. -/
theorem parseTokens_inStep {terms : Terms} {diverges : ParseError → Prop} (lawful : terms.Lawful)
    {options : ParseOptions} {limit : Int} {tokens : List Token} (holds : terms.holds tokens)
    (inner : (inStep terms diverges).Inner (Parser.operand options)
      (Parser.operand { options with maxDepth := limit })) :
    (∃ tree, parseTokens options tokens = .ok tree ∧
      parseTokens { options with maxDepth := limit } tokens = .ok tree) ∨
    ∃ cause, parseTokens options tokens = .error cause ∧
      (terms.stops cause ∧ parseTokens { options with maxDepth := limit } tokens = .error cause ∨
        diverges cause) := by
  have ends := keeps_sequence lawful inner options limit holds []
  unfold parseTokens Cursor.ofTokens
  generalize Parser.sequence options (Parser.operand options) ⟨[], tokens⟩ = one at ends ⊢
  generalize Parser.sequence { options with maxDepth := limit }
    (Parser.operand { options with maxDepth := limit }) ⟨[], tokens⟩ = other at ends ⊢
  cases ends with
  | ok tree place _ => exact .inl ⟨tree, rfl, rfl⟩
  | stop place stops => exact .inr ⟨_, rfl, .inl ⟨stops, rfl⟩⟩
  | diverge place own => exact .inr ⟨_, rfl, .inr own⟩

end MathMarkup.Tex.Grammar
