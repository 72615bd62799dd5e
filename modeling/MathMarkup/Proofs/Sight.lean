import MathMarkup.Proofs.Discipline

/-!
# How far readers look back

What a command lacks is reported at the token right before the gap. No reader looks further
back, and an operand starts with a token of its own. So what stands before an operand changes
neither what is read there nor how reading fails.
-/

namespace MathMarkup.Tex

/-- Two readings of the same tokens end alike: with the same value, at places that are reached
over the same tokens, or with the same error. -/
inductive Alike {α : Type} (before other : List Token) :
    EStateM.Result ParseError Cursor α → EStateM.Result ParseError Cursor α → Prop where
  | ok (value : α) (passed after : List Token) :
      Alike before other (.ok value ⟨passed ++ before, after⟩) (.ok value ⟨passed ++ other, after⟩)
  | error (cause : ParseError) (place stop : Cursor) :
      Alike before other (.error cause place) (.error cause stop)

/-- What was passed before counts as passed. -/
theorem Alike.of_append {α : Type} {before other passed : List Token}
    {one another : EStateM.Result ParseError Cursor α}
    (alike : Alike (passed ++ before) (passed ++ other) one another) :
    Alike before other one another := by
  cases alike with
  | error cause place stop => exact .error cause place stop
  | ok value more after =>
    rw [← List.append_assoc, ← List.append_assoc]
    exact .ok value (more ++ passed) after

section Readers

open MathMarkup.Tex.Parser

/-- What readers that look back see before two places is the same. -/
def Near (looksBack : Bool) (before other : List Token) : Prop :=
  looksBack = true → before.head? = other.head?

theorem Near.far (before other : List Token) : Near false before other := nofun

theorem Near.append {looksBack : Bool} {before other : List Token}
    (near : Near looksBack before other) (passed : List Token) :
    Near looksBack (passed ++ before) (passed ++ other) := by
  cases passed with
  | nil => exact near
  | cons token rest => exact fun _ => rfl

/-- From the given tokens the readers read alike at all places that are near enough. -/
def ReadAlike {α : Type} (looksBack : Bool) (input : List Token) (first second : Reader α) :
    Prop :=
  ∀ before other, Near looksBack before other →
    Alike before other (first ⟨before, input⟩) (second ⟨other, input⟩)

/-- Readers after others see the tokens that were passed, which are the same. -/
theorem ReadAlike.bind {α β : Type} {looksBack : Bool} {input : List Token}
    {first second : Reader α} {next following : α → Reader β}
    (alike : ReadAlike looksBack input first second)
    (later : ∀ value rest, ReadAlike looksBack rest (next value) (following value)) :
    ReadAlike looksBack input (first >>= next) (second >>= following) := by
  intro before other near
  change Alike before other (EStateM.bind first next ⟨before, input⟩)
    (EStateM.bind second following ⟨other, input⟩)
  unfold EStateM.bind
  have ends := alike before other near
  generalize first ⟨before, input⟩ = one at ends
  generalize second ⟨other, input⟩ = another at ends
  cases ends with
  | error cause place stop => exact .error cause place stop
  | ok value passed rest => exact (later value rest _ _ (near.append passed)).of_append

theorem ReadAlike.within {α : Type} {looksBack : Bool} {input tokens : List Token}
    {first second : Reader α} (alike : ReadAlike false tokens first second) :
    ReadAlike looksBack input (Reader.within tokens first) (Reader.within tokens second) := by
  intro before other _
  unfold Reader.within Cursor.ofTokens
  have ends := alike [] [] (.far [] [])
  generalize first ⟨[], tokens⟩ = one at ends
  generalize second ⟨[], tokens⟩ = another at ends
  cases ends with
  | ok value passed rest => exact .ok value [] input
  | error cause place stop => exact .error cause _ _

/-- Every reader reads alike after different tokens. -/
def sight : Grammar.Discipline .free where
  Keeps := ReadAlike
  congr alike sameFirst sameSecond before other near := by
    rw [sameFirst, sameSecond]
    exact alike before other near
  lookBack alike before other _ := alike before other (.far before other)
  pure {_ _ input} _ value _ _ _ := .ok value [] input
  throw {_ _ _ cause} _ _ _ _ := .error cause _ _
  bind alike later := alike.bind fun value rest => later value rest trivial
  previous_bind {_ input next following} alike before other near := by
    change Alike before other (next before.head? ⟨before, input⟩)
      (following other.head? ⟨other, input⟩)
    rw [near rfl]
    exact alike other.head? before other near
  skip_bind {_ _ input count _ _} alike before other near :=
    (alike _ _ (near.append (input.take count).reverse)).of_append
  take_bind {_ token _ _ _} alike before other _ :=
    Alike.of_append (alike ([token] ++ before) ([token] ++ other) fun _ => rfl)
  splitNumber_bind {_ _ input next following} alike before other near := by
    change Alike before other (next ⟨⟩ (Cursor.splitNumber ⟨before, input⟩))
      (following ⟨⟩ (Cursor.splitNumber ⟨other, input⟩))
    rw [Grammar.splitNumber_eq, Grammar.splitNumber_eq]
    exact alike before other near
  within _ := ReadAlike.within

/-- What stands before an operand is not looked at, at any depth. -/
theorem sight_operandAt (options : ParseOptions) (depth : Nat) :
    sight.Inner (operandAt options depth) (operandAt options depth) :=
  sight.inner_operandAt Grammar.Terms.nested_free options (fun _ => trivial) depth

end Readers

section Parts

open MathMarkup.Tex.Parser

/-- What a reading gives, without the place where it ends. -/
def Reader.outcome {α : Type} : EStateM.Result ParseError Cursor α → Except ParseError α
  | .ok value _ => .ok value
  | .error cause _ => .error cause

theorem Alike.outcome_eq {α : Type} {before other : List Token}
    {one another : EStateM.Result ParseError Cursor α} (alike : Alike before other one another) :
    Reader.outcome one = Reader.outcome another := by
  cases alike <;> rfl

/-- The parts of a formula. -/
def partsOf (options : ParseOptions) (tokens : List Token) : Except ParseError (List Node) :=
  Reader.outcome (Reader.untilEnd (part (operand options)) (Cursor.ofTokens tokens))

/-- A formula is the parts that are kept. -/
theorem parseTokens_eq_map (options : ParseOptions) (tokens : List Token) :
    parseTokens options tokens =
      (partsOf options tokens).map fun parts => .group (parts.filter (keeps options)) := by
  simp only [parseTokens, Parser.sequence, partsOf, bind, EStateM.bind]
  cases Reader.untilEnd (part (operand options)) (Cursor.ofTokens tokens) <;> rfl

/-- Scripts do not change whether a part is kept. -/
theorem keeps_attach {options : ParseOptions} {base : Node} (kept : keeps options base = true)
    (attached : Scripts) : keeps options (attached.attach base) = true := by
  unfold Scripts.attach
  split
  · exact kept
  · rfl

/-- What stands before the parts changes nothing. -/
theorem outcome_untilEnd (options : ParseOptions) (before tokens : List Token) :
    Reader.outcome (Reader.untilEnd (part (operand options)) ⟨before, tokens⟩) =
      partsOf options tokens :=
  Alike.outcome_eq (Grammar.keeps_parts Grammar.Terms.lawful_free (sight_operandAt options _)
    trivial before [] (.far before []))

/-- After the first part come the parts of the tokens that it leaves. -/
theorem partsOf_of_scripted {options : ParseOptions} {input rest : List Token} {node : Node}
    (read : Grammar.Scripted (Grammar.Reads options options.maxDepth.toNat) input node rest)
    (noMark : Grid.isCellMark node = false) :
    partsOf options input = (partsOf options rest).map (node :: ·) := by
  have progresses := Grammar.Reads.progresses options options.maxDepth.toNat
  have shorter : rest.length < input.length := read.length_lt progresses
  obtain ⟨passed, first⟩ := (Grammar.realizes_part (Grammar.realizes_operandAt options _) progresses
    input [] node rest).mpr ⟨read, noMark⟩
  obtain ⟨token, tail, rfl⟩ := List.exists_cons_of_length_pos (Nat.zero_lt_of_lt shorter)
  rw [← outcome_untilEnd options passed rest, partsOf, Cursor.ofTokens, Reader.untilEnd]
  simp only [operand, first, if_pos shorter]
  cases Reader.untilEnd (part (operandAt options options.maxDepth.toNat)) ⟨passed, rest⟩ <;> rfl

end Parts

end MathMarkup.Tex
