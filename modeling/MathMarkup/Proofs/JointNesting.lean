import MathMarkup.Proofs.Conservation
import MathMarkup.Proofs.Skipping

/-!
# Pairs of a formula do not cross

Each scan for a closer counts one kind of pair and passes over the others. Joint nesting
follows all the same: whatever a scan cuts out is read again, so that it cannot hold half
of a pair. One stack keeps the openers of all kinds, and reading leaves it as it was.
-/

namespace MathMarkup.Tex.Grammar

/-- What is opened: a group, a delimited formula or an environment of a name. -/
inductive Opener where
  | brace
  | left
  | environment (name : String)
deriving DecidableEq, Repr

namespace Opener

/-- Takes the opener from the top of the stack. There is no result if another one is there. -/
def pop? (opener : Opener) : List Opener → Option (List Opener)
  | top :: stack => if top = opener then some stack else none
  | [] => none

/-- The stack after a token, given the tokens that follow it: they name the environment
that the token opens or closes. -/
def step? (stack : List Opener) (token : Token) (following : List Token) :
    Option (List Opener) :=
  if token = .openBrace then some (brace :: stack)
  else if token = .closeBrace then brace.pop? stack
  else if token = .left then some (left :: stack)
  else if token = .right then left.pop? stack
  else if token = .beginEnvironment then
    (Parser.bracedText? following).map fun name => environment name :: stack
  else if token = .endEnvironment then
    (Parser.bracedText? following).bind fun name => (environment name).pop? stack
  else some stack

/-- The stack after some tokens. There is none if a closer meets an opener of another
kind or of another name. -/
def scan? : List Opener → List Token → Option (List Opener)
  | stack, [] => some stack
  | stack, token :: rest => (step? stack token rest).bind fun next => scan? next rest

end Opener

/-- The pairs of all kinds in the tokens are nested in each other, and the two ends of
each environment have the same name. -/
def JointlyNested (tokens : List Token) : Prop :=
  Opener.scan? [] tokens = some []

instance (tokens : List Token) : Decidable (JointlyNested tokens) :=
  inferInstanceAs (Decidable (_ = _))

/-- A brace and a delimiter that cross are balanced each on its own, but not nested. -/
example :
    Balanced .openBrace .closeBrace [.left, .openBrace, .right, .closeBrace] ∧
      Balanced .left .right [.left, .openBrace, .right, .closeBrace] ∧
      ¬ JointlyNested [.left, .openBrace, .right, .closeBrace] := by
  decide

section Scan

open Opener

variable {stack next : List Opener}

@[simp]
theorem pop?_self (opener : Opener) (stack : List Opener) :
    opener.pop? (opener :: stack) = some stack :=
  if_pos rfl

theorem bracedText?_append {tokens : List Token} {name : String}
    (named : Parser.bracedText? tokens = some name) (more : List Token) :
    Parser.bracedText? (tokens ++ more) = some name := by
  obtain ⟨rest, rfl⟩ := bracedText?_eq_some_iff.mp named
  exact named

/-- A step that succeeds does not depend on tokens that are further away. -/
theorem step?_append {token : Token} {following : List Token}
    (stepped : step? stack token following = some next) (more : List Token) :
    step? stack token (following ++ more) = some next := by
  unfold step? at stepped ⊢
  split_ifs at stepped ⊢ with openBrace closeBrace left right begins ends
  · exact stepped
  · exact stepped
  · exact stepped
  · exact stepped
  · obtain ⟨name, named, rfl⟩ := Option.map_eq_some_iff.mp stepped
    rw [bracedText?_append named]
    rfl
  · obtain ⟨name, named, popped⟩ := Option.bind_eq_some_iff.mp stepped
    rw [bracedText?_append named]
    exact popped
  · exact stepped

theorem scan?_append {first : List Token} (scanned : scan? stack first = some next)
    (second : List Token) : scan? stack (first ++ second) = scan? next second := by
  induction first generalizing stack with
  | nil =>
    cases scanned
    rfl
  | cons token rest inductionHypothesis =>
    obtain ⟨middle, stepped, scanned⟩ := Option.bind_eq_some_iff.mp scanned
    rw [List.cons_append, scan?, step?_append stepped]
    exact inductionHypothesis scanned

/-- A token that is no half of a pair leaves the stack as it is. -/
theorem scan?_cons_of_noHalf {token : Token} (noHalf : isHalf token = false) (rest : List Token) :
    scan? stack (token :: rest) = scan? stack rest := by
  simp only [isHalf, pairs, List.any_cons, List.any_nil, Bool.or_false, Bool.or_eq_false_iff,
    beq_eq_false_iff_ne] at noHalf
  obtain ⟨⟨noOpen, noClose⟩, ⟨noLeft, noRight⟩, noBegin, noEnd⟩ := noHalf
  rw [scan?, step?, if_neg noOpen, if_neg noClose, if_neg noLeft, if_neg noRight, if_neg noBegin,
    if_neg noEnd]
  rfl

theorem scan?_append_of_noHalf {tokens : List Token}
    (noHalf : ∀ token ∈ tokens, isHalf token = false) (rest : List Token) :
    scan? stack (tokens ++ rest) = scan? stack rest := by
  induction tokens with
  | nil => rfl
  | cons token others inductionHypothesis =>
    rw [List.cons_append, scan?_cons_of_noHalf (noHalf token List.mem_cons_self)]
    exact inductionHypothesis fun other member => noHalf other (List.mem_cons_of_mem _ member)

@[simp]
theorem scan?_openBrace (stack : List Opener) (rest : List Token) :
    scan? stack (.openBrace :: rest) = scan? (.brace :: stack) rest := rfl

@[simp]
theorem scan?_closeBrace (stack : List Opener) (rest : List Token) :
    scan? (.brace :: stack) (.closeBrace :: rest) = scan? stack rest := rfl

@[simp]
theorem scan?_left (stack : List Opener) (rest : List Token) :
    scan? stack (.left :: rest) = scan? (.left :: stack) rest := rfl

@[simp]
theorem scan?_right (stack : List Opener) (rest : List Token) :
    scan? (.left :: stack) (.right :: rest) = scan? stack rest := rfl

theorem scan?_begin (stack : List Opener) (name : String) (rest : List Token) :
    scan? stack (.beginEnvironment :: .openBrace :: ⟨.text, name⟩ :: .closeBrace :: rest) =
      scan? (.environment name :: stack) rest := rfl

theorem scan?_end (stack : List Opener) (name : String) (rest : List Token) :
    scan? (.environment name :: stack)
      (.endEnvironment :: .openBrace :: ⟨.text, name⟩ :: .closeBrace :: rest) =
      scan? stack rest := by
  change ((Opener.environment name).pop? (.environment name :: stack)).bind _ = _
  rw [pop?_self]
  rfl

end Scan

section Reading

open Opener

/-- No array starts in the tokens. With nothing counted, this is all that makes them
faithful. -/
abbrev ArrayFree (tokens : List Token) : Prop :=
  Faithful (fun _ => false) tokens

theorem ArrayFree.splitFirst {tokens : List Token} (arrayFree : ArrayFree tokens) :
    ArrayFree (Grammar.splitFirst tokens) :=
  (Faithful.splitFirst ⟨by simp, rfl, rfl, rfl, by simp⟩ arrayFree).1

/-- The stack after all the tokens is the stack after those that are left. No array starts
in what is left if none starts in the whole. -/
def KeepsStack (input rest : List Token) : Prop :=
  ArrayFree input → ArrayFree rest ∧ ∀ stack, scan? stack input = scan? stack rest

/-- Tokens of which nothing is left change no stack. -/
theorem KeepsStack.scan?_append {body : List Token} (keeps : KeepsStack body [])
    (arrayFree : ArrayFree body) (stack : List Opener) (rest : List Token) :
    scan? stack (body ++ rest) = scan? stack rest :=
  Grammar.scan?_append ((keeps arrayFree).2 stack) rest

/-- The parts of a number are no halves of pairs, nor is the number. -/
theorem scan?_splitFirst (stack : List Opener) (tokens : List Token) :
    scan? stack (splitFirst tokens) = scan? stack tokens := by
  cases tokens with
  | nil => rfl
  | cons token tail =>
    rcases splitFirst_cons token tail with same | ⟨digit, remainder, split, parts⟩
    · rw [same]
    · obtain ⟨first, second, rest, -, rfl, rfl, rfl⟩ := splitNumber?_eq_some split
      rw [parts]
      rfl

theorem keepsStack_environment {name : String} {tokens inside rest : List Token} {columns : Nat}
    (split : tokens =
      inside ++ .endEnvironment :: .openBrace :: ⟨.text, name⟩ :: .closeBrace :: rest)
    (specification : Parser.columnSpecificationLength name tokens = .ok columns)
    (body : KeepsStack (Parser.withoutTrailingLayout
      (inside.drop (columns + Token.layoutLength (tokens.drop columns)))) []) :
    KeepsStack (.beginEnvironment :: .openBrace :: ⟨.text, name⟩ :: .closeBrace :: tokens)
      rest := by
  intro arrayFree
  have noArray : name ≠ "array" := by
    rintro rfl
    exact arrayFree.noArray ⟨[], _, rfl⟩
  subst split
  obtain ⟨leading, trailing, leadingPassed, trailingPassed, parts⟩ :=
    environment_body_of_noArray noArray specification
  have insideFree := arrayFree.tail.tail.tail.tail
  refine ⟨insideFree.right.tail.tail.tail.tail, fun stack => ?_⟩
  rw [parts] at insideFree
  rw [scan?_begin, parts, List.append_assoc,
    scan?_append_of_noHalf (noHalf_layout leadingPassed), List.append_assoc,
    body.scan?_append insideFree.left.right.left,
    scan?_append_of_noHalf (noHalf_layout trailingPassed), scan?_end]

theorem skipping_keepsStack : Skipping KeepsStack where
  refl tokens arrayFree := ⟨arrayFree, fun _ => rfl⟩
  trans first second arrayFree := by
    obtain ⟨middleFree, firstSame⟩ := first arrayFree
    obtain ⟨restFree, secondSame⟩ := second middleFree
    exact ⟨restFree, fun stack => (firstSame stack).trans (secondSame stack)⟩
  plain noHalf rest arrayFree := ⟨arrayFree.tail, fun _ => scan?_cons_of_noHalf noHalf rest⟩
  split tokens arrayFree :=
    ⟨ArrayFree.splitFirst arrayFree, fun stack => (scan?_splitFirst stack tokens).symm⟩
  whole inside rest arrayFree :=
    ⟨arrayFree.right, fun stack => inside.scan?_append arrayFree.left stack rest⟩
  braces inside rest arrayFree := by
    refine ⟨arrayFree.right.tail, fun stack => ?_⟩
    rw [List.cons_append, scan?_openBrace, inside.scan?_append arrayFree.left.tail,
      scan?_closeBrace]
  delimiters inside rest arrayFree := by
    refine ⟨arrayFree.right.tail, fun stack => ?_⟩
    rw [List.cons_append, scan?_left, inside.scan?_append arrayFree.left.tail, scan?_right]
  environment := keepsStack_environment

end Reading

/-- Constructs that cross are rejected: without arrays, the groups, the delimited formulas
and the environments of tokens that are parsed are nested in each other, and each
environment ends under the name that it starts with. -/
theorem jointlyNested_of_parseTokens (options : ParseOptions) (tokens : List Token) (tree : Node)
    (noArray : ¬ arrayOpening <:+: tokens) (parsed : parseTokens options tokens = .ok tree) :
    JointlyNested tokens := by
  have arrayFree : ArrayFree tokens := ⟨noArray, by simp⟩
  exact (skipping_keepsStack.parsed parsed arrayFree).2 []

/-- A matrix between delimiters, with a group and delimiters of its own in its cells. -/
def enclosedMatrix : List Token :=
  [.left, ⟨.element, "("⟩, .beginEnvironment, .openBrace, ⟨.text, "matrix"⟩, .closeBrace,
    .openBrace,
    ⟨.element, "x"⟩, .closeBrace, ⟨.control, "&"⟩, .left, ⟨.element, "["⟩, ⟨.element, "y"⟩, .right,
    ⟨.element, "]"⟩, .endEnvironment, .openBrace, ⟨.text, "matrix"⟩, .closeBrace, .right,
    ⟨.element, ")"⟩]

theorem jointlyNested_enclosedMatrix :
    ¬ arrayOpening <:+: enclosedMatrix ∧
      parseTokens { symbols := [] } enclosedMatrix = .ok (.leftright "" (.element "(")
        (.beginend "matrix"
          [[.element "x", .leftright "" (.element "[") (.element "y") (.element "]")]])
        (.element ")")) ∧
      JointlyNested enclosedMatrix := by
  have noArray : ¬ arrayOpening <:+: enclosedMatrix := by decide
  have parsed : parseTokens { symbols := [] } enclosedMatrix = .ok (.leftright "" (.element "(")
      (.beginend "matrix"
        [[.element "x", .leftright "" (.element "[") (.element "y") (.element "]")]])
      (.element ")")) := by
    cbv
  exact ⟨noArray, parsed, jointlyNested_of_parseTokens _ _ _ noArray parsed⟩

end MathMarkup.Tex.Grammar
