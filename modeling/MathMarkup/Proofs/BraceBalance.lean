import MathMarkup.Proofs.Conservation
import MathMarkup.Proofs.Skipping

/-!
# Braces of a formula are balanced

The column specification of an array is cut out by its braces and never read, and the
scan for them does not stop where the environment ends. It ends in front of it all the
same: what follows the environment is read, and closes no brace that is not its own.
-/

namespace MathMarkup.Tex.Grammar

/-- The number of braces that are open after the tokens. -/
abbrev braceDepth? : Nat → List Token → Option Nat :=
  Nesting.depthAfter? (· == Token.openBrace) (· == Token.closeBrace)

/-- The tokens close no braces but their own. -/
def ClosesOwnBraces (tokens : List Token) : Prop :=
  ∃ depth, braceDepth? 0 tokens = some depth

/-- As many braces are open after all the tokens as after those that are left, if these
close no braces but their own. -/
def KeepsBraces (input rest : List Token) : Prop :=
  ClosesOwnBraces rest → ∀ depth, braceDepth? depth input = braceDepth? depth rest

theorem KeepsBraces.balanced {body : List Token} (keeps : KeepsBraces body []) :
    Balanced .openBrace .closeBrace body :=
  keeps ⟨0, rfl⟩ 0

theorem braceDepth?_append {tokens : List Token}
    (balanced : Balanced .openBrace .closeBrace tokens) (depth : Nat) (rest : List Token) :
    braceDepth? depth (tokens ++ rest) = braceDepth? depth rest :=
  balanced.depthAfter?_append depth rest

theorem keepsBraces_append {tokens : List Token}
    (balanced : Balanced .openBrace .closeBrace tokens) (rest : List Token) :
    KeepsBraces (tokens ++ rest) rest :=
  fun _ depth => braceDepth?_append balanced depth rest

theorem bracePair : (Token.openBrace, Token.closeBrace) ∈ pairs := by
  decide

theorem balanced_layout {layout : List Token} (passed : ∀ blank ∈ layout, blank.isLayout = true) :
    Balanced .openBrace .closeBrace layout :=
  balanced_of_noHalf bracePair (noHalf_layout passed)

/-- The column specification of an environment ends before the environment does. -/
theorem exists_specification {name : String} {inside tail : List Token} {columns : Nat}
    (specification : Parser.columnSpecificationLength name (inside ++ .endEnvironment :: tail) =
      .ok columns) (closes : ClosesOwnBraces tail) :
    ∃ specified others, inside = specified ++ others ∧ specified.length = columns ∧
      Balanced .openBrace .closeBrace specified := by
  unfold Parser.columnSpecificationLength at specification
  cases inside with
  | nil =>
    simp only [List.nil_append] at specification
    rw [if_neg fun isSpecification => by cases isSpecification.2] at specification
    cases specification
    exact ⟨[], [], rfl, rfl, .nil⟩
  | cons first others =>
    simp only [List.cons_append] at specification
    split at specification
    · rename_i isSpecification
      obtain ⟨-, rfl⟩ := isSpecification
      unfold Parser.closingBrace at specification
      split at specification
      · rename_i offset found
        cases specification
        obtain ⟨body, after, parts, rfl, balanced⟩ := (closing?_eq_some_iff (by decide)).mp found
        rcases List.append_eq_append_iff.mp parts with ⟨beyond, rfl, follows⟩ | ⟨more, rfl, follows⟩
        · -- The specification would close a brace beyond the end of the environment.
          obtain ⟨reached, scanned⟩ := closes
          obtain ⟨opened, -, beyondScanned⟩ := Option.bind_eq_some_iff.mp
            ((Nesting.depthAfter?_append 0 others beyond).symm.trans balanced)
          have tailScanned : braceDepth? 0 (beyond ++ .closeBrace :: after) = some reached := by
            rw [← follows]
            exact scanned
          obtain ⟨left, leftScanned, closed⟩ := Option.bind_eq_some_iff.mp
            ((Nesting.depthAfter?_append 0 beyond _).symm.trans tailScanned)
          have raised := Nesting.depthAfter?_add leftScanned opened
          rw [Nat.zero_add, beyondScanned] at raised
          obtain rfl : left = 0 := by
            have same := Option.some.inj raised
            omega
          cases closed
        · cases more with
          | nil => cases follows
          | cons token rest =>
            obtain ⟨rfl, -⟩ := List.cons.inj follows
            refine ⟨braced body, rest, by simp [braced], by simp, ?_⟩
            exact balanced_braced bracePair balanced
      · cases specification
    · cases specification
      exact ⟨[], _, rfl, rfl, .nil⟩

theorem keepsBraces_environment {name : String} {tokens inside rest : List Token} {columns : Nat}
    (split : tokens =
      inside ++ .endEnvironment :: .openBrace :: ⟨.text, name⟩ :: .closeBrace :: rest)
    (specification : Parser.columnSpecificationLength name tokens = .ok columns)
    (body : KeepsBraces (Parser.withoutTrailingLayout
      (inside.drop (columns + Token.layoutLength (tokens.drop columns)))) []) :
    KeepsBraces (.beginEnvironment :: .openBrace :: ⟨.text, name⟩ :: .closeBrace :: tokens)
      rest := by
  intro closes depth
  have named := balanced_bracedText bracePair name
  have tailCloses : ClosesOwnBraces (bracedText name ++ rest) := by
    unfold ClosesOwnBraces
    rw [braceDepth?_append named]
    exact closes
  subst split
  obtain ⟨specified, others, rfl, rfl, specifiedBalanced⟩ :=
    exists_specification specification tailCloses
  obtain ⟨leading, trailing, leadingPassed, trailingPassed, parts⟩ :=
    environment_body specified others (bracedText name ++ rest)
  have othersBalanced : Balanced .openBrace .closeBrace others := by
    rw [parts]
    exact (balanced_layout leadingPassed).append
      (body.balanced.append (balanced_layout trailingPassed))
  have insideBalanced := specifiedBalanced.append othersBalanced
  have begins : Balanced .openBrace .closeBrace [.beginEnvironment] := by decide
  have ends : Balanced .openBrace .closeBrace [.endEnvironment] := by decide
  have taken := begins.append (named.append (insideBalanced.append (ends.append named)))
  simpa [bracedText, braced] using braceDepth?_append taken depth rest

theorem skipping_keepsBraces : Skipping KeepsBraces where
  refl tokens _ _ := rfl
  trans first second closes depth := by
    have secondSame := second closes
    have middleCloses := closes
    unfold ClosesOwnBraces at middleCloses
    rw [← secondSame 0] at middleCloses
    exact (first middleCloses depth).trans (secondSame depth)
  plain {token} noHalf rest := by
    have balanced : Balanced .openBrace .closeBrace [token] :=
      balanced_of_noHalf bracePair (by simpa using noHalf)
    exact keepsBraces_append balanced rest
  split tokens _ depth := by
    cases tokens with
    | nil => rfl
    | cons token tail =>
      rcases splitFirst_cons token tail with same | ⟨digit, remainder, split, parts⟩
      · rw [same]
      · obtain ⟨first, second, rest, -, rfl, rfl, rfl⟩ := splitNumber?_eq_some split
        rw [parts]
        rfl
  whole inside rest := keepsBraces_append inside.balanced rest
  braces inside rest := by
    have enclosed := keepsBraces_append (balanced_braced bracePair inside.balanced) rest
    simpa [braced] using enclosed
  delimiters inside rest := by
    have commands := balanced_pair bracePair .left .right (by decide)
    have enclosed := inside.balanced.insert [.left] [.right] commands
    simpa using keepsBraces_append enclosed rest
  environment := keepsBraces_environment

/-- The braces of tokens that are parsed are balanced. -/
theorem balanced_of_parseTokens {options : ParseOptions} {tokens : List Token} {tree : Node}
    (parsed : parseTokens options tokens = .ok tree) : Balanced .openBrace .closeBrace tokens :=
  (skipping_keepsBraces.parsed parsed).balanced

end MathMarkup.Tex.Grammar
