import MathMarkup.Proofs.Lockstep

/-!
# The nesting limit

Two readers with different limits go in step until the lower one is met. So a limit only
ever keeps a formula from being read, and each level takes a token: a limit that is at
least the number of tokens is never met.
-/

namespace MathMarkup.Tex.Grammar

/-- The error says that a formula nests too deep. -/
def IsLimit (cause : ParseError) : Prop :=
  cause.label = "MaxDepthExceededError"

/-- The terms of two readers of at most the given number of tokens, which only a limit may
tell apart. -/
def limitTerms (count : Nat) : Terms where
  holds tokens := tokens.length ≤ count
  stops cause := ¬ IsLimit cause

theorem not_isLimit_of_common {cause : ParseError} (common : isCommon cause = true) :
    ¬ IsLimit cause := by
  cases cause with
  | tooDeep limit token => cases common
  | _ => simp [IsLimit, ParseError.label]

theorem lawful_limitTerms (count : Nat) : (limitTerms count).Lawful where
  drop {tokens} holds skipped := by
    change tokens.length ≤ count at holds
    change (tokens.drop skipped).length ≤ count
    rw [List.length_drop]
    omega
  body {opener closer} _ {inside rest} _ holds := by
    change (inside ++ closer :: rest).length ≤ count at holds
    change inside.length ≤ count
    rw [List.length_append] at holds
    omega
  trailing {tokens layout} _ holds := by
    change (tokens ++ layout).length ≤ count at holds
    change tokens.length ≤ count
    rw [List.length_append] at holds
    omega
  remainder _ holds := holds
  common := not_isLimit_of_common
  content _ _ _ _ := by simp [limitTerms, IsLimit, ParseError.label]
  control _ _ _ := by simp [limitTerms, IsLimit, ParseError.label]

/-- What stands inside an operand has fewer tokens. -/
theorem nested_limitTerms (count : Nat) : (limitTerms count).Nested (limitTerms (count + 1)) where
  inside := lawful_limitTerms count
  outside := lawful_limitTerms (count + 1)
  enters holds := Nat.le_of_succ_le_succ holds
  leaves holds := Nat.le_succ_of_le holds
  stops := .rfl

/-- With levels that may not be enough the readers go in step until none is left. -/
theorem inner_operandAt (options : ParseOptions) (limit : Int) {tooLow : Prop}
    {shallow deep : Nat} (deeper : shallow ≤ deep) {count : Nat}
    (few : shallow < count → tooLow) :
    (inStep (limitTerms count) fun cause => IsLimit cause ∧ tooLow).Inner
      (Parser.operandAt options shallow)
      (Parser.operandAt { options with maxDepth := limit } deep) := by
  -- Each level takes a token, so that the levels and the tokens get fewer together.
  induction shallow generalizing deep count with
  | zero =>
    have refuses {token : Token} {input tail : List Token}
        (holds : (limitTerms count).holds (token :: tail)) (next : Token) :
        Together (limitTerms count) (fun cause => IsLimit cause ∧ tooLow) (next :: input)
          (Parser.operandAt options 0)
          (Parser.operandAt { options with maxDepth := limit } deep) := fun before =>
      .diverge ⟨before, next :: input⟩ ⟨rfl, few (Nat.lt_of_lt_of_le (Nat.succ_pos _) holds)⟩ _
    exact ⟨fun holds => refuses holds _, fun _ holds => refuses holds _⟩
  | succ shallow inductionHypothesis =>
    obtain ⟨deep, rfl⟩ : ∃ fewer, deep = fewer + 1 := ⟨deep - 1, by omega⟩
    cases count with
    | zero => exact ⟨fun holds => absurd holds (Nat.not_succ_le_zero _),
        fun _ holds => absurd holds (Nat.not_succ_le_zero _)⟩
    | succ count =>
      have fewInside : shallow < count → tooLow := fun fewer => few (Nat.succ_lt_succ fewer)
      have inside := inductionHypothesis (Nat.le_of_succ_le_succ deeper) fewInside
      have nested := nested_limitTerms count
      exact inside.operandOver nested (inStep_refines nested _) options limit

/-- How the readings of one list of tokens under two limits go together. -/
theorem parseTokens_limits (options : ParseOptions) (tokens : List Token) {shallow deep : Int}
    (deeper : shallow ≤ deep) :
    (∃ tree, parseTokens { options with maxDepth := shallow } tokens = .ok tree ∧
      parseTokens { options with maxDepth := deep } tokens = .ok tree) ∨
    ∃ cause, parseTokens { options with maxDepth := shallow } tokens = .error cause ∧
      (¬ IsLimit cause ∧ parseTokens { options with maxDepth := deep } tokens = .error cause ∨
        IsLimit cause ∧ shallow.toNat < tokens.length) :=
  parseTokens_inStep (lawful_limitTerms tokens.length) le_rfl
    (inner_operandAt { options with maxDepth := shallow } deep (Int.toNat_le_toNat deeper) id)

end MathMarkup.Tex.Grammar

namespace MathMarkup.Tex

open Grammar

/-- A higher limit changes no tree and no error but that of the limit, and a limit of as many
levels as there are tokens is never met. -/
theorem limit_only_refuses (options : ParseOptions) (tokens : List Token) {shallow deep : Int}
    (deeper : shallow ≤ deep) :
    (∀ tree, parseTokens { options with maxDepth := shallow } tokens = .ok tree →
      parseTokens { options with maxDepth := deep } tokens = .ok tree) ∧
    (∀ cause, parseTokens { options with maxDepth := shallow } tokens = .error cause →
      cause.label ≠ "MaxDepthExceededError" →
      parseTokens { options with maxDepth := deep } tokens = .error cause) ∧
    (tokens.length ≤ shallow →
      ∀ cause, parseTokens { options with maxDepth := shallow } tokens = .error cause →
        cause.label ≠ "MaxDepthExceededError") := by
  rcases parseTokens_limits options tokens deeper with
    ⟨tree, shallowRead, deepRead⟩ | ⟨cause, shallowRead, stops | ⟨isLimit, tooLow⟩⟩
  · rw [shallowRead, deepRead]
    exact ⟨fun _ same => same, nofun, nofun⟩
  · rw [shallowRead, stops.2]
    refine ⟨nofun, fun _ same _ => same, fun _ other same => ?_⟩
    cases same
    exact stops.1
  · rw [shallowRead]
    refine ⟨nofun, fun other same apart => ?_, fun enough => ?_⟩
    · cases same
      exact absurd isLimit apart
    · omega

/-- A fraction of a letter with a script and of a digit that is split from its number. -/
def splitFraction : List Token :=
  [⟨.command, "\\frac"⟩, .openBrace, ⟨.element, "x"⟩, ⟨.control, "_"⟩, ⟨.element, "2"⟩, .closeBrace,
    ⟨.element, "13"⟩]

/-- The fraction needs three levels, and a brace that is not closed is found with any. -/
theorem limit_only_refuses_splitFraction :
    parseTokens { symbols := [], maxDepth := 2 } splitFraction =
      .error (.tooDeep 2 ⟨.element, "x"⟩) ∧
    (∃ tree, parseTokens { symbols := [], maxDepth := 3 } splitFraction = .ok tree ∧
      parseTokens { symbols := [], maxDepth := 128 } splitFraction = .ok tree) ∧
    ∃ cause, parseTokens { symbols := [], maxDepth := 4 } (.openBrace :: splitFraction.take 3) =
        .error cause ∧
      cause.label ≠ "MaxDepthExceededError" ∧
      parseTokens { symbols := [], maxDepth := 128 } (.openBrace :: splitFraction.take 3) =
        .error cause := by
  have refused : parseTokens { symbols := [], maxDepth := 2 } splitFraction =
      .error (.tooDeep 2 ⟨.element, "x"⟩) := by
    cbv
  have read : parseTokens { symbols := [], maxDepth := 3 } splitFraction =
      .ok (.ordgroup "" [.binaryFunc "\\frac"
        (.supsub "" (.element "x") none (some (.element "2"))) (.element "1"), .element "3"]) := by
    cbv
  have unmatched : parseTokens { symbols := [], maxDepth := 4 }
      (.openBrace :: splitFraction.take 3) = .error (.unmatchedBraces (some .openBrace)) := by
    cbv
  have closed := limit_only_refuses { symbols := [] } splitFraction (show (3 : Int) ≤ 128 by decide)
  have unclosed := limit_only_refuses { symbols := [] } (.openBrace :: splitFraction.take 3)
    (show (4 : Int) ≤ 128 by decide)
  have enough := unclosed.2.2 (by decide) _ unmatched
  exact ⟨refused, ⟨_, read, closed.1 _ read⟩, _, unmatched, enough, unclosed.2.1 _ unmatched enough⟩

end MathMarkup.Tex
