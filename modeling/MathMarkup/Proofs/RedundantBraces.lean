import MathMarkup.Proofs.BraceBalance
import MathMarkup.Proofs.DepthLimit
import MathMarkup.Proofs.Shape

/-!
# Braces around a whole formula

Braces around all the tokens of a formula are read as the formula inside them, with one level
more. They find each other because the braces of a formula are balanced, and what stands
between them is kept as it is: a formula is neither layout that is dropped nor a cell mark.
-/

namespace MathMarkup.Tex.Grammar

variable {options : ParseOptions} {reading : Reading}

section OnePart

/-- After the last token there are no scripts. -/
theorem ScriptsOf.of_nil {rest : List Token} {scripts : Parser.Scripts}
    (attached : ScriptsOf reading [] scripts rest) : scripts = {} ∧ rest = [] := by
  generalize same : ([] : List Token) = input at attached
  cases attached with
  | none primes rest =>
    obtain ⟨noPrimes, rfl⟩ := List.nil_eq_append_iff.mp same
    obtain rfl : primes = 0 := by simpa using noPrimes
    exact ⟨rfl, rfl⟩
  | sub | subSup | sup | supSub => simp at same

/-- If the first operand takes all of the tokens, then the formula is this operand. -/
theorem Sequence.of_operand {token : Token} {tail : List Token} {tree : Node}
    (read : Sequence reading options (token :: tail) tree)
    (takesAll : ∀ ⦃node rest⦄, reading (token :: tail) node rest → rest = []) :
    ∃ node, reading (token :: tail) node [] ∧
      tree = .group ([node].filter (Parser.keeps options)) := by
  obtain ⟨parts, -⟩ := read
  cases parts with
  | cons first others =>
    obtain ⟨base, attached, settled⟩ := first
    obtain rfl := takesAll base
    obtain ⟨rfl, rfl⟩ := attached.of_nil
    cases others
    exact ⟨_, base, rfl⟩

end OnePart

section OnePair

theorem keeps_group {parts : List Node} (kept : ∀ part ∈ parts, Parser.keeps options part = true) :
    Parser.keeps options (.group parts) = true := by
  match parts with
  | [] => rfl
  | [part] => exact kept part List.mem_cons_self
  | first :: second :: rest => rfl

/-- A formula is kept as a part of another formula. -/
theorem Sequence.kept {input : List Token} {tree : Node}
    (read : Sequence reading options input tree) :
    Parser.keeps options tree = true ∧ Grid.isCellMark tree = false := by
  obtain ⟨-, noMark⟩ := read
  exact ⟨keeps_group fun part member => (List.mem_filter.mp member).2,
    isCellMark_group fun part member => noMark part (List.mem_filter.mp member).1⟩

/-- The formula in braces, with one level more, is the formula itself. -/
theorem sequence_braced_iff {depth : Nat} {tokens : List Token} {tree : Node}
    (balanced : Balanced .openBrace .closeBrace tokens) :
    Sequence (Reads options (depth + 1)) options (braced tokens) tree ↔
      Sequence (Reads options depth) options tokens tree := by
  constructor
  · intro read
    have inner : ∀ ⦃node rest⦄, Reads options (depth + 1) (braced tokens) node rest →
        Sequence (Reads options depth) options tokens node ∧ rest = [] := by
      intro node rest operand
      obtain ⟨body, same, bodyBalanced, inside⟩ := (operand_openBrace_iff options).mpr operand
      obtain ⟨rfl, rfl⟩ := Balanced.unique (by decide) same balanced bodyBalanced
      exact ⟨inside, rfl⟩
    obtain ⟨node, operand, rfl⟩ := read.of_operand fun node rest operand => (inner operand).2
    have inside := (inner operand).1
    simpa [inside.kept.1, Node.group] using inside
  · intro inside
    have standing := standing_braced balanced inside
    have scripted : Scripted (Reads options (depth + 1)) (braced tokens) tree [] := by
      have operand := standing.read []
      rw [List.append_nil] at operand
      exact .intro operand (.none 0 []) (by simp [Settled])
    exact sequence_of_scripted (Reads.progresses options _) scripted inside.kept

end OnePair

section AllPairs

variable {tokens : List Token} {tree : Node}

theorem balanced_iterate_braced (balanced : Balanced .openBrace .closeBrace tokens) (pairs : Nat) :
    Balanced .openBrace .closeBrace (braced^[pairs] tokens) := by
  induction pairs with
  | zero => exact balanced
  | succ pairs inductionHypothesis =>
    rw [Function.iterate_succ_apply']
    exact balanced_braced bracePair inductionHypothesis

/-- Each pair of braces takes one level. -/
theorem sequence_iterate_braced_iff (balanced : Balanced .openBrace .closeBrace tokens)
    (depth pairs : Nat) :
    Sequence (Reads options (depth + pairs)) options (braced^[pairs] tokens) tree ↔
      Sequence (Reads options depth) options tokens tree := by
  induction pairs with
  | zero => rfl
  | succ pairs inductionHypothesis =>
    rw [Function.iterate_succ_apply', ← Nat.add_assoc,
      sequence_braced_iff (balanced_iterate_braced balanced pairs), inductionHypothesis]

/-- Without any level left only the formula without tokens is read. -/
theorem Sequence.eq_nil {input : List Token} (read : Sequence (Reads options 0) options input tree) :
    input = [] := by
  obtain ⟨parts, -⟩ := read
  cases parts with
  | nil => rfl
  | cons first others =>
    obtain ⟨base, -, -⟩ := first
    exact base.elim

end AllPairs

end MathMarkup.Tex.Grammar

namespace MathMarkup.Tex

open Grammar

variable {options : ParseOptions} {tokens : List Token} {tree : Node}

/-- With as many levels more as there are pairs the formula is read through the braces. -/
theorem parseTokens_iterate_braced (parsed : parseTokens options tokens = .ok tree)
    (levels : 0 ≤ options.maxDepth) (pairs : Nat) :
    parseTokens { options with maxDepth := options.maxDepth + pairs } (braced^[pairs] tokens) =
      .ok tree := by
  have depths : (options.maxDepth + pairs).toNat = options.maxDepth.toNat + pairs := by omega
  have formula := parseTokens_eq_ok_iff.mp parsed
  have widened := Sequence.mono (Reads.mono (options.maxDepth + pairs) le_rfl)
    (options.maxDepth + pairs) _ _ formula
  rw [parseTokens_eq_ok_iff]
  dsimp only
  rw [depths]
  exact (sequence_iterate_braced_iff (balanced_of_parseTokens parsed) _ pairs).mpr widened

/-- Braces around nothing are not read with fewer levels than there are pairs. -/
theorem parseTokens_iterate_braced_nil {pairs : Nat} (tooFew : options.maxDepth.toNat < pairs) :
    parseTokens options (braced^[pairs] []) ≠ .ok tree := by
  obtain ⟨missing, rfl⟩ := Nat.exists_eq_add_of_lt tooFew
  intro parsed
  have formula := parseTokens_eq_ok_iff.mp parsed
  have inside : Balanced .openBrace .closeBrace (braced^[missing + 1] []) :=
    balanced_iterate_braced .nil (missing + 1)
  rw [Nat.add_assoc, Function.iterate_add_apply] at formula
  have innermost := (sequence_iterate_braced_iff inside 0 options.maxDepth.toNat).mp
    (by rwa [Nat.zero_add])
  rw [Function.iterate_succ_apply'] at innermost
  cases innermost.eq_nil

/-- Braces around all the tokens change nothing, given one level more for each pair. Only for
a negative limit and no tokens it is otherwise: nothing is read there without any level, and
with braces around it one level is missing. -/
theorem redundant_braces_iff (options : ParseOptions) {tokens : List Token} {tree : Node}
    (parsed : parseTokens options tokens = .ok tree) (pairs : Nat) :
    let outcome := parseTokens { options with maxDepth := options.maxDepth + pairs }
      (braced^[pairs] tokens)
    (outcome = .ok tree ↔ 0 ≤ options.maxDepth ∨ tokens ≠ [] ∨ pairs = 0) ∧
      (outcome = .ok tree ∨
        ∃ cause, outcome = .error cause ∧ cause.label = "MaxDepthExceededError") := by
  intro outcome
  by_cases levels : 0 ≤ options.maxDepth
  · have read : outcome = .ok tree := parseTokens_iterate_braced parsed levels pairs
    exact ⟨iff_of_true read (.inl levels), .inl read⟩
  have noLevel : options.maxDepth.toNat = 0 := by omega
  have formula := parseTokens_eq_ok_iff.mp parsed
  rw [noLevel] at formula
  obtain rfl := formula.eq_nil
  cases pairs with
  | zero =>
    have read : outcome = .ok tree := by simpa [outcome] using parsed
    exact ⟨iff_of_true read (.inr (.inr rfl)), .inl read⟩
  | succ pairs =>
    have refused : outcome ≠ .ok tree := parseTokens_iterate_braced_nil (by dsimp only; omega)
    refine ⟨iff_of_false refused (by simp [levels]), .inr ?_⟩
    -- With no limit below the number of pairs the same tokens are read.
    have nothing : parseTokens { options with maxDepth := 0 } [] = .ok tree := by
      exact parseTokens_eq_ok_iff.mpr (Sequence.mono (Reads.mono 0 le_rfl) 0 _ _ formula)
    have read := parseTokens_iterate_braced nothing le_rfl (pairs + 1)
    have shallower : options.maxDepth + (pairs + 1 : Nat) ≤ 0 + (pairs + 1 : Nat) := by omega
    rcases parseTokens_limits options (braced^[pairs + 1] []) shallower with
      ⟨other, shallow, deep⟩ | ⟨cause, shallow, ⟨-, deep⟩ | ⟨isLimit, -⟩⟩
    · obtain rfl := Except.ok.inj (deep.symm.trans read)
      exact absurd shallow refused
    · cases deep.symm.trans read
    · exact ⟨cause, shallow, isLimit⟩

/-- Three pairs of braces around a root that leaves a digit of its argument behind. -/
theorem redundant_braces_root :
    parseTokens { symbols := [], maxDepth := 2 } [⟨.command, "\\sqrt"⟩, ⟨.element, "12"⟩] =
      .ok (.ordgroup "" [.unaryFunc "\\sqrt" (.element "1") none, .element "2"]) ∧
    parseTokens { symbols := [], maxDepth := 5 }
        [.openBrace, .openBrace, .openBrace, ⟨.command, "\\sqrt"⟩, ⟨.element, "12"⟩, .closeBrace,
          .closeBrace, .closeBrace] =
      .ok (.ordgroup "" [.unaryFunc "\\sqrt" (.element "1") none, .element "2"]) := by
  have parsed : parseTokens { symbols := [], maxDepth := 2 }
      [⟨.command, "\\sqrt"⟩, ⟨.element, "12"⟩] =
      .ok (.ordgroup "" [.unaryFunc "\\sqrt" (.element "1") none, .element "2"]) := by
    cbv
  exact ⟨parsed, (redundant_braces_iff _ parsed 3).1.mpr (.inl (by decide))⟩

/-- Without levels and tokens there is a formula, and with braces and one level more there is
none. -/
theorem braces_exceed_negative_limit :
    parseTokens { symbols := [], maxDepth := -1 } [] = .ok .empty ∧
      parseTokens { symbols := [], maxDepth := 0 } [.openBrace, .closeBrace] =
        .error (.tooDeep 0 .openBrace) := by
  constructor <;> cbv

end MathMarkup.Tex
