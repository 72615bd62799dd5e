import Mathlib
import MathMarkup.Tex.Brackets

/-!
# What the scan for a partner finds

`Balanced` says that every opener of a list is closed in it. The scan stops exactly
behind a balanced list, so an item that was found splits the scanned items in a
balanced part, the closer and the rest.
-/

namespace MathMarkup.Nesting

section Depth

variable {α : Type} (opens closes : α → Bool)

/-- The number of openers that are left open by the items. There is none if a closer
has no opener before it. -/
def depthAfter? : Nat → List α → Option Nat
  | depth, [] => some depth
  | depth, item :: rest =>
    if opens item then depthAfter? (depth + 1) rest
    else if closes item then
      match depth with
      | 0 => none
      | outer + 1 => depthAfter? outer rest
    else depthAfter? depth rest

/-- Openers and closers of the items come in nested pairs. -/
def Balanced (items : List α) : Prop :=
  depthAfter? opens closes 0 items = some 0

instance (items : List α) : Decidable (Balanced opens closes items) :=
  inferInstanceAs (Decidable (_ = _))

variable {opens closes}

/-- The depth after two lists is the depth after the second, from where the first ends. -/
theorem depthAfter?_append (depth : Nat) (first second : List α) :
    depthAfter? opens closes depth (first ++ second) =
      (depthAfter? opens closes depth first).bind
        fun reached => depthAfter? opens closes reached second := by
  induction first generalizing depth with
  | nil => rfl
  | cons item rest inductionHypothesis =>
    simp only [List.cons_append, depthAfter?]
    split
    · exact inductionHypothesis _
    · split
      · cases depth with
        | zero => rfl
        | succ outer => exact inductionHypothesis _
      · exact inductionHypothesis _

/-- Openers that stay open around the items raise every depth by the same amount. -/
theorem depthAfter?_add {depth reached : Nat} {items : List α}
    (scanned : depthAfter? opens closes depth items = some reached) (outer : Nat) :
    depthAfter? opens closes (depth + outer) items = some (reached + outer) := by
  induction items generalizing depth with
  | nil =>
    cases scanned
    rfl
  | cons item rest inductionHypothesis =>
    by_cases opening : opens item = true
    · simp only [depthAfter?, opening, if_true] at scanned ⊢
      rw [Nat.add_right_comm]
      exact inductionHypothesis scanned
    by_cases closing : closes item = true
    · cases depth with
      | zero => simp [depthAfter?, opening, closing] at scanned
      | succ inner =>
        simp only [depthAfter?, opening, closing, if_true, Bool.false_eq_true, if_false,
          Nat.add_right_comm inner 1 outer] at scanned ⊢
        exact inductionHypothesis scanned
    · simp only [depthAfter?, opening, closing] at scanned ⊢
      exact inductionHypothesis scanned

theorem Balanced.nil : Balanced opens closes [] := rfl

/-- Balanced items can be left out wherever they stand. -/
theorem Balanced.depthAfter?_append {first : List α} (balanced : Balanced opens closes first)
    (depth : Nat) (second : List α) :
    depthAfter? opens closes depth (first ++ second) = depthAfter? opens closes depth second := by
  have unchanged := depthAfter?_add balanced depth
  rw [Nat.zero_add] at unchanged
  rw [Nesting.depthAfter?_append, unchanged]
  rfl

theorem Balanced.append {first second : List α} (firstBalanced : Balanced opens closes first)
    (secondBalanced : Balanced opens closes second) :
    Balanced opens closes (first ++ second) := by
  unfold Balanced
  rw [firstBalanced.depthAfter?_append]
  exact secondBalanced

/-- Balanced items can be put in between any others. -/
theorem Balanced.insert {items : List α} (balanced : Balanced opens closes items)
    (before after : List α) (around : Balanced opens closes (before ++ after)) :
    Balanced opens closes (before ++ (items ++ after)) := by
  unfold Balanced at around ⊢
  rw [Nesting.depthAfter?_append] at around ⊢
  simpa only [balanced.depthAfter?_append] using around

theorem Balanced.flatten {lists : List (List α)}
    (balanced : ∀ items ∈ lists, Balanced opens closes items) :
    Balanced opens closes lists.flatten := by
  induction lists with
  | nil => exact .nil
  | cons first rest inductionHypothesis =>
    exact (balanced first (by simp)).append (inductionHypothesis fun items member =>
      balanced items (List.mem_cons_of_mem _ member))

theorem Balanced.intercalate {separator : List α} {lists : List (List α)}
    (separates : Balanced opens closes separator)
    (balanced : ∀ items ∈ lists, Balanced opens closes items) :
    Balanced opens closes (separator.intercalate lists) := by
  induction lists with
  | nil => exact .nil
  | cons first rest inductionHypothesis =>
    have firstBalanced := balanced first (by simp)
    have restBalanced := inductionHypothesis fun items member =>
      balanced items (List.mem_cons_of_mem _ member)
    cases rest with
    | nil => simpa [List.intercalate] using firstBalanced
    | cons second others =>
      simpa [List.intercalate] using firstBalanced.append (separates.append restBalanced)

/-- Items that neither open nor close are balanced. -/
theorem Balanced.ofNeutral {items : List α}
    (neutral : ∀ item ∈ items, opens item = false ∧ closes item = false) :
    Balanced opens closes items := by
  induction items with
  | nil => exact .nil
  | cons item rest inductionHypothesis =>
    obtain ⟨noOpener, noCloser⟩ := neutral item (by simp)
    have restNeutral := inductionHypothesis fun other member =>
      neutral other (List.mem_cons_of_mem _ member)
    simpa [Balanced, depthAfter?, noOpener, noCloser] using restNeutral

end Depth

section Scan

variable {α : Type} {opens closes : α → Bool}

/-- The scan passes over the items that leave exactly its own opener open, and stops at
the closer behind them. -/
theorem closingOffsetFrom?_append {depth : Nat} {body tail : List α} {closer : α}
    (scanned : depthAfter? opens closes depth body = some 0)
    (notOpener : opens closer = false) (isCloser : closes closer = true) :
    closingOffsetFrom? opens closes depth (body ++ closer :: tail) = some body.length := by
  induction body generalizing depth with
  | nil =>
    cases scanned
    simp [closingOffsetFrom?, notOpener, isCloser]
  | cons item rest inductionHypothesis =>
    simp only [depthAfter?] at scanned
    simp only [List.cons_append, closingOffsetFrom?, List.length_cons]
    split at scanned
    · rename_i opening
      rw [if_pos opening, inductionHypothesis scanned]
      rfl
    · rename_i noOpening
      rw [if_neg noOpening]
      split at scanned
      · rename_i closing
        rw [if_pos closing]
        cases depth with
        | zero => cases scanned
        | succ outer =>
          simp only [inductionHypothesis scanned, Option.map_some]
      · rename_i noClosing
        rw [if_neg noClosing, inductionHypothesis scanned]
        rfl

/-- What a scan that succeeds has passed over, and where it stopped. -/
theorem exists_of_closingOffsetFrom? {depth offset : Nat} {items : List α}
    (found : closingOffsetFrom? opens closes depth items = some offset) :
    ∃ body closer tail, items = body ++ closer :: tail ∧ body.length = offset ∧
      depthAfter? opens closes depth body = some 0 ∧
      opens closer = false ∧ closes closer = true := by
  induction items generalizing depth offset with
  | nil => simp [closingOffsetFrom?] at found
  | cons item rest inductionHypothesis =>
    simp only [closingOffsetFrom?] at found
    split at found
    · rename_i opening
      obtain ⟨inner, innerFound, rfl⟩ := Option.map_eq_some_iff.mp found
      obtain ⟨body, closer, tail, rfl, rfl, scanned, isCloser⟩ := inductionHypothesis innerFound
      refine ⟨item :: body, closer, tail, rfl, rfl, ?_, isCloser⟩
      simpa [depthAfter?, opening] using scanned
    · rename_i noOpening
      split at found
      · rename_i closing
        split at found
        · cases found
          exact ⟨[], item, rest, rfl, rfl, rfl, by simpa using noOpening, closing⟩
        · obtain ⟨inner, innerFound, rfl⟩ := Option.map_eq_some_iff.mp found
          obtain ⟨body, closer, tail, rfl, rfl, scanned, isCloser⟩ :=
            inductionHypothesis innerFound
          refine ⟨item :: body, closer, tail, rfl, rfl, ?_, isCloser⟩
          simpa [depthAfter?, noOpening, closing] using scanned
      · rename_i noClosing
        obtain ⟨inner, innerFound, rfl⟩ := Option.map_eq_some_iff.mp found
        obtain ⟨body, closer, tail, rfl, rfl, scanned, isCloser⟩ := inductionHypothesis innerFound
        refine ⟨item :: body, closer, tail, rfl, rfl, ?_, isCloser⟩
        simpa [depthAfter?, noOpening, noClosing] using scanned

/-- Items that neither open nor close are passed over. -/
theorem closingOffset?_neutral_append {neutral items : List α}
    (isNeutral : ∀ item ∈ neutral, opens item = false ∧ closes item = false) :
    closingOffset? opens closes (neutral ++ items) =
      (closingOffset? opens closes items).map (· + neutral.length) := by
  unfold closingOffset?
  induction neutral with
  | nil => simp
  | cons item rest inductionHypothesis =>
    obtain ⟨noOpener, noCloser⟩ := isNeutral item (by simp)
    simp [closingOffsetFrom?, noOpener, noCloser, inductionHypothesis fun other member =>
      isNeutral other (List.mem_cons_of_mem _ member), Function.comp_def, Nat.add_assoc]

/-- The partner of an opener is the closer behind the longest balanced part. -/
theorem closingOffset?_eq_some_iff {offset : Nat} {items : List α} :
    closingOffset? opens closes items = some offset ↔
      ∃ body closer tail, items = body ++ closer :: tail ∧ body.length = offset ∧
        Balanced opens closes body ∧ opens closer = false ∧ closes closer = true := by
  constructor
  · exact exists_of_closingOffsetFrom?
  · rintro ⟨body, closer, tail, rfl, rfl, balanced, notOpener, isCloser⟩
    exact closingOffsetFrom?_append balanced notOpener isCloser

end Scan
end MathMarkup.Nesting
