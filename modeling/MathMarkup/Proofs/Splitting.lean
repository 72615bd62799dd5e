import MathMarkup.Proofs.Matching

/-!
# Splitting at separators

A list is split at the separators that no bracket encloses. Items that no separator splits
are `Sealed`; if such items are put together with separators in between, splitting finds
them again.
-/

namespace MathMarkup.Nesting

section Splitting

variable {α : Type} (opens closes separates : α → Bool)

/-- The items between the separators that no bracket encloses, when `depth` brackets are
open at the start. -/
def splitFrom : Nat → List α → List (List α)
  | _, [] => [[]]
  | depth, item :: rest =>
    if opens item then (splitFrom (depth + 1) rest).modifyHead (item :: ·)
    else if closes item then (splitFrom (depth - 1) rest).modifyHead (item :: ·)
    else if depth = 0 ∧ separates item = true then [] :: splitFrom depth rest
    else (splitFrom depth rest).modifyHead (item :: ·)

/-- The items between the separators that no bracket encloses. -/
def split (items : List α) : List (List α) :=
  splitFrom opens closes separates 0 items

/-- The items stay together when a list that starts with them is split. -/
def Sealed (items : List α) : Prop :=
  ∀ rest, split opens closes separates (items ++ rest) =
    (split opens closes separates rest).modifyHead (items ++ ·)

variable {opens closes separates}

/-- In brackets nothing separates. -/
theorem splitFrom_append_of_depthAfter? {depth reached : Nat} {items : List α}
    (scanned : depthAfter? opens closes depth items = some reached) (rest : List α) :
    splitFrom opens closes separates (depth + 1) (items ++ rest) =
      (splitFrom opens closes separates (reached + 1) rest).modifyHead (items ++ ·) := by
  induction items generalizing depth with
  | nil =>
    cases scanned
    exact (congrFun List.modifyHead_id _).symm
  | cons item items inductionHypothesis =>
    simp only [depthAfter?] at scanned
    rw [List.cons_append, splitFrom]
    split at scanned
    · rename_i opening
      rw [if_pos opening, inductionHypothesis scanned, List.modifyHead_modifyHead]
      rfl
    · rename_i noOpening
      rw [if_neg noOpening]
      split at scanned
      · rename_i closing
        rw [if_pos closing]
        cases depth with
        | zero => cases scanned
        | succ outer =>
          rw [Nat.add_sub_cancel, inductionHypothesis scanned, List.modifyHead_modifyHead]
          rfl
      · rename_i noClosing
        rw [if_neg noClosing, if_neg (by simp), inductionHypothesis scanned,
          List.modifyHead_modifyHead]
        rfl

namespace Sealed

theorem nil : Sealed opens closes separates [] :=
  fun _ => (congrFun List.modifyHead_id _).symm

theorem append {first second : List α} (firstSealed : Sealed opens closes separates first)
    (secondSealed : Sealed opens closes separates second) :
    Sealed opens closes separates (first ++ second) := by
  intro rest
  rw [List.append_assoc, firstSealed, secondSealed, List.modifyHead_modifyHead]
  simp [Function.comp_def]

theorem cons {item : α} {items : List α} (noOpener : opens item = false)
    (noCloser : closes item = false) (noSeparator : separates item = false)
    (others : Sealed opens closes separates items) :
    Sealed opens closes separates (item :: items) := by
  have single : Sealed opens closes separates [item] := by
    intro rest
    simp [split, splitFrom, noOpener, noCloser, noSeparator]
  exact single.append others

theorem intercalate {sign : α} (noOpener : opens sign = false) (noCloser : closes sign = false)
    (noSeparator : separates sign = false) {lists : List (List α)}
    (together : ∀ items ∈ lists, Sealed opens closes separates items) :
    Sealed opens closes separates (List.intercalate [sign] lists) := by
  induction lists with
  | nil => exact nil
  | cons first others inductionHypothesis =>
    rw [List.forall_mem_cons] at together
    have othersTogether := inductionHypothesis together.2
    cases others with
    | nil => simpa using together.1
    | cons second others =>
      rw [List.intercalate_cons_cons, List.append_assoc, List.singleton_append]
      exact together.1.append (othersTogether.cons noOpener noCloser noSeparator)

/-- Whatever is in brackets stays together. -/
theorem enclosed {opener closer : α} {body : List α} (isOpener : opens opener = true)
    (notOpener : opens closer = false) (isCloser : closes closer = true)
    (balanced : Balanced opens closes body) :
    Sealed opens closes separates (opener :: body ++ [closer]) := by
  intro rest
  unfold split
  rw [List.append_assoc, List.cons_append, splitFrom, if_pos isOpener, List.singleton_append,
    splitFrom_append_of_depthAfter? balanced, splitFrom, if_neg (by simp [notOpener]),
    if_pos isCloser, List.modifyHead_modifyHead, List.modifyHead_modifyHead]
  simp [Function.comp_def]

end Sealed

/-- The list, or one item in the place of none. -/
def orOne {β : Type} (item : β) : List β → List β
  | [] => [item]
  | items => items

/-- Items that stay together are found again between separators. -/
theorem split_intercalate {separator : α} (noOpener : opens separator = false)
    (noCloser : closes separator = false) (isSeparator : separates separator = true)
    {lists : List (List α)} (together : ∀ items ∈ lists, Sealed opens closes separates items) :
    split opens closes separates (List.intercalate [separator] lists) =
      orOne [] lists := by
  induction lists with
  | nil => rfl
  | cons first others inductionHypothesis =>
    have firstTogether := together first (by simp)
    have othersTogether := inductionHypothesis fun items member =>
      together items (List.mem_cons_of_mem _ member)
    cases others with
    | nil => simpa [split, splitFrom, orOne] using firstTogether []
    | cons second others =>
      have atSeparator : split opens closes separates
          (separator :: List.intercalate [separator] (second :: others)) =
          [] :: second :: others := by
        rw [split, splitFrom, if_neg (by simp [noOpener]), if_neg (by simp [noCloser]),
          if_pos ⟨rfl, isSeparator⟩]
        exact congrArg ([] :: ·) othersTogether
      rw [List.intercalate_cons_cons, List.append_assoc, List.singleton_append, firstTogether,
        atSeparator]
      simp [orOne]

end Splitting
end MathMarkup.Nesting
