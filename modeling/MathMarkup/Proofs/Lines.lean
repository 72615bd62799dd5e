/-!
# Comments and the lines they are on

A comment runs to the end of its line, so that whatever stands after it on the same line
is lost. `endsLines` says that no comment among some items is followed by anything but a
line break, given what comes next. It is computed part by part: the items that follow a
part matter to it only by what they start with.
-/

namespace MathMarkup.Lines

/-- What an item does to the line that it is on. -/
inductive Role where
  /-- It takes up the rest of the line. -/
  | comment
  /-- It ends the line. -/
  | lineBreak
  | other
deriving DecidableEq, Repr

/-- Items that stand on lines: tokens, parts of a formula, pieces of output. -/
class HasRole (α : Type) where
  role : α → Role

export HasRole (role)

/-- What comes next. -/
inductive Following where
  | nothing
  | lineBreak
  | other
deriving DecidableEq, Repr

/-- What comes next if an item does. -/
def Role.following : Role → Following
  | .lineBreak => .lineBreak
  | .comment | .other => .other

variable {α : Type} [HasRole α]

/-- What some items start with, or what follows them if there are none. -/
def opening (next : Following) : List α → Following
  | [] => next
  | item :: _ => (role item).following

/-- Nothing stands on the same line after a comment of the items. -/
def endsLines (next : Following) : List α → Bool
  | [] => true
  | item :: rest => (role item != .comment || opening next rest != .other) && endsLines next rest

section Calculus

variable {next : Following}

@[simp]
theorem opening_nil (next : Following) : opening next ([] : List α) = next := rfl

@[simp]
theorem endsLines_nil (next : Following) : endsLines next ([] : List α) = true := rfl

@[simp]
theorem endsLines_singleton (next : Following) (item : α) :
    endsLines next [item] = (role item != .comment || next != .other) := by
  simp [endsLines]

@[simp]
theorem opening_append (next : Following) (first second : List α) :
    opening next (first ++ second) = opening (opening next second) first := by
  cases first <;> rfl

@[simp]
theorem endsLines_append (next : Following) (first second : List α) :
    endsLines next (first ++ second) =
      (endsLines (opening next second) first && endsLines next second) := by
  induction first with
  | nil => rfl
  | cons item rest inductionHypothesis =>
    simp [endsLines, inductionHypothesis, Bool.and_assoc]

theorem opening_cons {item : α} (plain : role item = .other) (rest : List α) :
    opening next (item :: rest) = .other := by
  simp [opening, plain, Role.following]

theorem opening_cons_ne_other_iff {item : α} {rest : List α} :
    opening next (item :: rest) ≠ .other ↔ role item = .lineBreak := by
  rw [opening]
  cases role item <;> simp [Role.following]

theorem endsLines_cons {item : α} (plain : role item ≠ .comment) (rest : List α) :
    endsLines next (item :: rest) = endsLines next rest := by
  simp [endsLines, plain]

theorem endsLines_tail {item : α} {rest : List α} (ended : endsLines next (item :: rest) = true) :
    endsLines next rest = true := by
  rw [endsLines, Bool.and_eq_true] at ended
  exact ended.2

theorem endsLines_right {first second : List α} (ended : endsLines next (first ++ second) = true) :
    endsLines next second = true := by
  rw [endsLines_append, Bool.and_eq_true] at ended
  exact ended.2

/-- What stands before a sign does not end in a comment. -/
theorem endsLines_left {first second : List α} {sign : α}
    (ended : endsLines next (first ++ sign :: second) = true) (plain : role sign = .other) :
    endsLines .other first = true := by
  rw [endsLines_append, Bool.and_eq_true, opening_cons plain] at ended
  exact ended.1

/-- Items that are no comments need no line breaks. -/
theorem endsLines_of_plain {items : List α} (plain : ∀ item ∈ items, role item ≠ .comment) :
    endsLines next items = true := by
  induction items with
  | nil => rfl
  | cons item rest inductionHypothesis =>
    rw [endsLines_cons (plain item (by simp))]
    exact inductionHypothesis fun other member => plain other (List.mem_cons_of_mem _ member)

/-- Lines that end before what comes next end if nothing comes next. -/
theorem endsLines_nothing {items : List α} (ended : endsLines next items = true) :
    endsLines .nothing items = true := by
  induction items with
  | nil => rfl
  | cons item rest inductionHypothesis =>
    simp only [endsLines, Bool.and_eq_true, Bool.or_eq_true] at ended ⊢
    refine ⟨ended.1.imp_right fun stops => ?_, inductionHypothesis ended.2⟩
    cases rest with
    | nil => rfl
    | cons second others => exact stops

/-- A line break comes right after a comment, or nothing does. -/
theorem opening_of_comment {item : α} {rest : List α} (comment : role item = .comment)
    (ended : endsLines next (item :: rest) = true) : opening next rest ≠ .other := by
  simp only [endsLines, comment, bne_self_eq_false, Bool.false_or, Bool.and_eq_true,
    bne_iff_ne] at ended
  exact ended.1

/-- What comes next matters to a comment at the end alone. -/
theorem endsLines_of_getLast? {items : List α} {later : Following}
    (last : ∀ item ∈ items.getLast?, role item ≠ .comment) (ended : endsLines next items = true) :
    endsLines later items = true := by
  induction items with
  | nil => rfl
  | cons item rest inductionHypothesis =>
    cases rest with
    | nil => simpa using .inl (last item rfl)
    | cons second others =>
      rw [endsLines, Bool.and_eq_true] at ended ⊢
      rw [List.getLast?_cons_cons] at last
      exact ⟨ended.1, inductionHypothesis last ended.2⟩

/-- A comment at the end hides what comes next. -/
theorem getLast?_of_endsLines_other {items : List α} (ended : endsLines .other items = true) :
    ∀ item ∈ items.getLast?, role item ≠ .comment := by
  intro item isLast
  obtain ⟨before, rfl⟩ := List.getLast?_eq_some_iff.mp isLast
  rw [endsLines_append, Bool.and_eq_true, endsLines_singleton] at ended
  simpa using ended.2

/-- Items that are no comments and end no line can be left out. -/
theorem endsLines_filter {items : List α} {keep : α → Bool}
    (dropped : ∀ item ∈ items, keep item = false → role item = .other)
    (ended : endsLines next items = true) : endsLines next (items.filter keep) = true := by
  induction items with
  | nil => rfl
  | cons item rest inductionHypothesis =>
    have restEnded := inductionHypothesis
      (fun other member => dropped other (List.mem_cons_of_mem _ member))
      (endsLines_tail ended)
    rw [List.filter_cons]
    split
    · by_cases comment : role item = .comment
      · have stops := opening_of_comment comment ended
        have stopsStill : opening next (rest.filter keep) ≠ .other := by
          cases rest with
          | nil => exact stops
          | cons second others =>
            have isBreak := opening_cons_ne_other_iff.mp stops
            have kept : keep second = true := by
              cases kept : keep second with
              | true => rfl
              | false => simp [dropped second (by simp) kept] at isBreak
            rw [List.filter_cons_of_pos kept]
            exact opening_cons_ne_other_iff.mpr isBreak
        simp [endsLines, restEnded, stopsStill]
      · rw [endsLines_cons comment, restEnded]
    · exact restEnded

/-- The lines end exactly if each comment is the last item or has a line break after it. -/
theorem endsLines_nothing_iff (items : List α) :
    endsLines .nothing items = true ↔
      ∀ before item after, items = before ++ item :: after → role item = .comment →
        after = [] ∨ ∃ lineBreak rest, after = lineBreak :: rest ∧ role lineBreak = .lineBreak := by
  constructor
  · intro ended before item after split comment
    rw [split, endsLines_append, Bool.and_eq_true] at ended
    have stops := opening_of_comment comment ended.2
    cases after with
    | nil => exact .inl rfl
    | cons lineBreak rest =>
      exact .inr ⟨lineBreak, rest, rfl, opening_cons_ne_other_iff.mp stops⟩
  · intro ended
    induction items with
    | nil => rfl
    | cons item rest inductionHypothesis =>
      have restEnded := inductionHypothesis fun before other after split =>
        ended (item :: before) other after (by rw [split]; rfl)
      rw [endsLines, restEnded, Bool.and_true, Bool.or_eq_true]
      by_cases comment : role item = .comment
      · refine .inr ?_
        rcases ended [] item rest rfl comment with rfl | ⟨lineBreak, others, rfl, breaks⟩
        · rfl
        · exact bne_iff_ne.mpr (opening_cons_ne_other_iff.mpr breaks)
      · exact .inl (by simpa using comment)

end Calculus

section Separated

/-- Nothing stands on the same line after a comment of one of the lists, if a sign stands
between each two of them. -/
def endsLinesBetween (next : Following) : List (List α) → Bool
  | [] => true
  | [items] => endsLines next items
  | items :: rest => endsLines .other items && endsLinesBetween next rest

/-- What lists of items with a sign between each two of them start with. -/
def openingBetween (next : Following) : List (List α) → Following
  | [] => next
  | [items] => opening next items
  | items :: _ => opening .other items

variable {next : Following} {sign : α}

omit [HasRole α] in
private theorem intercalate_cons_cons (sign : α) (first second : List α) (rest : List (List α)) :
    List.intercalate [sign] (first :: second :: rest) =
      first ++ sign :: List.intercalate [sign] (second :: rest) := by
  simp [List.intercalate]

theorem endsLines_intercalate (plain : role sign = .other) (lists : List (List α)) :
    endsLines next (List.intercalate [sign] lists) = endsLinesBetween next lists := by
  induction lists with
  | nil => rfl
  | cons items rest inductionHypothesis =>
    cases rest with
    | nil => simp [List.intercalate, endsLinesBetween]
    | cons second others =>
      rw [intercalate_cons_cons, endsLines_append, opening_cons plain,
        endsLines_cons (by simp [plain]), inductionHypothesis]
      rfl

theorem opening_intercalate (plain : role sign = .other) (lists : List (List α)) :
    opening next (List.intercalate [sign] lists) = openingBetween next lists := by
  match lists with
  | [] => rfl
  | [items] => simp [List.intercalate, openingBetween]
  | items :: second :: others =>
    rw [intercalate_cons_cons, opening_append, opening_cons plain]
    rfl

theorem endsLinesBetween_other (lists : List (List α)) :
    endsLinesBetween .other lists = lists.all (endsLines .other) := by
  induction lists with
  | nil => rfl
  | cons items rest inductionHypothesis =>
    cases rest with
    | nil => simp [endsLinesBetween]
    | cons second others => simp [endsLinesBetween, inductionHypothesis]

end Separated

end MathMarkup.Lines
