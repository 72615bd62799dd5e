import MathMarkup.Proofs.FenceScan

/-!
# Calls for floors and ceilings

Floors are replaced in one pass over the text and ceilings in a second one, each pass in
rounds. `Rewritten` says what comes out of it in one recursion over the pairs of both kinds.
If no pair crosses another, the two passes do just that.
-/

namespace MathMarkup.Typst.Fence

open Text Nesting

/-- The fences that are replaced. -/
def rounding : List Fence := [floor, ceiling]

/-- The text in a call that has no other argument. -/
abbrev emptyText : List Char := ['"', '"']

/-- What stands in the call for a pair. -/
def argument (inner : List Char) : List Char :=
  if trim inner = [] then emptyText else trim inner

/-- The second text is the first one with a call in place of every pair. -/
inductive Rewritten : List Char → List Char → Prop where
  | nil : Rewritten [] []
  | plain {character : Char} {text result : List Char} (noGlyph : isPlain rounding character = true)
      (others : Rewritten text result) : Rewritten (character :: text) (character :: result)
  | pair {fence : Fence} {inner innerResult text result : List Char} (isFence : fence ∈ rounding)
      (inside : Rewritten inner innerResult) (others : Rewritten text result) :
      Rewritten (fence.opening :: inner ++ fence.closing :: text)
        (fence.name.toList ++ '(' :: argument innerResult ++ ')' :: result)

/-- The fence that the character closes. -/
def closed? (fences : List Fence) (character : Char) : Option Fence :=
  fences.find? (·.closing == character)

/-- Every glyph of the text closes the pair that was opened last, where the pairs of the
stack are open at the start, or opens one that is closed in the text. -/
def closesAll : List Fence → List Char → Bool
  | stack, [] => stack.isEmpty
  | stack, character :: rest =>
    match opened? rounding character, closed? rounding character with
    | some fence, _ => closesAll (fence :: stack) rest
    | none, some fence =>
      match stack with
      | top :: outer => top == fence && closesAll outer rest
      | [] => false
    | none, none => closesAll stack rest

/-- The pairs of both fences are nested in each other. -/
def JointlyNested (text : List Char) : Prop :=
  closesAll [] text = true

instance (text : List Char) : Decidable (JointlyNested text) :=
  inferInstanceAs (Decidable (_ = _))

section Glyphs

variable {fence : Fence} {character : Char} {stack : List Fence} {rest : List Char}

theorem Proper.of_mem (isFence : fence ∈ rounding) : fence.Proper := by
  simp only [rounding, List.mem_cons, List.not_mem_nil, or_false] at isFence
  rcases isFence with rfl | rfl
  · exact proper_floor
  · exact proper_ceiling

theorem opened?_rounding (isFence : fence ∈ rounding) :
    opened? rounding fence.opening = some fence := by
  simp only [rounding, List.mem_cons, List.not_mem_nil, or_false] at isFence
  rcases isFence with rfl | rfl <;> rfl

theorem closed?_rounding (isFence : fence ∈ rounding) :
    opened? rounding fence.closing = none ∧ closed? rounding fence.closing = some fence ∧
      isClosing rounding fence.closing = true := by
  simp only [rounding, List.mem_cons, List.not_mem_nil, or_false] at isFence
  rcases isFence with rfl | rfl <;> exact ⟨rfl, rfl, rfl⟩

theorem isPlain_rounding_iff :
    isPlain rounding character = true ↔ ∀ fence ∈ rounding, isPlain [fence] character = true := by
  simp [isPlain, opened?, isClosing, rounding]
  tauto

/-- What a character can be to the two fences. -/
theorem rounding_cases (character : Char) :
    (∃ fence ∈ rounding, character = fence.opening ∨ character = fence.closing) ∨
      isPlain rounding character = true := by
  by_cases plain : isPlain rounding character = true
  · exact .inr plain
  · simp only [isPlain_rounding_iff, isPlain_singleton_iff, not_forall] at plain
    obtain ⟨fence, isFence, isGlyph⟩ := plain
    exact .inl ⟨fence, isFence, by tauto⟩

/-- The glyphs of one fence are plain characters to the other. -/
theorem isPlain_other {other : Fence} (isFence : fence ∈ rounding) (isOther : other ∈ rounding)
    (different : fence ≠ other) :
    isPlain [fence] other.opening = true ∧ isPlain [fence] other.closing = true := by
  simp only [rounding, List.mem_cons, List.not_mem_nil, or_false] at isFence isOther
  rcases isFence with rfl | rfl <;> rcases isOther with rfl | rfl
  · exact absurd rfl different
  · exact ⟨rfl, rfl⟩
  · exact ⟨rfl, rfl⟩
  · exact absurd rfl different

theorem closesAll_opening (isFence : fence ∈ rounding) :
    closesAll stack (fence.opening :: rest) = closesAll (fence :: stack) rest := by
  rw [closesAll, opened?_rounding isFence]

/-- A closing glyph closes what was opened last. -/
theorem closesAll_closing_iff (isFence : fence ∈ rounding) :
    closesAll stack (fence.closing :: rest) = true ↔
      ∃ outer, stack = fence :: outer ∧ closesAll outer rest = true := by
  obtain ⟨notOpening, closes, -⟩ := closed?_rounding isFence
  rw [closesAll.eq_def]
  simp only [notOpening, closes]
  cases stack with
  | nil => simp
  | cons top outer => simp

theorem closesAll_plain (plain : isPlain rounding character = true) :
    closesAll stack (character :: rest) = closesAll stack rest := by
  have noGlyph : opened? rounding character = none ∧ closed? rounding character = none := by
    simp only [isPlain, isClosing, Bool.and_eq_true, Option.isNone_iff_eq_none, Bool.not_eq_true',
      List.any_eq_false] at plain
    exact ⟨plain.1, List.find?_eq_none.mpr plain.2⟩
  rw [closesAll, noGlyph.1, noGlyph.2]

/-- Blanks are no glyphs. -/
theorem Proper.isPlain_of_blank (proper : fence.Proper) (blank : isBlank character = true) :
    isPlain [fence] character = true := by
  refine isPlain_singleton_iff.mpr ⟨?_, ?_⟩
  · rintro rfl
    simp [proper.solid.1] at blank
  · rintro rfl
    simp [proper.solid.2] at blank

theorem depthAfter?_plain (plain : isPlain [fence] character = true) (depth : Nat) :
    depthAfter? (· == fence.opening) (· == fence.closing) depth (character :: rest) =
      depthAfter? (· == fence.opening) (· == fence.closing) depth rest := by
  obtain ⟨notOpening, notClosing⟩ := isPlain_singleton_iff.mp plain
  simp [depthAfter?, notOpening, notClosing]

/-- If pairs do not cross, each fence is nested by itself. -/
theorem depthAfter?_of_closesAll {text : List Char} (isFence : fence ∈ rounding)
    (closed : closesAll stack text = true) :
    depthAfter? (· == fence.opening) (· == fence.closing) (stack.count fence) text = some 0 := by
  induction text generalizing stack with
  | nil =>
    have empty : stack = [] := List.isEmpty_iff.mp closed
    rw [empty]
    rfl
  | cons character rest inductionHypothesis =>
    rcases rounding_cases character with ⟨other, isOther, rfl | rfl⟩ | plain
    · rw [closesAll_opening isOther] at closed
      have later := inductionHypothesis closed
      by_cases same : other = fence
      · rw [same, List.count_cons_self] at later
        simpa [depthAfter?, same] using later
      · rw [List.count_cons_of_ne same] at later
        rw [depthAfter?_plain (isPlain_other isFence isOther (Ne.symm same)).1, later]
    · obtain ⟨outer, rfl, closedLater⟩ := (closesAll_closing_iff isOther).mp closed
      have later := inductionHypothesis closedLater
      by_cases same : other = fence
      · rw [same, List.count_cons_self]
        simpa [depthAfter?, (Proper.of_mem isFence).distinct.symm] using later
      · rw [List.count_cons_of_ne same,
          depthAfter?_plain (isPlain_other isFence isOther (Ne.symm same)).2, later]
    · rw [closesAll_plain plain] at closed
      rw [depthAfter?_plain (isPlain_rounding_iff.mp plain fence isFence),
        inductionHypothesis closed]

/-- The start of a call for either fence has no glyph and no blank. -/
theorem plain_start (isFence : fence ∈ rounding) : ∀ letter ∈ fence.name.toList ++ ['('],
    isPlain rounding letter = true ∧ isBlank letter = false := by
  simp only [isPlain_rounding_iff]
  simp only [rounding, List.mem_cons, List.not_mem_nil, or_false] at isFence
  rcases isFence with rfl | rfl <;>
    simp [rounding, floor, ceiling, isBlank, blanks, CodePointSet.contains]

theorem plain_start_other {other : Fence} (isFence : fence ∈ rounding) (isOther : other ∈ rounding) :
    ∀ letter ∈ other.name.toList ++ ['('], isPlain [fence] letter = true ∧ isBlank letter = false :=
  fun letter member => (plain_start isOther letter member).imp_left fun plain =>
    isPlain_rounding_iff.mp plain fence isFence

theorem floor_name : floor.name.toList = 'f' :: ['l', 'o', 'o', 'r'] := rfl

theorem floor_mem_rounding : floor ∈ rounding := by simp [rounding]

theorem ceiling_mem_rounding : ceiling ∈ rounding := by simp [rounding]

end Glyphs

section Passes

variable {stack : List Fence} {text held : List Char}

/-- What the two passes and a scan for both fences hold back at the same place. Blanks that
the first pass holds back have not reached the second one. -/
inductive Agree (stack : List Fence) :
    Option (List Char) → Option (List Char) → Option (List Char) → Prop where
  | outside {held : List Char} (blanks : ∀ blank ∈ held, isBlank blank = true) :
      Agree stack (some held) (some []) (some held)
  | inCeiling {outer : List Fence} {held : List Char} (isTop : stack = ceiling :: outer)
      (blanks : ∀ blank ∈ held, isBlank blank = true) : Agree stack (some held) none none
  | inFloor {outer : List Fence} (isTop : stack = floor :: outer) : Agree stack none (some []) none

section Agreement

variable {first second joint : Option (List Char)}

/-- A blank is held back by the first pass or dropped. -/
theorem Agree.blank (agree : Agree stack first second joint) {character : Char}
    (blank : isBlank character = true) :
    Agree stack (first.map (· ++ [character])) second (joint.map (· ++ [character])) := by
  cases agree with
  | outside blanks => exact .outside (by simpa [or_imp, forall_and, blank] using blanks)
  | inCeiling isTop blanks =>
    exact .inCeiling isTop (by simpa [or_imp, forall_and, blank] using blanks)
  | inFloor isTop => exact .inFloor isTop

/-- What the first pass held back adds to what the second one holds back. -/
theorem Agree.scan_held (agree : Agree stack first second joint) (rest : List Char) :
    ∃ later, later.getD [] = joint.getD [] ∧ later.isNone = second.isNone ∧
      scan [ceiling] emptyText second (first.getD [] ++ rest) =
        scan [ceiling] emptyText later rest := by
  have passed (state : Option (List Char)) {held : List Char}
      (blanks : ∀ blank ∈ held, isBlank blank = true) :
      scan [ceiling] emptyText state (held ++ rest) =
        scan [ceiling] emptyText (state.map (· ++ held)) rest :=
    scan_blanks (fun blank member => proper_ceiling.isPlain_of_blank (blanks blank member)) blanks
      state rest
  cases agree with
  | outside blanks => exact ⟨_, rfl, rfl, passed (some []) blanks⟩
  | inCeiling _ blanks => exact ⟨_, rfl, rfl, passed none blanks⟩
  | inFloor => exact ⟨some [], rfl, rfl, rfl⟩

/-- Two passes, one after the other, are one scan for both fences. -/
theorem scan_scan (closed : closesAll stack text = true) (agree : Agree stack first second joint) :
    scan [ceiling] emptyText second (scan [floor] emptyText first text) =
      scan rounding emptyText joint text := by
  induction text generalizing stack first second joint with
  | nil =>
    obtain ⟨later, sameHeld, -, passed⟩ := agree.scan_held []
    rw [List.append_nil] at passed
    simp only [scan, passed, sameHeld]
  | cons character rest inductionHypothesis =>
    have nothingHeld {stack : List Fence} : Agree stack (some []) (some []) (some []) :=
      .outside (by simp)
    rcases rounding_cases character with ⟨fence, isFence, isGlyph⟩ | plain
    · have isEither : fence = floor ∨ fence = ceiling := by simpa [rounding] using isFence
      rcases isEither with rfl | rfl <;> rcases isGlyph with rfl | rfl
      -- Of a floor the second pass sees only the call, which has no glyph in it.
      · rw [closesAll_opening isFence] at closed
        obtain ⟨later, sameHeld, -, passed⟩ :=
          agree.scan_held (floor.name.toList ++ '(' :: scan [floor] emptyText none rest)
        rw [scan_opening opened?_opening, List.append_assoc, passed,
          scan_start (plain_start_other ceiling_mem_rounding floor_mem_rounding), sameHeld,
          inductionHypothesis closed (.inFloor rfl), scan_opening (opened?_rounding isFence)]
      · obtain ⟨outer, rfl, closedLater⟩ := (closesAll_closing_iff isFence).mp closed
        obtain ⟨notOpening, -, closing⟩ := closed?_rounding isFence
        rw [scan_closing proper_floor.opened?_closing isClosing_closing,
          scan_closing notOpening closing, ← inductionHypothesis closedLater nothingHeld]
        have solidEnd : isPlain [ceiling] ')' = true ∧ isBlank ')' = false := ⟨rfl, by decide⟩
        cases agree with
        | outside => exact scan_solid solidEnd.1 solidEnd.2 (some []) _
        | inCeiling isTop => exact absurd (List.cons.inj isTop).1 (by decide)
        | inFloor => exact scan_text (by simp [ceiling]) solidEnd.1 solidEnd.2 [] _
      -- The glyphs of a ceiling are passed on by the first pass, after the blanks it held back.
      · rw [closesAll_opening isFence] at closed
        obtain ⟨later, sameHeld, -, passed⟩ :=
          agree.scan_held (ceiling.opening :: scan [floor] emptyText (some []) rest)
        rw [scan_solid (isPlain_other floor_mem_rounding isFence (by decide)).1 proper_ceiling.solid.1,
          passed, scan_opening opened?_opening, sameHeld,
          inductionHypothesis closed (.inCeiling rfl (by simp)), scan_opening (opened?_rounding isFence)]
      · obtain ⟨outer, rfl, closedLater⟩ := (closesAll_closing_iff isFence).mp closed
        obtain ⟨notOpening, -, closing⟩ := closed?_rounding isFence
        obtain ⟨later, -, sameNone, passed⟩ :=
          agree.scan_held (ceiling.closing :: scan [floor] emptyText (some []) rest)
        rw [scan_solid (isPlain_other floor_mem_rounding isFence (by decide)).2 proper_ceiling.solid.2,
          passed, scan_closing proper_ceiling.opened?_closing isClosing_closing,
          inductionHypothesis closedLater nothingHeld, scan_closing notOpening closing, sameNone]
        cases agree with
        | outside => rfl
        | inCeiling => rfl
        | inFloor isTop => exact absurd (List.cons.inj isTop).1 (by decide)
    · rw [closesAll_plain plain] at closed
      have floorPlain := isPlain_rounding_iff.mp plain floor floor_mem_rounding
      have ceilingPlain := isPlain_rounding_iff.mp plain ceiling ceiling_mem_rounding
      cases blank : isBlank character with
      | true =>
        rw [scan_blank floorPlain blank, scan_blank plain blank]
        exact inductionHypothesis closed (agree.blank blank)
      | false =>
        obtain ⟨later, sameHeld, -, passed⟩ :=
          agree.scan_held (character :: scan [floor] emptyText (some []) rest)
        rw [scan_solid floorPlain blank, passed, scan_solid ceilingPlain blank, sameHeld,
          inductionHypothesis closed nothingHeld, scan_solid plain blank]

end Agreement

/-- What the first pass writes on its own account: no ceiling, and no start of a call for one. -/
def Added (text : List Char) : Prop :=
  ∀ letter ∈ text, isPlain [ceiling] letter = true ∧ letter ≠ 'c'

theorem added_blanks {blanks : List Char} (areBlank : ∀ blank ∈ blanks, isBlank blank = true) :
    Added blanks := by
  refine fun blank member => ⟨proper_ceiling.isPlain_of_blank (areBlank blank member), ?_⟩
  rintro rfl
  exact absurd (areBlank 'c' member) (by decide)

theorem Added.append {first second : List Char} (firstAdded : Added first)
    (secondAdded : Added second) : Added (first ++ second) :=
  List.forall_mem_append.mpr ⟨firstAdded, secondAdded⟩

/-- What the first pass does with a character: what it writes instead of it holds nothing of a
ceiling, or the character is kept. -/
theorem scan_floor_step {held : Option (List Char)}
    (blanks : ∀ blank ∈ held.getD [], isBlank blank = true) (character : Char) (rest : List Char) :
    (isPlain [ceiling] character = true ∧ ∃ before later, Added before ∧
      (∀ blank ∈ Option.getD later [], isBlank blank = true) ∧
      scan [floor] emptyText held (character :: rest) = before ++ scan [floor] emptyText later rest) ∨
    scan [floor] emptyText held (character :: rest) =
      held.getD [] ++ character :: scan [floor] emptyText (some []) rest := by
  rcases glyph_cases floor character with rfl | rfl | ⟨plain, blank⟩ | ⟨plain, solid⟩
  · have start : Added (floor.name.toList ++ ['(']) := by simp [Added, floor, ceiling]
    refine .inl ⟨rfl, _, none, (added_blanks blanks).append start, by simp, ?_⟩
    rw [scan_opening opened?_opening]
    simp
  · have ending : Added ((if held.isNone then emptyText else []) ++ [')']) := by
      split <;> simp [Added, ceiling]
    refine .inl ⟨rfl, _, some [], ending, by simp, ?_⟩
    rw [scan_closing proper_floor.opened?_closing isClosing_closing]
    simp
  · refine .inl ⟨proper_ceiling.isPlain_of_blank blank, [], held.map (· ++ [character]),
      by simp [Added], ?_, scan_blank plain blank held rest⟩
    cases held with
    | none => simp
    | some held => simpa [or_imp, forall_and, blank] using blanks
  · exact .inr (scan_solid plain solid held rest)

/-- The first pass leaves ceilings where they are. -/
theorem depthAfter?_scan_floor {held : Option (List Char)}
    (blanks : ∀ blank ∈ held.getD [], isBlank blank = true) (depth : Nat) :
    depthAfter? (· == ceiling.opening) (· == ceiling.closing) depth
        (scan [floor] emptyText held text) =
      depthAfter? (· == ceiling.opening) (· == ceiling.closing) depth text := by
  have passed {before : List Char} (added : Added before) (depth : Nat) (rest : List Char) :
      depthAfter? (· == ceiling.opening) (· == ceiling.closing) depth (before ++ rest) =
        depthAfter? (· == ceiling.opening) (· == ceiling.closing) depth rest :=
    (nested_of_plain fun letter member => (added letter member).1).depthAfter?_append depth rest
  induction text generalizing held depth with
  | nil => simpa [scan] using passed (added_blanks blanks) depth []
  | cons character rest inductionHypothesis =>
    rcases scan_floor_step blanks character rest with
      ⟨plain, before, later, added, laterBlanks, step⟩ | step
    · rw [step, passed added, inductionHypothesis laterBlanks, depthAfter?_plain plain]
    · have here (rest : List Char) :
          depthAfter? (· == ceiling.opening) (· == ceiling.closing) depth (character :: rest) =
            (depthAfter? (· == ceiling.opening) (· == ceiling.closing) depth [character]).bind
              fun reached =>
                depthAfter? (· == ceiling.opening) (· == ceiling.closing) reached rest :=
        depthAfter?_append depth [character] rest
      have unchanged (reached : Nat) :
          depthAfter? (· == ceiling.opening) (· == ceiling.closing) reached
              (scan [floor] emptyText (some []) rest) =
            depthAfter? (· == ceiling.opening) (· == ceiling.closing) reached rest :=
        inductionHypothesis (by simp) reached
      rw [step, passed (added_blanks blanks), here, here rest]
      simp only [unchanged]

/-- A word does not start in what the first pass adds. -/
theorem Added.infix_of_append {before word rest : List Char} (added : Added before)
    (found : 'c' :: word <:+: before ++ rest) : 'c' :: word <:+: rest := by
  induction before with
  | nil => exact found
  | cons letter before inductionHypothesis =>
    obtain ⟨⟨-, notFirst⟩, othersAdded⟩ := List.forall_mem_cons.mp added
    rcases List.infix_cons_iff.mp found with starts | inside
    · exact absurd (List.cons_prefix_cons.mp starts).1.symm notFirst
    · exact inductionHypothesis othersAdded inside

/-- The first pass writes no start of a call for a ceiling. -/
theorem not_infix_scan_floor {held : Option (List Char)}
    (blanks : ∀ blank ∈ held.getD [], isBlank blank = true)
    (noCall : ¬ ceiling.name.toList ++ ['('] <:+: text) :
    ¬ ceiling.name.toList ++ ['('] <:+: scan [floor] emptyText held text := by
  have start : ceiling.name.toList ++ ['('] = 'c' :: ['e', 'i', 'l', '('] := rfl
  rw [start] at noCall ⊢
  induction text generalizing held with
  | nil =>
    intro found
    have atEnd : 'c' :: ['e', 'i', 'l', '('] <:+: held.getD [] ++ [] := by simpa [scan] using found
    simpa using (added_blanks blanks).infix_of_append atEnd
  | cons character rest inductionHypothesis =>
    have noCallLater : ¬ 'c' :: ['e', 'i', 'l', '('] <:+: rest :=
      fun later => noCall (later.trans (List.suffix_cons character rest).isInfix)
    intro found
    rcases scan_floor_step blanks character rest with
      ⟨-, before, later, added, laterBlanks, step⟩ | step
    · rw [step] at found
      exact inductionHypothesis laterBlanks noCallLater (added.infix_of_append found)
    · rw [step] at found
      rcases List.infix_cons_iff.mp ((added_blanks blanks).infix_of_append found) with starts | inside
      · obtain ⟨rfl, wordStarts⟩ := List.cons_prefix_cons.mp starts
        have word : ['e', 'i', 'l', '('] <+: rest :=
          proper_floor.prefix_of_prefix_scan floor_name
            (by simp [isBlank, Text.blanks, CodePointSet.contains]) wordStarts
        exact noCall (List.cons_prefix_cons.mpr ⟨rfl, word⟩).isInfix
      · exact inductionHypothesis (by simp) noCallLater inside

theorem closesAll_tail {character : Char} {rest : List Char}
    (closed : closesAll stack (character :: rest) = true) : ∃ later, closesAll later rest = true := by
  rcases rounding_cases character with ⟨fence, isFence, rfl | rfl⟩ | plain
  · exact ⟨_, (closesAll_opening isFence).symm.trans closed⟩
  · obtain ⟨outer, -, closedLater⟩ := (closesAll_closing_iff isFence).mp closed
    exact ⟨outer, closedLater⟩
  · exact ⟨stack, (closesAll_plain plain).symm.trans closed⟩

/-- A pair of ceilings does not end with the closing glyph of a floor. -/
theorem head?_ne_of_closesAll (closed : closesAll (ceiling :: stack) text = true) :
    (text.dropWhile isBlank).head? ≠ some floor.closing := by
  induction text with
  | nil => simp
  | cons character rest inductionHypothesis =>
    cases blank : isBlank character with
    | true =>
      have plain : isPlain rounding character = true :=
        isPlain_rounding_iff.mpr fun fence isFence => (Proper.of_mem isFence).isPlain_of_blank blank
      rw [closesAll_plain plain] at closed
      rw [List.dropWhile_cons_of_pos blank]
      exact inductionHypothesis closed
    | false =>
      rw [List.dropWhile_cons_of_neg (by simp [blank])]
      intro same
      obtain rfl : character = floor.closing := Option.some.inj same
      obtain ⟨outer, sameStack, -⟩ := (closesAll_closing_iff floor_mem_rounding).mp closed
      exact absurd (List.cons.inj sameStack).1 (by decide)

/-- The first pass writes a parenthesis only where one was or where a floor ended. -/
theorem head?_of_head?_scan_floor (blanks : ∀ blank ∈ held, isBlank blank = true)
    (starts : ((scan [floor] emptyText (some held) text).dropWhile isBlank).head? = some ')') :
    (text.dropWhile isBlank).head? = some ')' ∨
      (text.dropWhile isBlank).head? = some floor.closing := by
  have dropped (rest : List Char) : (held ++ rest).dropWhile isBlank = rest.dropWhile isBlank :=
    List.dropWhile_append_of_pos blanks
  induction text generalizing held with
  | nil =>
    have gone : held.dropWhile isBlank = [] := by simpa using dropped []
    simp [scan, gone] at starts
  | cons character rest inductionHypothesis =>
    rcases glyph_cases floor character with rfl | rfl | ⟨plain, blank⟩ | ⟨plain, solid⟩
    · rw [scan_opening opened?_opening, Option.getD_some, List.append_assoc, dropped, floor_name,
        List.cons_append, List.dropWhile_cons_of_neg (by decide)] at starts
      exact absurd (Option.some.inj starts) (by decide)
    · rw [List.dropWhile_cons_of_neg (by simp [proper_floor.solid.2])]
      exact .inr rfl
    · rw [scan_blank plain blank, Option.map_some] at starts
      rw [List.dropWhile_cons_of_pos blank]
      have longer : ∀ other ∈ held ++ [character], isBlank other = true := by
        simpa [or_imp, forall_and, blank] using blanks
      exact inductionHypothesis longer starts fun rest => List.dropWhile_append_of_pos longer
    · rw [scan_solid plain solid, Option.getD_some, dropped,
        List.dropWhile_cons_of_neg (by simp [solid])] at starts
      rw [List.dropWhile_cons_of_neg (by simp [solid])]
      exact .inl starts

theorem opensOnParenthesis_append {before rest : List Char} (added : Added before) :
    opensOnParenthesis [ceiling] (before ++ rest) = opensOnParenthesis [ceiling] rest := by
  induction before with
  | nil => rfl
  | cons letter before inductionHypothesis =>
    obtain ⟨⟨plain, -⟩, othersAdded⟩ := List.forall_mem_cons.mp added
    have notOpening : opened? [ceiling] letter = none := by
      simp [opened?, (isPlain_singleton_iff.mp plain).1.symm]
    rw [List.cons_append, opensOnParenthesis, notOpening, inductionHypothesis othersAdded]
    rfl

/-- After the first pass there is no parenthesis right after the start of a ceiling. -/
theorem opensOnParenthesis_scan_floor {held : Option (List Char)}
    (blanks : ∀ blank ∈ held.getD [], isBlank blank = true) (closed : closesAll stack text = true)
    (noParenthesis : opensOnParenthesis rounding text = false) :
    opensOnParenthesis [ceiling] (scan [floor] emptyText held text) = false := by
  induction text generalizing stack held with
  | nil =>
    have skipped : opensOnParenthesis [ceiling] (held.getD [] ++ []) = false :=
      opensOnParenthesis_append (added_blanks blanks)
    simpa [scan] using skipped
  | cons character rest inductionHypothesis =>
    rw [opensOnParenthesis, Bool.or_eq_false_iff] at noParenthesis
    obtain ⟨later, closedLater⟩ := closesAll_tail closed
    rcases scan_floor_step blanks character rest with
      ⟨-, before, later, added, laterBlanks, step⟩ | step
    · rw [step, opensOnParenthesis_append added]
      exact inductionHypothesis laterBlanks closedLater noParenthesis.2
    · rw [step, opensOnParenthesis_append (added_blanks blanks), opensOnParenthesis,
        Bool.or_eq_false_iff]
      refine ⟨?_, inductionHypothesis (by simp) closedLater noParenthesis.2⟩
      by_cases opening : character = ceiling.opening
      · rw [opening, closesAll_opening ceiling_mem_rounding] at closed
        rw [opening, opened?_rounding ceiling_mem_rounding] at noParenthesis
        have notHere : (rest.dropWhile isBlank).head? ≠ some ')' := by simpa using noParenthesis.1
        have notAfter :
            ((scan [floor] emptyText (some []) rest).dropWhile isBlank).head? ≠ some ')' :=
          fun starts => (head?_of_head?_scan_floor (by simp) starts).elim notHere
            (head?_ne_of_closesAll closed)
        simpa using fun _ => notAfter
      · simp [opened?, Ne.symm opening]

theorem opensOnParenthesis_of_mem {fence : Fence} (isFence : fence ∈ rounding)
    (noParenthesis : opensOnParenthesis rounding text = false) :
    opensOnParenthesis [fence] text = false := by
  induction text with
  | nil => rfl
  | cons character rest inductionHypothesis =>
    rw [opensOnParenthesis, Bool.or_eq_false_iff] at noParenthesis ⊢
    refine ⟨?_, inductionHypothesis noParenthesis.2⟩
    by_cases opening : character = fence.opening
    · rw [opening, opened?_rounding isFence] at noParenthesis
      rw [opening, opened?_opening]
      exact noParenthesis.1
    · simp [opened?, Ne.symm opening]

/-- Both passes together are one scan. -/
theorem toList_apply_apply {text : String} (nested : JointlyNested text.toList)
    (noFloor : ¬ floor.name.toList ++ ['('] <:+: text.toList)
    (noCeiling : ¬ ceiling.name.toList ++ ['('] <:+: text.toList)
    (noParenthesis : opensOnParenthesis rounding text.toList = false) :
    (ceiling.apply (floor.apply text)).toList = scan rounding emptyText (some []) text.toList := by
  have floors : (floor.apply text).toList = scan [floor] emptyText (some []) text.toList :=
    proper_floor.toList_apply (depthAfter?_of_closesAll floor_mem_rounding nested) noFloor
      (opensOnParenthesis_of_mem floor_mem_rounding noParenthesis)
  have ceilingsNested : ceiling.Nested (scan [floor] emptyText (some []) text.toList) :=
    (depthAfter?_scan_floor (by simp) 0).trans (depthAfter?_of_closesAll ceiling_mem_rounding nested)
  rw [proper_ceiling.toList_apply, floors, scan_scan nested (.outside (by simp))]
  · rw [floors]
    exact ceilingsNested
  · rw [floors]
    exact not_infix_scan_floor (by simp) noCeiling
  · rw [floors]
    exact opensOnParenthesis_scan_floor (by simp) nested noParenthesis

end Passes

section Recursion

variable {stack : List Fence} {text result : List Char}

theorem plain_argument {inner : List Char} (plain : ∀ letter ∈ inner, isPlain rounding letter = true) :
    ∀ letter ∈ argument inner, isPlain rounding letter = true := by
  rw [argument]
  split
  · exact List.forall_mem_cons.mpr ⟨rfl, List.forall_mem_singleton.mpr rfl⟩
  · exact fun letter member => plain letter (mem_of_mem_trim member)

/-- No glyph is left. -/
theorem Rewritten.plain_result (rewritten : Rewritten text result) :
    ∀ character ∈ result, isPlain rounding character = true := by
  induction rewritten with
  | nil => simp
  | plain noGlyph _ inductionHypothesis =>
    exact List.forall_mem_cons.mpr ⟨noGlyph, inductionHypothesis⟩
  | pair isFence _ _ innerPlain othersPlain =>
    have start := fun letter member => (plain_start isFence letter member).1
    simp only [List.forall_mem_append, List.forall_mem_cons] at start ⊢
    exact ⟨⟨start.1, start.2.1, plain_argument innerPlain⟩, rfl, othersPlain⟩

/-- A text is scanned like what it is rewritten to, whatever follows. -/
theorem Rewritten.scan_append (rewritten : Rewritten text result) (held : Option (List Char))
    (rest : List Char) :
    scan rounding emptyText held (text ++ rest) = scan rounding emptyText held (result ++ rest) := by
  induction rewritten generalizing held rest with
  | nil => rfl
  | plain _ _ inductionHypothesis =>
    exact scan_append_congr (fun held => inductionHypothesis held rest) [_] held
  | @pair fence inner innerResult text result isFence inside _ innerScan othersScan =>
    obtain ⟨notOpening, -, closing⟩ := closed?_rounding isFence
    simp only [List.append_assoc, List.cons_append]
    rw [scan_opening (opened?_rounding isFence), innerScan,
      scan_between inside.plain_result notOpening closing, othersScan,
      scan_start (plain_start isFence), scan_text (plain_argument inside.plain_result) rfl (by decide)]
    rfl

theorem Rewritten.eq_scan (rewritten : Rewritten text result) :
    result = scan rounding emptyText (some []) text := by
  have same := rewritten.scan_append (some []) []
  rw [List.append_nil, List.append_nil, scan_plain rewritten.plain_result] at same
  exact same.symm

/-- A text with open pairs can be rewritten up to where the last of them is closed. -/
theorem exists_rewritten_before (closed : closesAll stack text = true) :
    ∃ inner result rest, text = inner ++ rest ∧ Rewritten inner result ∧
      (stack = [] ∧ rest = [] ∨ ∃ fence outer after, stack = fence :: outer ∧
        rest = fence.closing :: after ∧ closesAll outer after = true) := by
  induction measured : text.length using Nat.strong_induction_on generalizing text stack with
  | _ length inductionHypothesis =>
    cases text with
    | nil => exact ⟨[], [], [], rfl, .nil, .inl ⟨List.isEmpty_iff.mp closed, rfl⟩⟩
    | cons character rest =>
      rcases rounding_cases character with ⟨fence, isFence, rfl | rfl⟩ | plain
      · rw [closesAll_opening isFence] at closed
        obtain ⟨inner, innerResult, others, rfl, inside, ends⟩ :=
          inductionHypothesis rest.length (by simp [← measured]) closed rfl
        obtain ⟨impossible, -⟩ | ⟨_, _, after, same, rfl, closedAfter⟩ := ends
        · cases impossible
        obtain ⟨rfl, rfl⟩ := List.cons.inj same
        obtain ⟨second, secondResult, others, rfl, rewritten, ends⟩ :=
          inductionHypothesis after.length (by simp [← measured]; omega) closedAfter rfl
        exact ⟨_, _, others, by simp, .pair isFence inside rewritten, ends⟩
      · obtain ⟨outer, rfl, closedLater⟩ := (closesAll_closing_iff isFence).mp closed
        exact ⟨[], [], _, rfl, .nil, .inr ⟨fence, outer, rest, rfl, rfl, closedLater⟩⟩
      · rw [closesAll_plain plain] at closed
        obtain ⟨inner, result, others, rfl, rewritten, ends⟩ :=
          inductionHypothesis rest.length (by simp [← measured]) closed rfl
        exact ⟨_, _, others, rfl, .plain plain rewritten, ends⟩

theorem JointlyNested.exists_rewritten (nested : JointlyNested text) :
    ∃ result, Rewritten text result := by
  obtain ⟨inner, result, rest, split, rewritten, ⟨-, rfl⟩ | ⟨_, _, _, impossible, _⟩⟩ :=
    exists_rewritten_before nested
  · rw [List.append_nil] at split
    exact ⟨result, split ▸ rewritten⟩
  · cases impossible

end Recursion

/-- If the pairs of both fences are nested in each other and nothing in the text looks like a
call for one of them, the rounds for floors and then those for ceilings come to an end, and
what they leave is the recursive rewriting of the text, with no glyph in it. -/
theorem rounding_calls (text : String) (nested : JointlyNested text.toList)
    (noFloor : ¬ floor.name.toList ++ ['('] <:+: text.toList)
    (noCeiling : ¬ ceiling.name.toList ++ ['('] <:+: text.toList)
    (noParenthesis : opensOnParenthesis rounding text.toList = false) :
    floor.Rounds text.toList (floor.replacePairs text.toList) ∧
      ceiling.Rounds (floor.apply text).toList (ceiling.replacePairs (floor.apply text).toList) ∧
      (∀ result, Rewritten text.toList result ↔ result = (ceiling.apply (floor.apply text)).toList) ∧
      ∀ character ∈ (ceiling.apply (floor.apply text)).toList, isPlain rounding character = true := by
  obtain ⟨result, rewritten⟩ := nested.exists_rewritten
  have written : result = (ceiling.apply (floor.apply text)).toList :=
    rewritten.eq_scan.trans (toList_apply_apply nested noFloor noCeiling noParenthesis).symm
  refine ⟨proper_floor.rounds_replacePairs _, proper_ceiling.rounds_replacePairs _, ?_⟩
  rw [← written]
  refine ⟨fun other => ⟨fun otherRewritten => ?_, fun same => ?_⟩, rewritten.plain_result⟩
  · exact otherRewritten.eq_scan.trans rewritten.eq_scan.symm
  · rw [same]
    exact rewritten

/-- Blanks go away at every depth, and a pair around blanks holds an empty text. -/
theorem rounding_calls_mixed :
    JointlyNested "⌊ ⌈ x⌊y⌋ ⌉ ⌋⌈ ⌉".toList ∧
      ¬ floor.name.toList ++ ['('] <:+: "⌊ ⌈ x⌊y⌋ ⌉ ⌋⌈ ⌉".toList ∧
      ¬ ceiling.name.toList ++ ['('] <:+: "⌊ ⌈ x⌊y⌋ ⌉ ⌋⌈ ⌉".toList ∧
      opensOnParenthesis rounding "⌊ ⌈ x⌊y⌋ ⌉ ⌋⌈ ⌉".toList = false ∧
      Rewritten "⌊ ⌈ x⌊y⌋ ⌉ ⌋⌈ ⌉".toList "floor(ceil(xfloor(y)))ceil(\"\")".toList := by
  have nested : JointlyNested "⌊ ⌈ x⌊y⌋ ⌉ ⌋⌈ ⌉".toList := by
    unfold JointlyNested
    cbv
  have noFloor : ¬ floor.name.toList ++ ['('] <:+: "⌊ ⌈ x⌊y⌋ ⌉ ⌋⌈ ⌉".toList := by decide
  have noCeiling : ¬ ceiling.name.toList ++ ['('] <:+: "⌊ ⌈ x⌊y⌋ ⌉ ⌋⌈ ⌉".toList := by decide
  have noParenthesis : opensOnParenthesis rounding "⌊ ⌈ x⌊y⌋ ⌉ ⌋⌈ ⌉".toList = false := by cbv
  have output : "floor(ceil(xfloor(y)))ceil(\"\")".toList =
      (ceiling.apply (floor.apply "⌊ ⌈ x⌊y⌋ ⌉ ⌋⌈ ⌉")).toList := by cbv
  obtain ⟨-, -, written, -⟩ := rounding_calls _ nested noFloor noCeiling noParenthesis
  exact ⟨nested, noFloor, noCeiling, noParenthesis, (written _).mpr output⟩

end MathMarkup.Typst.Fence
