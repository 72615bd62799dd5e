import Mathlib
import MathMarkup.Proofs.Matching
import MathMarkup.Typst.Fence

/-!
# One scan for all rounds

A fence is replaced in rounds, the innermost pairs first, and calls without an argument
are filled in afterwards. `scan` does all of it in one go, from left to right: an opening
glyph becomes the start of a call and takes the blanks after it away, a closing glyph
becomes the end of a call and takes the blanks before it away. Both give the same text.
-/

namespace MathMarkup.Text

/-- Blanks are taken off an end only up to a solid character. -/
theorem rdropWhile_append_solid {solid : Char} (isSolid : isBlank solid = false)
    (before after : List Char) :
    (before ++ solid :: after).rdropWhile isBlank = before ++ solid :: after.rdropWhile isBlank := by
  simp only [List.rdropWhile, List.reverse_append, List.reverse_cons, List.append_assoc,
    List.dropWhile_append, List.singleton_append]
  split
  · rename_i allBlank
    simp [List.isEmpty_iff.mp allBlank, isSolid]
  · simp

theorem trim_cons_blank {blank : Char} (isBlank : isBlank blank = true) (text : List Char) :
    trim (blank :: text) = trim text := by
  rw [trim, List.dropWhile_cons_of_pos isBlank]
  rfl

theorem trim_cons_solid {solid : Char} (isSolid : isBlank solid = false) (text : List Char) :
    trim (solid :: text) = solid :: text.rdropWhile isBlank := by
  rw [trim, List.dropWhile_cons_of_neg (by simp [isSolid])]
  exact rdropWhile_append_solid isSolid [] text

/-- Nothing is added by trimming. -/
theorem mem_of_mem_trim {character : Char} {text : List Char} (member : character ∈ trim text) :
    character ∈ text := by
  have inStart := (List.rdropWhile_prefix isBlank _).subset member
  exact (List.dropWhile_sublist isBlank).subset inStart

section Replacement

variable {old new : List Char}

theorem replaceFrom_eq_drop (passing : Nat) (text : List Char) :
    replaceFrom old new passing text = replaceAll old new (text.drop passing) := by
  induction passing generalizing text with
  | zero => rfl
  | succ passing inductionHypothesis =>
    cases text with
    | nil => rfl
    | cons character rest => exact inductionHypothesis rest

theorem replaceAll_cons_of_absent {character : Char} {rest : List Char}
    (absent : ¬ old <+: character :: rest) :
    replaceAll old new (character :: rest) = character :: replaceAll old new rest := by
  rw [replaceAll, replaceFrom, if_neg (by simpa using absent)]
  rfl

theorem replaceAll_append_self (nonempty : old ≠ []) (rest : List Char) :
    replaceAll old new (old ++ rest) = new ++ replaceAll old new rest := by
  obtain ⟨first, others, rfl⟩ := List.exists_cons_of_ne_nil nonempty
  rw [replaceAll, List.cons_append, replaceFrom, if_pos (by simp), replaceFrom_eq_drop]
  simp

/-- Nothing is replaced where no character starts an occurrence. -/
theorem replaceAll_append {first : Char} {others : List Char} (starts : old = first :: others)
    {before : List Char} (absent : first ∉ before) (rest : List Char) :
    replaceAll old new (before ++ rest) = before ++ replaceAll old new rest := by
  induction before with
  | nil => rfl
  | cons character before inductionHypothesis =>
    rw [List.mem_cons, not_or] at absent
    have notHere : ¬ old <+: character :: (before ++ rest) := by
      rw [starts, List.cons_prefix_cons]
      exact fun found => absent.1 found.1
    rw [List.cons_append, replaceAll_cons_of_absent notHere, inductionHypothesis absent.2]
    rfl

end Replacement

end MathMarkup.Text

namespace MathMarkup.Typst.Fence

open Text Nesting

section Scan

/-- The fence that the character opens. -/
def opened? (fences : List Fence) (character : Char) : Option Fence :=
  fences.find? (·.opening == character)

/-- The character closes one of the fences. -/
def isClosing (fences : List Fence) (character : Char) : Bool :=
  fences.any (·.closing == character)

/-- The character is no glyph of the fences. -/
def isPlain (fences : List Fence) (character : Char) : Bool :=
  (opened? fences character).isNone && !isClosing fences character

/-- Writes calls for the glyphs of the fences. Blanks are held back until it is known that
no closing glyph follows them, and dropped right after an opening glyph, where nothing is
held. A call without an argument gets the filler. -/
def scan (fences : List Fence) (filler : List Char) : Option (List Char) → List Char → List Char
  | held, [] => held.getD []
  | held, character :: rest =>
    match opened? fences character with
    | some fence => held.getD [] ++ fence.name.toList ++ '(' :: scan fences filler none rest
    | none =>
      if isClosing fences character then
        (if held.isNone then filler else []) ++ ')' :: scan fences filler (some []) rest
      else if isBlank character then scan fences filler (held.map (· ++ [character])) rest
      else held.getD [] ++ character :: scan fences filler (some []) rest

variable {fences : List Fence} {filler : List Char} {character : Char}

theorem scan_opening {fence : Fence} (opens : opened? fences character = some fence)
    (held : Option (List Char)) (rest : List Char) :
    scan fences filler held (character :: rest) =
      held.getD [] ++ fence.name.toList ++ '(' :: scan fences filler none rest := by
  rw [scan, opens]

theorem scan_closing (notOpening : opened? fences character = none)
    (closing : isClosing fences character = true) (held : Option (List Char)) (rest : List Char) :
    scan fences filler held (character :: rest) =
      (if held.isNone then filler else []) ++ ')' :: scan fences filler (some []) rest := by
  rw [scan, notOpening]
  simp only
  rw [if_pos closing]

theorem scan_blank (plain : isPlain fences character = true) (blank : isBlank character = true)
    (held : Option (List Char)) (rest : List Char) :
    scan fences filler held (character :: rest) =
      scan fences filler (held.map (· ++ [character])) rest := by
  simp only [isPlain, Bool.and_eq_true, Option.isNone_iff_eq_none, Bool.not_eq_true'] at plain
  rw [scan, plain.1]
  simp only
  rw [if_neg (by simp [plain.2]), if_pos blank]

theorem scan_solid (plain : isPlain fences character = true) (solid : isBlank character = false)
    (held : Option (List Char)) (rest : List Char) :
    scan fences filler held (character :: rest) =
      held.getD [] ++ character :: scan fences filler (some []) rest := by
  simp only [isPlain, Bool.and_eq_true, Option.isNone_iff_eq_none, Bool.not_eq_true'] at plain
  rw [scan, plain.1]
  simp only
  rw [if_neg (by simp [plain.2]), if_neg (by simp [solid])]

/-- What follows the same characters counts only through what the scan makes of it. -/
theorem scan_append_congr {first second : List Char}
    (same : ∀ held, scan fences filler held first = scan fences filler held second)
    (before : List Char) (held : Option (List Char)) :
    scan fences filler held (before ++ first) = scan fences filler held (before ++ second) := by
  induction before generalizing held with
  | nil => exact same held
  | cons character rest inductionHypothesis =>
    simp only [List.cons_append, scan, inductionHypothesis]

/-- A word is written as it is. -/
theorem scan_word {word : List Char} (plain : ∀ letter ∈ word, isPlain fences letter = true)
    (solid : ∀ letter ∈ word, isBlank letter = false) (written : word ≠ [])
    (held : Option (List Char)) (rest : List Char) :
    scan fences filler held (word ++ rest) =
      held.getD [] ++ word ++ scan fences filler (some []) rest := by
  induction word generalizing held with
  | nil => exact absurd rfl written
  | cons letter word inductionHypothesis =>
    rw [List.forall_mem_cons] at plain solid
    rw [List.cons_append, scan_solid plain.1 solid.1]
    cases word with
    | nil => simp
    | cons second others =>
      rw [inductionHypothesis plain.2 solid.2 (by simp)]
      simp

theorem scan_blanks {blanks : List Char} (plain : ∀ blank ∈ blanks, isPlain fences blank = true)
    (areBlank : ∀ blank ∈ blanks, isBlank blank = true) (held : Option (List Char))
    (rest : List Char) :
    scan fences filler held (blanks ++ rest) = scan fences filler (held.map (· ++ blanks)) rest := by
  induction blanks generalizing held with
  | nil => cases held <;> simp
  | cons blank blanks inductionHypothesis =>
    rw [List.forall_mem_cons] at plain areBlank
    rw [List.cons_append, scan_blank plain.1 areBlank.1, inductionHypothesis plain.2 areBlank.2]
    cases held <;> simp

/-- Plain text before a solid character is written as it is. -/
theorem scan_text {text : List Char} (plain : ∀ letter ∈ text, isPlain fences letter = true)
    {solid : Char} (solidPlain : isPlain fences solid = true) (isSolid : isBlank solid = false)
    (held rest : List Char) :
    scan fences filler (some held) (text ++ solid :: rest) =
      held ++ text ++ solid :: scan fences filler (some []) rest := by
  induction text generalizing held with
  | nil => rw [List.nil_append, scan_solid solidPlain isSolid, List.append_nil]; rfl
  | cons letter text inductionHypothesis =>
    rw [List.forall_mem_cons] at plain
    cases blank : isBlank letter with
    | true =>
      rw [List.cons_append, scan_blank plain.1 blank, Option.map_some, inductionHypothesis plain.2]
      simp
    | false =>
      rw [List.cons_append, scan_solid plain.1 blank, inductionHypothesis plain.2]
      simp

/-- Without glyphs a text stays as it is. -/
theorem scan_plain {text : List Char} (plain : ∀ letter ∈ text, isPlain fences letter = true)
    (held : List Char) : scan fences filler (some held) text = held ++ text := by
  induction text generalizing held with
  | nil => simp [scan]
  | cons letter text inductionHypothesis =>
    rw [List.forall_mem_cons] at plain
    cases blank : isBlank letter with
    | true =>
      rw [scan_blank plain.1 blank, Option.map_some, inductionHypothesis plain.2]
      simp
    | false =>
      rw [scan_solid plain.1 blank, inductionHypothesis plain.2]
      simp

/-- The blanks before a closing glyph are dropped. -/
theorem scan_before_closing {text held : List Char}
    (plain : ∀ letter ∈ text, isPlain fences letter = true)
    (blanks : ∀ blank ∈ held, isBlank blank = true) (notOpening : opened? fences character = none)
    (closing : isClosing fences character = true) (rest : List Char) :
    scan fences filler (some held) (text ++ character :: rest) =
      (held ++ text).rdropWhile isBlank ++ ')' :: scan fences filler (some []) rest := by
  induction text generalizing held with
  | nil =>
    have dropped : held.rdropWhile isBlank = [] := List.rdropWhile_eq_nil_iff.mpr blanks
    rw [List.nil_append, scan_closing notOpening closing, List.append_nil, dropped]
    rfl
  | cons letter text inductionHypothesis =>
    rw [List.forall_mem_cons] at plain
    cases blank : isBlank letter with
    | true =>
      rw [List.cons_append, scan_blank plain.1 blank, Option.map_some,
        inductionHypothesis plain.2 (by simpa [or_imp, forall_and, blank] using blanks)]
      simp
    | false =>
      rw [List.cons_append, scan_solid plain.1 blank, inductionHypothesis plain.2 (by simp),
        rdropWhile_append_solid blank]
      simp

/-- What stands between two glyphs is trimmed. -/
theorem scan_between {text : List Char} (plain : ∀ letter ∈ text, isPlain fences letter = true)
    (notOpening : opened? fences character = none) (closing : isClosing fences character = true)
    (rest : List Char) :
    scan fences filler none (text ++ character :: rest) =
      (if trim text = [] then filler else trim text) ++ ')' :: scan fences filler (some []) rest := by
  induction text with
  | nil =>
    rw [List.nil_append, scan_closing notOpening closing]
    rfl
  | cons letter text inductionHypothesis =>
    rw [List.forall_mem_cons] at plain
    cases blank : isBlank letter with
    | true =>
      rw [List.cons_append, scan_blank plain.1 blank, Option.map_none, inductionHypothesis plain.2,
        trim_cons_blank blank]
    | false =>
      rw [List.cons_append, scan_solid plain.1 blank, scan_before_closing plain.2 (by simp) notOpening
        closing, trim_cons_solid blank]
      simp

end Scan

/-- A fence whose glyphs and whose call can be told apart from each other and from blanks. -/
structure Proper (fence : Fence) : Prop where
  distinct : fence.opening ≠ fence.closing
  solid : isBlank fence.opening = false ∧ isBlank fence.closing = false
  signs : ∀ sign ∈ ['(', ')', '"'], sign ≠ fence.opening ∧ sign ≠ fence.closing
  letters : ∀ letter ∈ fence.name.toList,
    isBlank letter = false ∧ letter ≠ fence.opening ∧ letter ≠ fence.closing ∧ letter ∉ ['(', ')', '"']
  named : ∃ first others, fence.name.toList = first :: others ∧ first ∉ others

theorem proper_floor : floor.Proper where
  distinct := by decide
  solid := ⟨rfl, rfl⟩
  signs := by simp [floor]
  letters := by simp [floor, isBlank, blanks, CodePointSet.contains]
  named := ⟨'f', ['l', 'o', 'o', 'r'], rfl, by decide⟩

theorem proper_ceiling : ceiling.Proper where
  distinct := by decide
  solid := ⟨rfl, rfl⟩
  signs := by simp [ceiling]
  letters := by simp [ceiling, isBlank, blanks, CodePointSet.contains]
  named := ⟨'c', ['e', 'i', 'l'], rfl, by decide⟩

section Rounds

variable {fence : Fence}

@[simp]
theorem isPlain_singleton_iff {character : Char} :
    isPlain [fence] character = true ↔ character ≠ fence.opening ∧ character ≠ fence.closing := by
  simp [isPlain, opened?, isClosing, @eq_comm _ character]

@[simp]
theorem opened?_opening : opened? [fence] fence.opening = some fence := by
  simp [opened?]

theorem isClosing_closing : isClosing [fence] fence.closing = true := by
  simp [isClosing]

theorem Proper.opened?_closing (proper : fence.Proper) : opened? [fence] fence.closing = none := by
  simp [opened?, proper.distinct]

/-- What a character can be to the scan for one fence. -/
theorem glyph_cases (fence : Fence) (character : Char) :
    character = fence.opening ∨ character = fence.closing ∨
      (isPlain [fence] character = true ∧ isBlank character = true) ∨
      (isPlain [fence] character = true ∧ isBlank character = false) := by
  by_cases opening : character = fence.opening
  · exact .inl opening
  by_cases closing : character = fence.closing
  · exact .inr (.inl closing)
  have plain : isPlain [fence] character = true := isPlain_singleton_iff.mpr ⟨opening, closing⟩
  cases blank : isBlank character with
  | true => exact .inr (.inr (.inl ⟨plain, rfl⟩))
  | false => exact .inr (.inr (.inr ⟨plain, rfl⟩))

/-- The start of a call is a word. -/
theorem scan_start {fences : List Fence} {filler : List Char}
    (start : ∀ letter ∈ fence.name.toList ++ ['('],
      isPlain fences letter = true ∧ isBlank letter = false)
    (held : Option (List Char)) (rest : List Char) :
    scan fences filler held (fence.name.toList ++ '(' :: rest) =
      held.getD [] ++ fence.name.toList ++ '(' :: scan fences filler (some []) rest := by
  have word : scan fences filler held (fence.name.toList ++ ['('] ++ rest) =
      held.getD [] ++ (fence.name.toList ++ ['(']) ++ scan fences filler (some []) rest :=
    scan_word (fun letter member => (start letter member).1)
      (fun letter member => (start letter member).2) (by simp) held rest
  simpa using word

theorem Proper.plain_start (proper : fence.Proper) :
    ∀ letter ∈ fence.name.toList ++ ['('], isPlain [fence] letter = true ∧ isBlank letter = false := by
  intro letter member
  rcases List.mem_append.mp member with isLetter | isSign
  · have := proper.letters letter isLetter
    simp [this]
  · rw [List.mem_singleton.mp isSign]
    exact ⟨isPlain_singleton_iff.mpr (proper.signs '(' (by simp)), by decide⟩

/-- A pair is scanned like the call in its place. -/
theorem Proper.scan_call (proper : fence.Proper) {inner : List Char}
    (plain : ∀ letter ∈ inner, isPlain [fence] letter = true) (held : Option (List Char))
    (rest : List Char) :
    scan [fence] [] held (fence.call inner ++ rest) =
      scan [fence] [] held (fence.opening :: inner ++ fence.closing :: rest) := by
  have trimmed : ∀ letter ∈ trim inner, isPlain [fence] letter = true :=
    fun letter member => plain letter (mem_of_mem_trim member)
  have closes : isPlain [fence] ')' = true := isPlain_singleton_iff.mpr (proper.signs ')' (by simp))
  simp only [call, List.append_assoc, List.cons_append, List.nil_append]
  rw [scan_opening opened?_opening, scan_between plain proper.opened?_closing isClosing_closing,
    scan_start proper.plain_start, scan_text trimmed closes (by decide)]
  split
  · rename_i empty
    simp [empty]
  · simp

/-- A relation of texts that holds when a pair is replaced by its call, wherever it stands. -/
structure Replaces (fence : Fence) (related : List Char → List Char → Prop) : Prop where
  refl : ∀ text, related text text
  trans : ∀ {first second third}, related first second → related second third → related first third
  append : ∀ before {first second}, related first second → related (before ++ first) (before ++ second)
  pair : ∀ inner, (∀ letter ∈ inner, isPlain [fence] letter = true) → ∀ rest,
    related (fence.call inner ++ rest) (fence.opening :: inner ++ fence.closing :: rest)

/-- Such a relation holds between the text after a round and the text before it. -/
theorem Replaces.replaceInnermost {related : List Char → List Char → Prop}
    (replaces : fence.Replaces related) (text : List Char) :
    related (fence.replaceInnermost none text) text ∧
      ∀ inner, (∀ letter ∈ inner, isPlain [fence] letter = true) →
        related (fence.replaceInnermost (some inner) text) (fence.opening :: inner.reverse ++ text) := by
  induction text with
  | nil =>
    refine ⟨replaces.refl [], fun inner _ => ?_⟩
    rw [Fence.replaceInnermost, List.append_nil]
    exact replaces.refl _
  | cons character rest inductionHypothesis =>
    obtain ⟨outside, inside⟩ := inductionHypothesis
    refine ⟨?_, fun inner plain => ?_⟩
    · rw [Fence.replaceInnermost]
      split
      · rename_i opening
        rw [opening]
        exact inside [] (by simp)
      · exact replaces.append [character] outside
    · rw [Fence.replaceInnermost]
      split
      · rename_i closing
        rw [closing]
        exact replaces.trans (replaces.append _ outside) (replaces.pair _ (by simpa using plain) rest)
      · rename_i notClosing
        split
        · rename_i opening
          rw [opening]
          exact replaces.append _ (inside [] (by simp))
        · rename_i notOpening
          have isPlain : isPlain [fence] character = true :=
            isPlain_singleton_iff.mpr ⟨notOpening, notClosing⟩
          have longer := inside (character :: inner) (List.forall_mem_cons.mpr ⟨isPlain, plain⟩)
          simpa using longer

/-- A round changes nothing for the scan. -/
theorem Proper.scan_replaceInnermost (proper : fence.Proper) (text : List Char)
    (held : Option (List Char)) :
    scan [fence] [] held (fence.replaceInnermost none text) = scan [fence] [] held text := by
  have replaces : fence.Replaces fun first second =>
      ∀ held, scan [fence] [] held first = scan [fence] [] held second :=
    { refl := fun _ _ => rfl
      trans := fun first second held => (first held).trans (second held)
      append := fun before _ _ same held => scan_append_congr same before held
      pair := fun _ plain rest held => proper.scan_call plain held rest }
  exact (replaces.replaceInnermost text).1 held

/-- The glyphs of the fence come in nested pairs. -/
def Nested (fence : Fence) (text : List Char) : Prop :=
  Balanced (· == fence.opening) (· == fence.closing) text

theorem nested_of_plain {text : List Char} (plain : ∀ letter ∈ text, isPlain [fence] letter = true) :
    fence.Nested text :=
  .ofNeutral fun letter member => by
    simpa using isPlain_singleton_iff.mp (plain letter member)

theorem Proper.plain_call (proper : fence.Proper) {inner : List Char}
    (plain : ∀ letter ∈ inner, isPlain [fence] letter = true) :
    ∀ letter ∈ fence.call inner, isPlain [fence] letter = true := by
  intro letter member
  simp only [call, List.mem_append, List.mem_cons, List.not_mem_nil, or_false] at member
  rcases member with (isLetter | rfl | isInner) | rfl
  · obtain ⟨-, notOpening, notClosing, -⟩ := proper.letters letter isLetter
    exact isPlain_singleton_iff.mpr ⟨notOpening, notClosing⟩
  · exact isPlain_singleton_iff.mpr (proper.signs '(' (by simp))
  · exact plain letter (mem_of_mem_trim isInner)
  · exact isPlain_singleton_iff.mpr (proper.signs ')' (by simp))

/-- A round keeps the glyphs nested. -/
theorem Proper.nested_replaceInnermost (proper : fence.Proper) {text : List Char}
    (nested : fence.Nested text) : fence.Nested (fence.replaceInnermost none text) := by
  have replaces : fence.Replaces fun first second => ∀ depth,
      depthAfter? (· == fence.opening) (· == fence.closing) depth first =
        depthAfter? (· == fence.opening) (· == fence.closing) depth second :=
    { refl := fun _ _ => rfl
      trans := fun first second depth => (first depth).trans (second depth)
      append := by
        intro before first second same depth
        simp only [depthAfter?_append, same]
      pair := by
        intro inner plain rest depth
        rw [(nested_of_plain (proper.plain_call plain)).depthAfter?_append]
        have notOpening : (fence.closing == fence.opening) = false := by
          simpa using proper.distinct.symm
        simp [depthAfter?, (nested_of_plain plain).depthAfter?_append, notOpening] }
  exact ((replaces.replaceInnermost text).1 0).trans nested

/-- Closing glyphs get fewer. -/
theorem Proper.count_replaceInnermost_le (proper : fence.Proper) (text : List Char) :
    (fence.replaceInnermost none text).count fence.closing ≤ text.count fence.closing := by
  have replaces : fence.Replaces fun first second =>
      first.count fence.closing ≤ second.count fence.closing :=
    { refl := fun _ => le_rfl
      trans := fun first second => first.trans second
      append := by
        intro before first second fewer
        simpa using fewer
      pair := by
        intro inner plain rest
        have none : (fence.call inner).count fence.closing = 0 := by
          refine List.count_eq_zero.mpr fun member => ?_
          exact (isPlain_singleton_iff.mp (proper.plain_call plain _ member)).2 rfl
        rw [List.count_append, none]
        simp only [List.cons_append, List.count_cons, List.count_append]
        omega }
  exact (replaces.replaceInnermost text).1

/-- If an opening glyph is still open, the next closing glyph goes away. -/
theorem Proper.count_replaceInnermost_lt (proper : fence.Proper) {text inner : List Char}
    (plain : ∀ letter ∈ inner, isPlain [fence] letter = true) (closes : fence.closing ∈ text) :
    (fence.replaceInnermost (some inner) text).count fence.closing < text.count fence.closing := by
  have noClosing {inner : List Char} (plain : ∀ letter ∈ inner, isPlain [fence] letter = true) :
      inner.count fence.closing = 0 :=
    List.count_eq_zero.mpr fun member => (isPlain_singleton_iff.mp (plain _ member)).2 rfl
  induction text generalizing inner with
  | nil => cases closes
  | cons character rest inductionHypothesis =>
    rw [replaceInnermost]
    have plainReverse : ∀ letter ∈ inner.reverse, isPlain [fence] letter = true := by
      simpa using plain
    split
    · rename_i closing
      have fewer := proper.count_replaceInnermost_le rest
      rw [List.count_append, noClosing (proper.plain_call plainReverse), closing, List.count_cons_self]
      omega
    · rename_i notClosing
      have later : fence.closing ∈ rest := by
        simpa [Ne.symm notClosing] using closes
      rw [List.count_cons_of_ne notClosing]
      split
      · have fewer : (fence.replaceInnermost (some []) rest).count fence.closing <
            rest.count fence.closing := inductionHypothesis (by simp) later
        rw [List.cons_append, List.count_cons_of_ne proper.distinct, List.count_append,
          noClosing plainReverse, Nat.zero_add]
        exact fewer
      · rename_i notOpening
        exact inductionHypothesis
          (List.forall_mem_cons.mpr ⟨isPlain_singleton_iff.mpr ⟨notOpening, notClosing⟩, plain⟩) later

theorem replaceInnermost_of_not_mem {text inner : List Char} (notClosed : fence.closing ∉ text) :
    fence.replaceInnermost (some inner) text = fence.opening :: inner.reverse ++ text := by
  induction text generalizing inner with
  | nil => simp [replaceInnermost]
  | cons character rest inductionHypothesis =>
    rw [List.mem_cons, not_or] at notClosed
    rw [replaceInnermost, if_neg (Ne.symm notClosed.1)]
    split
    · rename_i opening
      rw [inductionHypothesis notClosed.2, opening]
      simp
    · rw [inductionHypothesis notClosed.2]
      simp

/-- A round that changes the text takes a closing glyph away. -/
theorem Proper.stays_or_fewer (proper : fence.Proper) (text : List Char) :
    fence.replaceInnermost none text = text ∨
      (fence.replaceInnermost none text).count fence.closing < text.count fence.closing := by
  induction text with
  | nil => exact .inl rfl
  | cons character rest inductionHypothesis =>
    rw [replaceInnermost]
    split
    · rename_i opening
      rw [opening, List.count_cons_of_ne proper.distinct]
      by_cases closes : fence.closing ∈ rest
      · exact .inr (proper.count_replaceInnermost_lt (by simp) closes)
      · exact .inl (replaceInnermost_of_not_mem closes)
    · rcases inductionHypothesis with stays | fewer
      · exact .inl (by rw [stays])
      · refine .inr ?_
        rw [List.count_cons, List.count_cons]
        omega

/-- Nested glyphs that a round leaves as they are are none. -/
theorem Proper.not_mem_of_stays (proper : fence.Proper) {text : List Char} {reached : Nat}
    (nested : depthAfter? (· == fence.opening) (· == fence.closing) 0 text = some reached)
    (stays : fence.replaceInnermost none text = text) : fence.closing ∉ text := by
  induction text with
  | nil => simp
  | cons character rest inductionHypothesis =>
    rw [replaceInnermost] at stays
    split at stays
    · rename_i opening
      intro closes
      have later : fence.closing ∈ rest := by
        simpa [opening, proper.distinct.symm] using closes
      have fewer : (fence.replaceInnermost (some []) rest).count fence.closing <
          rest.count fence.closing := proper.count_replaceInnermost_lt (by simp) later
      rw [stays, opening, List.count_cons_of_ne proper.distinct] at fewer
      omega
    · rename_i notOpening
      have notClosing : character ≠ fence.closing := by
        rintro rfl
        simp [depthAfter?, proper.distinct.symm] at nested
      rw [List.mem_cons, not_or]
      refine ⟨Ne.symm notClosing, inductionHypothesis ?_ (List.cons.inj stays).2⟩
      simpa [depthAfter?, notOpening, notClosing] using nested

/-- Rounds are repeated until one of them finds no pair and leaves the text as it is. -/
inductive Rounds (fence : Fence) : List Char → List Char → Prop where
  | done {text : List Char} (stays : fence.replaceInnermost none text = text) : Rounds fence text text
  | again {text result : List Char} (changes : fence.replaceInnermost none text ≠ text)
      (others : Rounds fence (fence.replaceInnermost none text) result) : Rounds fence text result

theorem replaceTimes_of_stays {text : List Char} (stays : fence.replaceInnermost none text = text)
    (count : Nat) : fence.replaceTimes count text = text := by
  induction count with
  | zero => rfl
  | succ count inductionHypothesis => rw [replaceTimes, stays, inductionHypothesis]

/-- The rounds end, with the text in which all pairs are replaced. -/
theorem Proper.rounds_replacePairs (proper : fence.Proper) (text : List Char) :
    fence.Rounds text (fence.replacePairs text) := by
  have enough (count : Nat) (text : List Char) (few : text.count fence.closing ≤ count) :
      fence.Rounds text (fence.replaceTimes count text) := by
    induction count generalizing text with
    | zero =>
      rcases proper.stays_or_fewer text with stays | fewer
      · exact .done stays
      · omega
    | succ count inductionHypothesis =>
      rcases proper.stays_or_fewer text with stays | fewer
      · rw [replaceTimes_of_stays stays]
        exact .done stays
      · refine .again ?_ (inductionHypothesis _ (by omega))
        intro stays
        rw [stays] at fewer
        omega
  exact enough _ text le_rfl

theorem depthAfter?_of_not_mem {text : List Char} (notClosed : fence.closing ∉ text) (depth : Nat) :
    depthAfter? (· == fence.opening) (· == fence.closing) depth text =
      some (depth + text.count fence.opening) := by
  induction text generalizing depth with
  | nil => rfl
  | cons character rest inductionHypothesis =>
    rw [List.mem_cons, not_or] at notClosed
    by_cases opening : character = fence.opening
    · simp only [depthAfter?, opening, beq_self_eq_true, if_true, List.count_cons_self,
        inductionHypothesis notClosed.2]
      congr 1
      omega
    · simp [depthAfter?, opening, Ne.symm notClosed.1, List.count_cons_of_ne opening,
        inductionHypothesis notClosed.2]

/-- If the glyphs are nested, all rounds together are one scan. -/
theorem Proper.replacePairs_eq_scan (proper : fence.Proper) {text : List Char}
    (nested : fence.Nested text) : fence.replacePairs text = scan [fence] [] (some []) text := by
  have rounds := proper.rounds_replacePairs text
  generalize fence.replacePairs text = result at rounds
  induction rounds with
  | @done text stays =>
    have noClosing := proper.not_mem_of_stays nested stays
    have noOpening : fence.opening ∉ text := by
      have depth := depthAfter?_of_not_mem noClosing 0
      rw [nested] at depth
      exact List.count_eq_zero.mp (by simpa using depth.symm)
    refine (scan_plain (fun letter member => ?_) []).symm
    exact isPlain_singleton_iff.mpr
      ⟨fun same => noOpening (same ▸ member), fun same => noClosing (same ▸ member)⟩
  | again _ _ inductionHypothesis =>
    rw [inductionHypothesis (proper.nested_replaceInnermost nested), proper.scan_replaceInnermost]

end Rounds

section Filling

variable {fence : Fence} {fences : List Fence} {filler : List Char}

/-- Some opening glyph is followed by a closing parenthesis, after any blanks. -/
def opensOnParenthesis (fences : List Fence) : List Char → Bool
  | [] => false
  | character :: rest =>
    ((opened? fences character).isSome && (rest.dropWhile isBlank).head? == some ')') ||
      opensOnParenthesis fences rest

/-- After blanks that are held back comes one of them, or they are dropped. -/
theorem head?_scan_of_held {first : Char} {others text : List Char}
    (blank : isBlank first = true) {character : Char}
    (starts : (scan fences filler (some (first :: others)) text).head? = some character) :
    isBlank character = true ∨ character = ')' := by
  induction text generalizing others with
  | nil =>
    cases starts
    exact .inl blank
  | cons next rest inductionHypothesis =>
    rw [scan] at starts
    split at starts
    · cases starts
      exact .inl blank
    · split at starts
      · cases starts
        exact .inr rfl
      · split at starts
        · exact inductionHypothesis starts
        · cases starts
          exact .inl blank

/-- A word in which no call can start or end comes from the text itself. -/
theorem Proper.prefix_of_prefix_scan (proper : fence.Proper) {word text others : List Char}
    {first : Char} (named : fence.name.toList = first :: others)
    (solid : ∀ letter ∈ word, isBlank letter = false ∧ letter ≠ ')' ∧ letter ≠ first)
    (starts : word <+: scan [fence] filler (some []) text) : word <+: text := by
  induction word generalizing text with
  | nil => exact List.nil_prefix
  | cons letter word inductionHypothesis =>
    rw [List.forall_mem_cons] at solid
    obtain ⟨⟨notBlank, notClosing, notFirst⟩, wordSolid⟩ := solid
    cases text with
    | nil => simp [scan] at starts
    | cons character rest =>
      rcases glyph_cases fence character with rfl | rfl | ⟨plain, blank⟩ | ⟨plain, isSolid⟩
      · rw [scan_opening opened?_opening, named] at starts
        exact absurd (List.cons_prefix_cons.mp starts).1 notFirst
      · rw [scan_closing proper.opened?_closing isClosing_closing] at starts
        exact absurd (List.cons_prefix_cons.mp starts).1 notClosing
      · rw [scan_blank plain blank] at starts
        obtain ⟨tail, split⟩ := starts
        have isHead := head?_scan_of_held blank (congrArg List.head? split.symm)
        simp [notBlank, notClosing] at isHead
      · rw [scan_solid plain isSolid] at starts
        obtain ⟨rfl, inRest⟩ := List.cons_prefix_cons.mp starts
        exact List.cons_prefix_cons.mpr ⟨rfl, inductionHypothesis wordSolid inRest⟩

/-- A call without an argument. -/
def emptyCall (fence : Fence) : List Char := fence.name.toList ++ ['(', ')']

/-- A call with an empty text for its argument. -/
def filledCall (fence : Fence) : List Char := fence.name.toList ++ ['(', '"', '"', ')']

/-- A call is recognised only where a glyph was. -/
theorem Proper.not_prefix_scan (proper : fence.Proper) {character : Char} {rest : List Char}
    (noCall : ¬ fence.name.toList ++ ['('] <:+: character :: rest) :
    ¬ fence.emptyCall <+: character :: scan [fence] filler (some []) rest := by
  obtain ⟨first, others, named, once⟩ := proper.named
  intro starts
  rw [emptyCall, named] at starts
  rw [named] at noCall
  obtain ⟨rfl, inRest⟩ := List.cons_prefix_cons.mp starts
  have word : others ++ ['('] <+: scan [fence] filler (some []) rest :=
    (List.prefix_append (others ++ ['(']) [')']).trans (by simpa using inRest)
  have letters := proper.letters
  rw [named, List.forall_mem_cons] at letters
  have solid : ∀ letter ∈ others ++ ['('],
      isBlank letter = false ∧ letter ≠ ')' ∧ letter ≠ first := by
    intro letter member
    rcases List.mem_append.mp member with isLetter | isSign
    · have facts := letters.2 letter isLetter
      exact ⟨facts.1, fun same => facts.2.2.2 (by simp [same]), fun same => once (same ▸ isLetter)⟩
    · rw [List.mem_singleton.mp isSign]
      exact ⟨by decide, by decide, fun same => letters.1.2.2.2 (by simp [← same])⟩
  have found := proper.prefix_of_prefix_scan named solid word
  exact noCall (List.cons_prefix_cons.mpr ⟨rfl, found⟩).isInfix

/-- A call with an argument is passed over. -/
theorem Proper.replaceAll_call (proper : fence.Proper) {rest : List Char}
    (argument : rest.head? ≠ some ')') :
    replaceAll fence.emptyCall fence.filledCall (fence.name.toList ++ '(' :: rest) =
      fence.name.toList ++ '(' :: replaceAll fence.emptyCall fence.filledCall rest := by
  obtain ⟨first, others, named, once⟩ := proper.named
  have starts : fence.emptyCall = first :: (others ++ ['(', ')']) := by simp [emptyCall, named]
  have notHere : ¬ fence.emptyCall <+: first :: (others ++ '(' :: rest) := by
    rw [starts, List.cons_prefix_cons]
    rintro ⟨-, tail, split⟩
    have parts : ')' :: tail = rest := by simpa using split
    exact argument (by simp [← parts])
  have notFirst : first ∉ others ++ ['('] := by
    have isLetter : first ∈ fence.name.toList := by simp [named]
    have notSign := (proper.letters first isLetter).2.2.2
    simp only [List.mem_append, List.mem_singleton, not_or]
    exact ⟨once, fun same => notSign (by simp [same])⟩
  have passed : replaceAll fence.emptyCall fence.filledCall (others ++ ['('] ++ rest) =
      others ++ ['('] ++ replaceAll fence.emptyCall fence.filledCall rest :=
    replaceAll_append starts notFirst rest
  rw [named, List.cons_append, replaceAll_cons_of_absent notHere]
  simpa using passed

/-- Filling in the calls without an argument is part of the scan. -/
theorem Proper.replaceAll_scan (proper : fence.Proper) {text : List Char}
    (noCall : ¬ fence.name.toList ++ ['('] <:+: text)
    (noParenthesis : opensOnParenthesis [fence] text = false) :
    (∀ held, (∀ blank ∈ held, isBlank blank = true) →
      replaceAll fence.emptyCall fence.filledCall (scan [fence] [] (some held) text) =
        scan [fence] ['"', '"'] (some held) text) ∧
    ((text.dropWhile isBlank).head? ≠ some ')' →
      replaceAll fence.emptyCall fence.filledCall
          (fence.name.toList ++ '(' :: scan [fence] [] none text) =
        fence.name.toList ++ '(' :: scan [fence] ['"', '"'] none text) := by
  obtain ⟨first, others, named, once⟩ := proper.named
  have starts : fence.emptyCall = first :: (others ++ ['(', ')']) := by simp [emptyCall, named]
  have isLetter : first ∈ fence.name.toList := by simp [named]
  obtain ⟨firstSolid, -, -, notSign⟩ := proper.letters first isLetter
  have blanksPassed (held rest : List Char) (blanks : ∀ blank ∈ held, isBlank blank = true) :
      replaceAll fence.emptyCall fence.filledCall (held ++ rest) =
        held ++ replaceAll fence.emptyCall fence.filledCall rest := by
    refine replaceAll_append starts (fun member => ?_) rest
    simp [blanks first member] at firstSolid
  have signPassed (rest : List Char) : replaceAll fence.emptyCall fence.filledCall ([')'] ++ rest) =
      [')'] ++ replaceAll fence.emptyCall fence.filledCall rest :=
    replaceAll_append starts (fun member => notSign (by simp [List.mem_singleton.mp member])) rest
  induction text with
  | nil =>
    refine ⟨fun held blanks => ?_, fun _ => ?_⟩
    · simpa [scan, replaceAll, replaceFrom] using blanksPassed held [] blanks
    · exact proper.replaceAll_call (by simp [scan])
  | cons character rest inductionHypothesis =>
    have noCallLater : ¬ fence.name.toList ++ ['('] <:+: rest :=
      fun later => noCall (later.trans (List.suffix_cons character rest).isInfix)
    rw [opensOnParenthesis, Bool.or_eq_false_iff] at noParenthesis
    obtain ⟨outside, inside⟩ := inductionHypothesis noCallLater noParenthesis.2
    rcases glyph_cases fence character with rfl | rfl | ⟨plain, blank⟩ | ⟨plain, solid⟩
    · have argument : (rest.dropWhile isBlank).head? ≠ some ')' := by
        simpa using noParenthesis.1
      refine ⟨fun held blanks => ?_, fun _ => ?_⟩
      · rw [scan_opening opened?_opening, scan_opening opened?_opening, Option.getD_some,
          List.append_assoc, blanksPassed held _ blanks, inside argument, List.append_assoc]
      · rw [scan_opening opened?_opening, scan_opening opened?_opening, Option.getD_none,
          List.nil_append, proper.replaceAll_call, inside argument]
        rw [named]
        intro same
        exact notSign (by simp [Option.some.inj same])
    · refine ⟨fun held blanks => ?_, fun _ => ?_⟩
      · rw [scan_closing proper.opened?_closing isClosing_closing,
          scan_closing proper.opened?_closing isClosing_closing]
        have passed := signPassed (scan [fence] [] (some []) rest)
        rw [outside [] (by simp)] at passed
        exact passed
      · rw [scan_closing proper.opened?_closing isClosing_closing,
          scan_closing proper.opened?_closing isClosing_closing]
        have filled : replaceAll fence.emptyCall fence.filledCall
            (fence.emptyCall ++ scan [fence] [] (some []) rest) =
            fence.filledCall ++ replaceAll fence.emptyCall fence.filledCall
              (scan [fence] [] (some []) rest) :=
          replaceAll_append_self (by simp [starts]) _
        rw [outside [] (by simp)] at filled
        simpa [emptyCall, filledCall] using filled
    · refine ⟨fun held blanks => ?_, fun argument => ?_⟩
      · rw [scan_blank plain blank, scan_blank plain blank, Option.map_some]
        exact outside _ (by simpa [or_imp, forall_and, blank] using blanks)
      · rw [scan_blank plain blank, scan_blank plain blank, Option.map_none]
        exact inside (by simpa [blank] using argument)
    · have here : replaceAll fence.emptyCall fence.filledCall
          (character :: scan [fence] [] (some []) rest) =
          character :: scan [fence] ['"', '"'] (some []) rest := by
        rw [replaceAll_cons_of_absent (proper.not_prefix_scan noCall), outside [] (by simp)]
      refine ⟨fun held blanks => ?_, fun argument => ?_⟩
      · rw [scan_solid plain solid, scan_solid plain solid, Option.getD_some,
          blanksPassed held _ blanks, here]
      · rw [scan_solid plain solid, scan_solid plain solid, Option.getD_none, List.nil_append,
          List.nil_append, proper.replaceAll_call (by simpa [solid] using argument), here]

/-- All that is done for a fence is one scan, if its glyphs are nested and nothing in the text
looks like its call. -/
theorem Proper.toList_apply (proper : fence.Proper) {text : String} (nested : fence.Nested text.toList)
    (noCall : ¬ fence.name.toList ++ ['('] <:+: text.toList)
    (noParenthesis : opensOnParenthesis [fence] text.toList = false) :
    (fence.apply text).toList = scan [fence] ['"', '"'] (some []) text.toList := by
  rw [apply, String.toList_ofList, proper.replacePairs_eq_scan nested]
  exact (proper.replaceAll_scan noCall noParenthesis).1 [] (by simp)

end Filling

end MathMarkup.Typst.Fence
