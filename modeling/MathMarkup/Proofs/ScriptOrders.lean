import Mathlib.Computability.RegularExpressions
import MathMarkup.Proofs.BraceBalance
import MathMarkup.Proofs.Printing

/-!
# The order of primes and scripts

Primes, a subscript and a superscript may follow a base in the orders of a regular
expression, `scriptOrder`. An item that leaves this language is refused, and the message says
which script it repeats. An order that is accepted has no influence on the tree: the number
of primes, the subscript and the superscript decide it.
-/

namespace MathMarkup.Tex.Grammar

open MathMarkup.Tex.Parser

/-- What stands between two braces: tokens that are a formula by themselves, read with fewer
levels than are allowed around them. -/
structure Body (options : ParseOptions) where
  tokens : List Token
  node : Node
  limit : Nat
  limit_lt : (limit : Int) < options.maxDepth
  parsed : parseTokens { options with maxDepth := limit } tokens = .ok node

/-- What may follow a base: a prime, or a mark with a script in braces. -/
inductive ScriptItem (options : ParseOptions) where
  | prime
  | script (mark : Token.ScriptMark) (body : Body options)

namespace ScriptItem

variable {options : ParseOptions}

def tokens : ScriptItem options → List Token
  | prime => [.prime]
  | script mark body => markToken mark :: braced body.tokens

/-- The mark of a script; a prime has none. -/
def mark? : ScriptItem options → Option Token.ScriptMark
  | prime => none
  | script mark _ => some mark

/-- The formula of a script with the given mark. -/
def nodeAt? (mark : Token.ScriptMark) : ScriptItem options → Option Node
  | prime => none
  | script other body => if other = mark then some body.node else none

/-- What is said when the item comes after scripts it cannot be added to. -/
def refusal (item : ScriptItem options) : String :=
  match item.mark? with
  | some .subscript => "Double subscript"
  | some .superscript | none => "Double superscript"

end ScriptItem

section Words

variable {options : ParseOptions}

/-- The tokens of a word of items. -/
def wordTokens (word : List (ScriptItem options)) : List Token :=
  word.flatMap ScriptItem.tokens

/-- The number of primes in a word. -/
def wordPrimes (word : List (ScriptItem options)) : Nat :=
  (word.map ScriptItem.mark?).count none

/-- The first script with the given mark in a word. -/
def wordScript? (mark : Token.ScriptMark) (word : List (ScriptItem options)) : Option Node :=
  word.findSome? (ScriptItem.nodeAt? mark)

/-- The primes and the superscript as one superscript, if there are any. -/
def wordSuperscript? (word : List (ScriptItem options)) : Option Node :=
  if wordPrimes word = 0 ∧ wordScript? .superscript word = none then none
  else some (.group (List.replicate (wordPrimes word) (.symbol "\\prime") ++
    (wordScript? .superscript word).toList))

/-- The formula that a word makes of its base. -/
def wordNode (base : Node) : List (ScriptItem options) → Node
  | [] => base
  | word => .supsub "" base (wordSuperscript? word) (wordScript? .subscript word)

/-- The orders in which primes and scripts may follow a base. A prime is written as the
letter without a mark. -/
def scriptOrder : RegularExpression (Option Token.ScriptMark) :=
  let prime : RegularExpression (Option Token.ScriptMark) := .char none
  let sub : RegularExpression (Option Token.ScriptMark) := .char (some .subscript)
  let sup : RegularExpression (Option Token.ScriptMark) := .char (some .superscript)
  prime.star * (1 + sub * prime.star * (1 + sup) + sup * (1 + sub))

/-- The items of the word come in one of the orders that are allowed. -/
def InOrder (word : List (ScriptItem options)) : Prop :=
  word.map ScriptItem.mark? ∈ scriptOrder.matches'

instance (word : List (ScriptItem options)) : Decidable (InOrder word) :=
  inferInstanceAs (Decidable (word.map ScriptItem.mark? ∈ scriptOrder.matches'))

/-- The item is the first that leaves the orders that are allowed. -/
def LeavesAt (word : List (ScriptItem options)) (item : ScriptItem options) : Prop :=
  ∃ front others, word = front ++ item :: others ∧ InOrder front ∧ ¬ InOrder (front ++ [item])

/-- A run of primes. -/
def primeRun (count : Nat) : List (ScriptItem options) :=
  List.replicate count .prime

/-- The words in order, one rule for each way through the scripts, with the scripts they are
read as. -/
inductive Arranged : List (ScriptItem options) → Scripts → Prop where
  | primes (count : Nat) : Arranged (primeRun count) { primes := count }
  | sub (primes morePrimes : Nat) (sub : Body options) :
      Arranged (primeRun primes ++ (ScriptItem.script .subscript sub :: primeRun morePrimes))
        { primes := primes + morePrimes, sub := some sub.node }
  | subSup (primes morePrimes : Nat) (sub sup : Body options) :
      Arranged (primeRun primes ++ (ScriptItem.script .subscript sub ::
          (primeRun morePrimes ++ [ScriptItem.script .superscript sup])))
        { primes := primes + morePrimes, sub := some sub.node, sup := some sup.node }
  | sup (primes : Nat) (sup : Body options) :
      Arranged (primeRun primes ++ [ScriptItem.script .superscript sup])
        { primes, sup := some sup.node }
  | supSub (primes : Nat) (sup sub : Body options) :
      Arranged (primeRun primes ++
          [ScriptItem.script .superscript sup, ScriptItem.script .subscript sub])
        { primes, sub := some sub.node, sup := some sup.node }

end Words

section Orders

variable {options : ParseOptions} {word : List (ScriptItem options)} {scripts : Scripts}

theorem mem_kstar_singleton_iff {α : Type} {letter : α} {letters : List α} :
    letters ∈ KStar.kstar ({[letter]} : Language α) ↔
      ∃ count, letters = List.replicate count letter := by
  rw [Language.mem_kstar]
  constructor
  · rintro ⟨parts, rfl, all⟩
    refine ⟨parts.length, ?_⟩
    rw [List.eq_replicate_of_mem fun part member => Set.mem_singleton_iff.mp (all part member)]
    simp
  · rintro ⟨count, rfl⟩
    refine ⟨List.replicate count [letter], by simp, ?_⟩
    intro part member
    exact Set.mem_singleton_iff.mpr (List.eq_of_mem_replicate member)

/-- The words of the regular expression: primes, and then one of five endings. -/
theorem mem_scriptOrder_iff {letters : List (Option Token.ScriptMark)} :
    letters ∈ scriptOrder.matches' ↔ ∃ primes,
      letters = List.replicate primes none ∨
      (∃ morePrimes, letters = List.replicate primes none ++
        (some Token.ScriptMark.subscript :: List.replicate morePrimes none)) ∨
      (∃ morePrimes, letters = List.replicate primes none ++ (some Token.ScriptMark.subscript ::
        (List.replicate morePrimes none ++ [some Token.ScriptMark.superscript]))) ∨
      letters = List.replicate primes none ++ [some Token.ScriptMark.superscript] ∨
      letters = List.replicate primes none ++
        [some Token.ScriptMark.superscript, some Token.ScriptMark.subscript] := by
  have starred (count : Nat) : List.replicate count none ∈
      (RegularExpression.char (none : Option Token.ScriptMark)).star.matches' :=
    mem_kstar_singleton_iff.mpr ⟨count, rfl⟩
  constructor
  · rintro ⟨front, isFront, rest, ending, rfl⟩
    obtain ⟨primes, rfl⟩ := mem_kstar_singleton_iff.mp isFront
    refine ⟨primes, ?_⟩
    rcases ending with (rfl | ⟨_, ⟨_, rfl, more, isMore, rfl⟩, _, rfl | rfl, rfl⟩) |
      ⟨_, rfl, _, rfl | rfl, rfl⟩
    · exact .inl (List.append_nil _)
    · obtain ⟨morePrimes, rfl⟩ := mem_kstar_singleton_iff.mp isMore
      exact .inr (.inl ⟨morePrimes, by simp⟩)
    · obtain ⟨morePrimes, rfl⟩ := mem_kstar_singleton_iff.mp isMore
      exact .inr (.inr (.inl ⟨morePrimes, by simp⟩))
    · exact .inr (.inr (.inr (.inl rfl)))
    · exact .inr (.inr (.inr (.inr rfl)))
  · rintro ⟨primes, rfl | ⟨morePrimes, rfl⟩ | ⟨morePrimes, rfl⟩ | rfl | rfl⟩
    · exact ⟨_, starred primes, [], .inl (.inl rfl), by simp⟩
    · exact ⟨_, starred primes, _, .inl (.inr
        ⟨_, ⟨_, rfl, _, starred morePrimes, rfl⟩, [], .inl rfl, rfl⟩), by simp⟩
    · exact ⟨_, starred primes, _, .inl (.inr
        ⟨_, ⟨_, rfl, _, starred morePrimes, rfl⟩, _, .inr rfl, rfl⟩), by simp⟩
    · exact ⟨_, starred primes, _, .inr ⟨_, rfl, [], .inl rfl, rfl⟩, rfl⟩
    · exact ⟨_, starred primes, _, .inr ⟨_, rfl, _, .inr rfl, rfl⟩, rfl⟩

/-- A run of items without marks is a run of primes. -/
theorem eq_primeRun {count : Nat}
    (marks : word.map ScriptItem.mark? = List.replicate count none) :
    word = primeRun count := by
  obtain ⟨length, all⟩ := List.eq_replicate_iff.mp marks
  refine List.eq_replicate_iff.mpr ⟨by simpa using length, fun item member => ?_⟩
  have unmarked := all _ (List.mem_map_of_mem member)
  cases item with
  | prime => rfl
  | script mark body => cases unmarked

theorem eq_script {item : ScriptItem options} {mark : Token.ScriptMark}
    (marked : item.mark? = some mark) : ∃ body, item = .script mark body := by
  cases item with
  | prime => cases marked
  | script other body =>
    cases marked
    exact ⟨body, rfl⟩

@[simp]
theorem map_mark?_primeRun (count : Nat) :
    (primeRun count : List (ScriptItem options)).map ScriptItem.mark? =
      List.replicate count none :=
  List.map_replicate

theorem primeRun_succ (count : Nat) :
    (primeRun (count + 1) : List (ScriptItem options)) = primeRun count ++ [.prime] :=
  List.replicate_succ'

/-- The words in order are those that the rules arrange. -/
theorem inOrder_iff : InOrder word ↔ ∃ scripts, Arranged word scripts := by
  rw [InOrder, mem_scriptOrder_iff]
  constructor
  · rintro ⟨primes, marks | ⟨morePrimes, marks⟩ | ⟨morePrimes, marks⟩ | marks | marks⟩
    · rw [eq_primeRun marks]
      exact ⟨_, .primes primes⟩
    · obtain ⟨front, back, rfl, frontMarks, backMarks⟩ := List.map_eq_append_iff.mp marks
      obtain ⟨item, others, rfl, marked, otherMarks⟩ := List.map_eq_cons_iff.mp backMarks
      obtain ⟨sub, rfl⟩ := eq_script marked
      rw [eq_primeRun frontMarks, eq_primeRun otherMarks]
      exact ⟨_, .sub primes morePrimes sub⟩
    · obtain ⟨front, back, rfl, frontMarks, backMarks⟩ := List.map_eq_append_iff.mp marks
      obtain ⟨item, others, rfl, marked, otherMarks⟩ := List.map_eq_cons_iff.mp backMarks
      obtain ⟨more, last, rfl, moreMarks, lastMarks⟩ := List.map_eq_append_iff.mp otherMarks
      obtain ⟨lastItem, rfl, lastMarked⟩ := List.map_eq_singleton_iff.mp lastMarks
      obtain ⟨sub, rfl⟩ := eq_script marked
      obtain ⟨sup, rfl⟩ := eq_script lastMarked
      rw [eq_primeRun frontMarks, eq_primeRun moreMarks]
      exact ⟨_, .subSup primes morePrimes sub sup⟩
    · obtain ⟨front, back, rfl, frontMarks, backMarks⟩ := List.map_eq_append_iff.mp marks
      obtain ⟨item, rfl, marked⟩ := List.map_eq_singleton_iff.mp backMarks
      obtain ⟨sup, rfl⟩ := eq_script marked
      rw [eq_primeRun frontMarks]
      exact ⟨_, .sup primes sup⟩
    · obtain ⟨front, back, rfl, frontMarks, backMarks⟩ := List.map_eq_append_iff.mp marks
      obtain ⟨item, others, rfl, marked, otherMarks⟩ := List.map_eq_cons_iff.mp backMarks
      obtain ⟨lastItem, rfl, lastMarked⟩ := List.map_eq_singleton_iff.mp otherMarks
      obtain ⟨sup, rfl⟩ := eq_script marked
      obtain ⟨sub, rfl⟩ := eq_script lastMarked
      rw [eq_primeRun frontMarks]
      exact ⟨_, .supSub primes sup sub⟩
  · rintro ⟨scripts, arranged⟩
    cases arranged with
    | primes count => exact ⟨count, .inl (map_mark?_primeRun count)⟩
    | sub primes morePrimes sub =>
      exact ⟨primes, .inr (.inl ⟨morePrimes, by simp [ScriptItem.mark?]⟩)⟩
    | subSup primes morePrimes sub sup =>
      exact ⟨primes, .inr (.inr (.inl ⟨morePrimes, by simp [ScriptItem.mark?]⟩))⟩
    | sup primes sup => exact ⟨primes, .inr (.inr (.inr (.inl (by simp [ScriptItem.mark?]))))⟩
    | supSub primes sup sub =>
      exact ⟨primes, .inr (.inr (.inr (.inr (by simp [ScriptItem.mark?]))))⟩

/-- What may be added to the scripts: a prime and a superscript as long as there is no
superscript, and a subscript as long as there is no subscript. -/
def Admits (scripts : Scripts) : Option Token.ScriptMark → Prop
  | some .subscript => scripts.sub = none
  | some .superscript | none => scripts.sup = none

/-- An item that the scripts admit keeps the word in order. -/
theorem Arranged.inOrder_append {item : ScriptItem options} (arranged : Arranged word scripts)
    (admits : Admits scripts item.mark?) : InOrder (word ++ [item]) := by
  rw [inOrder_iff]
  cases arranged with
  | primes count =>
    match item with
    | .prime =>
      have longer : Arranged (primeRun (count + 1) : List (ScriptItem options)) _ :=
        .primes (count + 1)
      rw [primeRun_succ] at longer
      exact ⟨_, longer⟩
    | .script .subscript below => exact ⟨_, .sub count 0 below⟩
    | .script .superscript above => exact ⟨_, .sup count above⟩
  | sub primes morePrimes below =>
    match item with
    | .prime =>
      have longer := Arranged.sub primes (morePrimes + 1) below
      rw [primeRun_succ, ← List.cons_append, ← List.append_assoc] at longer
      exact ⟨_, longer⟩
    | .script .subscript _ => cases admits
    | .script .superscript above =>
      have longer := Arranged.subSup primes morePrimes below above
      rw [← List.cons_append, ← List.append_assoc] at longer
      exact ⟨_, longer⟩
  | sup primes above =>
    match item with
    | .prime | .script .superscript _ => cases admits
    | .script .subscript below => exact ⟨_, by simpa using Arranged.supSub primes above below⟩
  | subSup | supSub =>
    match item with
    | .prime | .script .subscript _ | .script .superscript _ => cases admits

/-- A word that is not in order has an item at which it leaves the order. -/
theorem exists_leavesAt (unordered : ¬ InOrder word) : ∃ item, LeavesAt word item := by
  induction word using List.reverseRecOn with
  | nil => exact absurd (inOrder_iff.mpr ⟨_, .primes 0⟩) unordered
  | append_singleton front item inductionHypothesis =>
    by_cases ordered : InOrder front
    · exact ⟨item, front, [], rfl, ordered, unordered⟩
    · obtain ⟨earlier, start, others, rfl, startOrdered, leaves⟩ := inductionHypothesis ordered
      exact ⟨earlier, start, others ++ [item], by simp, startOrdered, leaves⟩

end Orders

section Meaning

variable {options : ParseOptions} {word : List (ScriptItem options)} {scripts : Scripts}

@[simp]
theorem findSome?_primeRun (mark : Token.ScriptMark) (count : Nat) :
    (primeRun count : List (ScriptItem options)).findSome? (ScriptItem.nodeAt? mark) = none := by
  refine List.findSome?_eq_none_iff.mpr fun item member => ?_
  rw [List.eq_of_mem_replicate member]
  rfl

/-- The scripts hold what stands in the word. -/
theorem Arranged.scripts_eq (arranged : Arranged word scripts) :
    scripts = { primes := wordPrimes word, sub := wordScript? .subscript word,
                sup := wordScript? .superscript word } := by
  cases arranged <;> simp [wordPrimes, wordScript?, ScriptItem.mark?, ScriptItem.nodeAt?]

/-- The word is empty if it has neither primes nor scripts. -/
theorem eq_nil_of_none (noPrimes : wordPrimes word = 0)
    (noSub : wordScript? .subscript word = none) (noSup : wordScript? .superscript word = none) :
    word = [] := by
  cases word with
  | nil => rfl
  | cons item others =>
    match item with
    | .prime => simp [wordPrimes, ScriptItem.mark?] at noPrimes
    | .script .subscript _ => simp [wordScript?, ScriptItem.nodeAt?] at noSub
    | .script .superscript _ => simp [wordScript?, ScriptItem.nodeAt?] at noSup

/-- What the reader makes of the primes and the superscript. -/
theorem superscript_eq (primes : Nat) (sub sup : Option Node) :
    Scripts.superscript { primes, sub, sup } =
      if primes = 0 ∧ sup = none then none
      else some (.group (List.replicate primes (.symbol "\\prime") ++ sup.toList)) := by
  cases primes with
  | zero => cases sup <;> simp [Scripts.superscript, Node.group]
  | succ count => simp [Scripts.superscript]

/-- The scripts of a word in order make its formula. -/
theorem Arranged.attach_eq (arranged : Arranged word scripts) (base : Node) :
    scripts.attach base = wordNode base word := by
  rw [arranged.scripts_eq, Scripts.attach, superscript_eq]
  cases word with
  | nil => rfl
  | cons item others =>
    split
    · rename_i noSup noSub
      obtain ⟨noPrimes, noSup⟩ : wordPrimes (item :: others) = 0 ∧
          wordScript? .superscript (item :: others) = none := by
        by_contra some
        rw [if_neg some] at noSup
        cases noSup
      cases eq_nil_of_none noPrimes noSub noSup
    · rfl

end Meaning

section Steps

variable {options : ParseOptions} {α β : Type} {before rest : List Token}

/-- A reader goes on from where its first part stopped. -/
theorem bind_eq {first other : Reader α} {next : α → Reader β} {place elsewhere : Cursor}
    (same : first place = other elsewhere) :
    (first >>= next) place = (other >>= next) elsewhere := by
  change EStateM.bind first next place = EStateM.bind other next elsewhere
  rw [EStateM.bind, EStateM.bind, same]

theorem bind_ok {first : Reader α} {next : α → Reader β} {place stop : Cursor} {value : α}
    (read : first place = .ok value stop) : (first >>= next) place = next value stop := by
  have same : first place = (pure value : Reader α) stop := read
  exact bind_eq same

theorem bind_error {first : Reader α} {next : α → Reader β} {place stop : Cursor}
    {cause : ParseError} (failed : first place = .error cause stop) :
    (first >>= next) place = .error cause stop := by
  have same : first place = (throw cause : Reader α) stop := failed
  exact bind_eq same

theorem remaining_eq (place : Cursor) : Reader.remaining place = .ok place.after place := rfl

theorem takePrimes_eq (count : Nat) (noPrime : NoPrime rest) :
    Reader.takePrimes ⟨before, List.replicate count .prime ++ rest⟩ =
      .ok count ⟨List.replicate count .prime ++ before, rest⟩ := by
  obtain ⟨counted, -⟩ := primeCount_eq_iff.mpr ⟨rfl, noPrime⟩
  change EStateM.Result.ok _ (Cursor.advance _ _) = _
  rw [← counted]
  simp [Cursor.advance]

theorem refusePrime_ok (noPrime : NoPrime rest) :
    refusePrime ⟨before, rest⟩ = .ok () ⟨before, rest⟩ := by
  cases rest with
  | nil => rfl
  | cons token tail =>
    have other : token ≠ .prime := fun same => noPrime (congrArg some same)
    refine (bind_ok (remaining_eq _)).trans ?_
    simp only [if_neg other]
    rfl

/-- Where no prime follows, the question for one changes nothing. -/
theorem refusePrime_return (value : α) (noPrime : NoPrime rest) :
    (do
      refusePrime
      return value : Reader α) ⟨before, rest⟩ = .ok value ⟨before, rest⟩ :=
  bind_ok (refusePrime_ok noPrime)

theorem refusePrime_error (before tail : List Token) :
    refusePrime ⟨before, .prime :: tail⟩ =
      .error (.doubleSuperscript .prime) ⟨before, .prime :: tail⟩ :=
  rfl

/-- What comes after the question for a prime starts at the same place. -/
theorem refusePrime_bind_congr {next other : Unit → Reader α} {place : Cursor}
    (same : next () place = other () place) :
    (refusePrime >>= next) place = (refusePrime >>= other) place := by
  obtain ⟨before, rest⟩ := place
  by_cases noPrime : NoPrime rest
  · rw [bind_ok (refusePrime_ok noPrime), bind_ok (refusePrime_ok noPrime), same]
  · obtain ⟨tail, rfl⟩ := List.head?_eq_some_iff.mp (not_not.mp noPrime)
    rw [bind_error (refusePrime_error before tail), bind_error (refusePrime_error before tail)]

theorem refuseScriptMark_ok (unmarked : ∀ token ∈ rest.head?, token.scriptMark? = none) :
    refuseScriptMark ⟨before, rest⟩ = .ok () ⟨before, rest⟩ := by
  cases rest with
  | nil => rfl
  | cons token tail =>
    have none : token.scriptMark? = none := unmarked token rfl
    refine (bind_ok (remaining_eq _)).trans ?_
    simp only [none]
    rfl

/-- A mark after the scripts repeats one of them. -/
theorem refuseScriptMark_error (mark : Token.ScriptMark) (before tail : List Token) :
    refuseScriptMark ⟨before, markToken mark :: tail⟩ =
      .error (match mark with
        | .subscript => .doubleSubscript (markToken mark)
        | .superscript => .doubleSuperscript (markToken mark))
        ⟨before, markToken mark :: tail⟩ := by
  cases mark <;> rfl

theorem script?_none (operand : Reader Node) {mark : Token.ScriptMark}
    (absent : rest.head? ≠ some (markToken mark)) :
    script? operand mark ⟨before, rest⟩ = .ok none ⟨before, rest⟩ := by
  cases rest with
  | nil => rfl
  | cons token tail =>
    have unmarked : token.scriptMark? ≠ some mark := fun found =>
      absent (congrArg some (scriptMark?_eq_some_iff.mp found))
    refine (bind_ok (remaining_eq _)).trans ?_
    simp only [if_neg unmarked]
    rfl

/-- What is between braces is read from a list of its own, and the place moves past both. -/
theorem bracedGroup_eq {inner : Reader Node} {tokens : List Token} {node : Node} {last : Cursor}
    (balanced : Balanced .openBrace .closeBrace tokens)
    (read : sequence options inner (Cursor.ofTokens tokens) = .ok node last)
    (before rest : List Token) :
    bracedGroup options inner ⟨before, braced tokens ++ rest⟩ =
      .ok node ⟨(braced tokens).reverse ++ before, rest⟩ := by
  have closes : closingBrace .openBrace (tokens ++ .closeBrace :: rest) = .ok tokens.length := by
    rw [closingBrace,
      (closing?_eq_some_iff (by decide)).mpr ⟨tokens, rest, rfl, rfl, balanced⟩]
  have split : braced tokens ++ rest = .openBrace :: (tokens ++ .closeBrace :: rest) := by
    simp [braced]
  have inside (place : Cursor) :
      Reader.within tokens (sequence options inner) place = .ok node place := by
    rw [Reader.within, read]
  have taken (after : List Token) : Reader.take ⟨before, .openBrace :: after⟩ =
      .ok .openBrace ⟨.openBrace :: before, after⟩ := rfl
  have checked (place : Cursor) : Reader.check (closingBrace .openBrace
      (tokens ++ .closeBrace :: rest)) place = .ok tokens.length place := by
    rw [closes]
    rfl
  rw [split]
  refine (bind_ok (taken _)).trans ((bind_ok (remaining_eq _)).trans ?_)
  refine (bind_ok (checked _)).trans ?_
  rw [List.take_left' rfl]
  refine (bind_ok (inside _)).trans ?_
  change EStateM.Result.ok node (Cursor.advance (tokens.length + 1) _) = _
  simp [Cursor.advance, braced, List.take_length_add_append, List.drop_length_add_append]

/-- A formula that is read with some levels is read inside braces with one more. -/
theorem Body.sequence_eq (body : Body options) {depth : Nat}
    (levels : options.maxDepth.toNat = depth + 1) :
    ∃ last, sequence options (operandAt options depth) (Cursor.ofTokens body.tokens) =
      .ok body.node last := by
  have deeper : body.limit ≤ depth := by
    have := body.limit_lt
    omega
  have shallow := parseTokens_eq_ok_iff.mp body.parsed
  have inside : Sequence (Reads options depth) options body.tokens body.node :=
    shallow.mono (Reads.mono options.maxDepth deeper) options.maxDepth _ _
  obtain ⟨passed, read⟩ := (realizesAt_sequence options (realizes_operandAt options depth)
    (Reads.progresses options depth) body.tokens [] body.node []).mpr ⟨rfl, inside⟩
  exact ⟨_, read⟩

/-- A formula in braces is read as an operand, up to its closing brace. -/
theorem operand_braced (body : Body options) (before rest : List Token) :
    operand options ⟨before, braced body.tokens ++ rest⟩ =
      .ok body.node ⟨(braced body.tokens).reverse ++ before, rest⟩ := by
  obtain ⟨depth, levels⟩ : ∃ depth, options.maxDepth.toNat = depth + 1 := by
    have := body.limit_lt
    exact Nat.exists_eq_add_one_of_ne_zero (by omega)
  obtain ⟨last, read⟩ := body.sequence_eq levels
  have balanced := balanced_of_parseTokens body.parsed
  rw [operand, levels]
  exact bracedGroup_eq balanced read before rest

theorem script?_some (mark : Token.ScriptMark) (body : Body options)
    (before rest : List Token) :
    script? (operand options) mark ⟨before, markToken mark :: (braced body.tokens ++ rest)⟩ =
      .ok (some body.node)
        ⟨(braced body.tokens).reverse ++ markToken mark :: before, rest⟩ := by
  refine (bind_ok (remaining_eq _)).trans ?_
  simp only [scriptMark?_markToken, if_true]
  have follows : (braced body.tokens ++ rest).isEmpty = false := rfl
  simp only [follows]
  exact bind_ok (operand_braced body (markToken mark :: before) rest)

end Steps

section Runs

variable {options : ParseOptions} {word : List (ScriptItem options)} {scripts : Scripts}
  {before rest : List Token}

/-- The token that a letter of the orders stands for first. -/
def letterToken : Option Token.ScriptMark → Token
  | some mark => markToken mark
  | none => .prime

/-- Nothing at the front can be added to the scripts. -/
def Closed (scripts : Scripts) (rest : List Token) : Prop :=
  ∀ letter, Admits scripts letter → rest.head? ≠ some (letterToken letter)

theorem Closed.noPrime (closed : Closed scripts rest) (noSup : scripts.sup = none) :
    NoPrime rest :=
  closed none noSup

@[simp]
theorem wordTokens_nil : wordTokens ([] : List (ScriptItem options)) = [] := rfl

@[simp]
theorem wordTokens_primeRun (count : Nat) :
    wordTokens (primeRun count : List (ScriptItem options)) = List.replicate count .prime := by
  induction count with
  | zero => rfl
  | succ count inductionHypothesis => exact congrArg (Token.prime :: ·) inductionHypothesis

@[simp]
theorem wordTokens_append (front back : List (ScriptItem options)) :
    wordTokens (front ++ back) = wordTokens front ++ wordTokens back :=
  List.flatMap_append

@[simp]
theorem wordTokens_script (mark : Token.ScriptMark) (body : Body options)
    (others : List (ScriptItem options)) :
    wordTokens (.script mark body :: others) =
      markToken mark :: (braced body.tokens ++ wordTokens others) :=
  rfl

/-- The reader takes all of a word in order, and then only asks whether a prime follows. -/
theorem Arranged.scripts_run (arranged : Arranged word scripts) (closed : Closed scripts rest) :
    Parser.scripts (operand options) ⟨before, wordTokens word ++ rest⟩ =
      (do
        refusePrime
        return scripts : Reader Scripts) ⟨(wordTokens word).reverse ++ before, rest⟩ := by
  cases arranged with
  | primes count =>
    have noPrime := closed.noPrime rfl
    have noSub : rest.head? ≠ some (markToken .subscript) := closed (some .subscript) rfl
    have noSup : rest.head? ≠ some (markToken .superscript) := closed (some .superscript) rfl
    rw [refusePrime_return _ noPrime, wordTokens_primeRun, List.reverse_replicate]
    refine (bind_ok (takePrimes_eq count noPrime)).trans ?_
    refine (bind_ok (script?_none _ noSub)).trans ?_
    exact bind_ok (script?_none _ noSup)
  | sub primes morePrimes sub =>
    have noPrime := closed.noPrime rfl
    have noSup : rest.head? ≠ some (markToken .superscript) := closed (some .superscript) rfl
    simp only [refusePrime_return _ noPrime, wordTokens_append, wordTokens_primeRun,
      wordTokens_script, List.append_assoc, List.cons_append, List.reverse_append,
      List.reverse_cons, List.reverse_replicate, List.nil_append]
    refine (bind_ok (takePrimes_eq primes (noPrime_markToken _ _))).trans ?_
    refine (bind_ok (script?_some .subscript sub ..)).trans ?_
    refine (bind_ok (takePrimes_eq morePrimes noPrime)).trans ?_
    exact bind_ok (script?_none _ noSup)
  | subSup primes morePrimes sub sup =>
    simp only [wordTokens_append, wordTokens_primeRun, wordTokens_script, wordTokens_nil,
      List.append_assoc, List.cons_append, List.reverse_append, List.reverse_cons,
      List.reverse_replicate, List.nil_append, List.append_nil]
    refine (bind_ok (takePrimes_eq primes (noPrime_markToken _ _))).trans ?_
    refine (bind_ok (script?_some .subscript sub ..)).trans ?_
    refine (bind_ok (takePrimes_eq morePrimes (noPrime_markToken _ _))).trans ?_
    exact bind_ok (script?_some .superscript sup ..)
  | sup primes sup =>
    have noSub : rest.head? ≠ some (markToken .subscript) := closed (some .subscript) rfl
    simp only [wordTokens_append, wordTokens_primeRun, wordTokens_script, wordTokens_nil,
      List.append_assoc, List.cons_append, List.reverse_append, List.reverse_cons,
      List.reverse_replicate, List.nil_append, List.append_nil]
    refine (bind_ok (takePrimes_eq primes (noPrime_markToken _ _))).trans ?_
    refine (bind_ok (script?_none _ (by simp [markToken]))).trans ?_
    refine (bind_ok (script?_some .superscript sup ..)).trans ?_
    exact refusePrime_bind_congr (bind_ok (script?_none _ noSub))
  | supSub primes sup sub =>
    simp only [wordTokens_append, wordTokens_primeRun, wordTokens_script, wordTokens_nil,
      List.append_assoc, List.cons_append, List.reverse_append, List.reverse_cons,
      List.reverse_replicate, List.nil_append, List.append_nil]
    refine (bind_ok (takePrimes_eq primes (noPrime_markToken _ _))).trans ?_
    refine (bind_ok (script?_none _ (by simp [markToken]))).trans ?_
    refine (bind_ok (script?_some .superscript sup ..)).trans ?_
    refine (bind_ok (refusePrime_ok (noPrime_markToken _ _))).trans ?_
    exact bind_ok (script?_some .subscript sub ..)

/-- What an item starts with is what its letter stands for. -/
theorem head?_tokens (item : ScriptItem options) (tail : List Token) :
    (item.tokens ++ tail).head? = some (letterToken item.mark?) := by
  cases item <;> rfl

theorem letterToken_injective : Function.Injective letterToken := by
  intro letter other same
  rcases letter with _ | _ | _ <;> rcases other with _ | _ | _ <;>
    simp_all [letterToken, markToken, Token.prime]

/-- Nothing is added to the scripts where none of them begins. -/
theorem Closed.of_settled (settled : Settled rest) : Closed scripts rest := by
  rintro (_ | mark) -
  · exact (settled_iff.mp settled).1
  · exact settled.absent mark

/-- Nothing is added to the scripts where an item begins that they do not admit. -/
theorem Closed.of_item {item : ScriptItem options} (refuses : ¬ Admits scripts item.mark?)
    (tail : List Token) : Closed scripts (item.tokens ++ tail) := by
  intro letter admits same
  rw [head?_tokens] at same
  rw [letterToken_injective (Option.some.inj same)] at refuses
  exact refuses admits

/-- The reader goes past a base in braces to its scripts. -/
theorem scripted_braced (base : Body options) (before rest : List Token) :
    scripted (operand options) ⟨before, braced base.tokens ++ rest⟩ =
      (do
        let attached ← Parser.scripts (operand options)
        refuseScriptMark
        return attached.attach base.node : Reader Node)
      ⟨(braced base.tokens).reverse ++ before, rest⟩ :=
  bind_ok (operand_braced base before rest)

/-- A word in order is taken as a whole. -/
theorem Arranged.scripted_eq (arranged : Arranged word scripts) (base : Body options)
    (settled : Settled rest) :
    scripted (operand options) ⟨before, braced base.tokens ++ (wordTokens word ++ rest)⟩ =
      .ok (wordNode base.node word)
        ⟨(wordTokens word).reverse ++ ((braced base.tokens).reverse ++ before), rest⟩ := by
  obtain ⟨noPrime, unmarked⟩ := settled_iff.mp settled
  rw [scripted_braced, bind_eq (arranged.scripts_run (.of_settled settled)),
    bind_ok (refusePrime_return _ noPrime), bind_ok (refuseScriptMark_ok unmarked),
    arranged.attach_eq]
  rfl

/-- An item that the scripts do not admit is refused. -/
theorem Arranged.scripted_refused (arranged : Arranged word scripts) (base : Body options)
    {item : ScriptItem options} (refuses : ¬ Admits scripts item.mark?) (tail : List Token) :
    ∃ cause stopped,
      scripted (operand options)
          ⟨before, braced base.tokens ++ (wordTokens word ++ (item.tokens ++ tail))⟩ =
        .error cause stopped ∧ cause.message = item.refusal := by
  rw [scripted_braced, bind_eq (arranged.scripts_run (.of_item refuses tail))]
  cases item with
  | prime => exact ⟨_, _, bind_error (bind_error (refusePrime_error _ tail)), rfl⟩
  | script mark body =>
    have noPrime := noPrime_markToken mark (braced body.tokens ++ tail)
    refine ⟨_, _, (bind_ok (refusePrime_return _ noPrime)).trans
      (bind_error (refuseScriptMark_error mark _ _)), ?_⟩
    cases mark <;> rfl

theorem InOrder.scripted_eq (ordered : InOrder word) (base : Body options)
    (settled : Settled rest) :
    scripted (operand options) ⟨before, braced base.tokens ++ (wordTokens word ++ rest)⟩ =
      .ok (wordNode base.node word)
        ⟨(braced base.tokens ++ wordTokens word).reverse ++ before, rest⟩ := by
  obtain ⟨scripts, arranged⟩ := inOrder_iff.mp ordered
  rw [arranged.scripted_eq base settled, List.reverse_append, List.append_assoc]

/-- The item at which a word leaves the order is refused, whatever follows it. -/
theorem LeavesAt.scripted_refused {item : ScriptItem options} (leaves : LeavesAt word item)
    (base : Body options) :
    ∃ cause stopped,
      scripted (operand options) ⟨before, braced base.tokens ++ (wordTokens word ++ rest)⟩ =
        .error cause stopped ∧ cause.message = item.refusal := by
  obtain ⟨front, others, rfl, ordered, unordered⟩ := leaves
  obtain ⟨scripts, arranged⟩ := inOrder_iff.mp ordered
  have refuses : ¬ Admits scripts item.mark? := fun admits =>
    unordered (arranged.inOrder_append admits)
  have split : wordTokens (front ++ item :: others) ++ rest =
      wordTokens front ++ (item.tokens ++ (wordTokens others ++ rest)) := by
    simp [wordTokens]
  rw [split]
  exact arranged.scripted_refused base refuses _

/-- The order of the items does not show in the formula. -/
theorem InOrder.wordNode_eq {other : List (ScriptItem options)} (ordered : InOrder word)
    (otherOrdered : InOrder other) (primes : wordPrimes other = wordPrimes word)
    (bodies : ∀ mark, wordScript? mark other = wordScript? mark word) (base : Node) :
    wordNode base other = wordNode base word := by
  obtain ⟨scripts, arranged⟩ := inOrder_iff.mp ordered
  obtain ⟨otherScripts, otherArranged⟩ := inOrder_iff.mp otherOrdered
  rw [← arranged.attach_eq, ← otherArranged.attach_eq, arranged.scripts_eq,
    otherArranged.scripts_eq, primes, bodies, bodies]

end Runs

/-- Primes and scripts after a base in braces are accepted exactly if they come in one of the
orders of `scriptOrder`. They are then taken as a whole, and the formula depends on the number
of primes, the subscript and the superscript only. Otherwise the first item that leaves the
orders is refused, as a double subscript if it is one and as a double superscript if it is a
superscript or a prime. -/
theorem scripts_accepted_iff_inOrder (options : ParseOptions) (base : Body options)
    (word : List (ScriptItem options)) (before rest : List Token) (settled : Settled rest) :
    let read (word : List (ScriptItem options)) := scripted (operand options)
      ⟨before, braced base.tokens ++ (wordTokens word ++ rest)⟩
    ((∃ node next, read word = .ok node next) ↔ InOrder word) ∧
    (InOrder word → read word = .ok (wordNode base.node word)
      ⟨(braced base.tokens ++ wordTokens word).reverse ++ before, rest⟩) ∧
    (∀ other, InOrder word → InOrder other → wordPrimes other = wordPrimes word →
      (∀ mark, wordScript? mark other = wordScript? mark word) →
      ∃ node next otherNext, read word = .ok node next ∧ read other = .ok node otherNext) ∧
    (¬ InOrder word → ∃ item, LeavesAt word item) ∧
    ∀ item, LeavesAt word item →
      ∃ cause stopped, read word = .error cause stopped ∧ cause.message = item.refusal := by
  intro read
  have taken {word : List (ScriptItem options)} (ordered : InOrder word) :
      read word = .ok (wordNode base.node word)
        ⟨(braced base.tokens ++ wordTokens word).reverse ++ before, rest⟩ :=
    ordered.scripted_eq base settled
  refine ⟨⟨?_, fun ordered => ⟨_, _, taken ordered⟩⟩, taken, ?_, exists_leavesAt,
    fun item leaves => leaves.scripted_refused base⟩
  · rintro ⟨node, next, accepted⟩
    by_contra unordered
    obtain ⟨item, leaves⟩ := exists_leavesAt unordered
    obtain ⟨cause, stopped, refused, -⟩ := leaves.scripted_refused base
    cases accepted.symm.trans refused
  · intro other ordered otherOrdered primes bodies
    have same := ordered.wordNode_eq otherOrdered primes bodies base.node
    exact ⟨_, _, _, taken ordered, same ▸ taken otherOrdered⟩

/-- The letter `x` as a formula, read with one level where three are allowed. -/
def letterBody : Body { symbols := [], maxDepth := 3 } where
  tokens := [⟨.element, "x"⟩]
  node := .leaf .element "x"
  limit := 1
  limit_lt := by decide
  parsed := by cbv

/-- Primes on both sides of a subscript are added up, and a prime after a superscript is
refused. -/
theorem scripts_accepted_around_primes :
    let mixed : List (ScriptItem { symbols := [], maxDepth := 3 }) :=
      [.prime, .script .subscript letterBody, .prime, .script .superscript letterBody]
    let read (word : List (ScriptItem { symbols := [], maxDepth := 3 })) :=
      scripted (operand { symbols := [], maxDepth := 3 })
        ⟨[], braced letterBody.tokens ++ (wordTokens word ++ [])⟩
    Settled [] ∧
    read mixed = .ok (.supsub "" (.leaf .element "x")
        (some (.ordgroup "" [.symbol "\\prime", .symbol "\\prime", .leaf .element "x"]))
        (some (.leaf .element "x")))
      ⟨(braced letterBody.tokens ++ wordTokens mixed).reverse ++ [], []⟩ ∧
    ∃ cause stopped, read (mixed ++ [.prime]) = .error cause stopped ∧
      cause.message = "Double superscript" := by
  intro mixed read
  have settled : Settled [] := by simp [Settled]
  have ordered : InOrder mixed := by decide
  have leaves : LeavesAt (mixed ++ [.prime]) .prime := ⟨mixed, [], rfl, ordered, by decide⟩
  obtain ⟨-, taken, -⟩ := scripts_accepted_iff_inOrder _ letterBody mixed [] [] settled
  obtain ⟨-, -, -, -, refused⟩ :=
    scripts_accepted_iff_inOrder _ letterBody (mixed ++ [.prime]) [] [] settled
  exact ⟨settled, taken ordered, refused _ leaves⟩

end MathMarkup.Tex.Grammar
