import MathMarkup.Proofs.Refusal
import MathMarkup.Proofs.WrittenLines

/-!
# Primes on the way from the source to the text

Primes are read as symbols in front of the superscript, converted with it as one group, and
taken out of the group again when it is written. What is left is the superscript as it is
without the primes, and the primes stand right behind the base.
-/

namespace MathMarkup.Typst

namespace Node

/-- The node is a prime, or a group with a prime in front. -/
def startsWithPrime : Node → Bool
  | group _ (first :: _) => first.isPrime
  | node => node.isPrime

theorem isPrime_of_not_startsWithPrime {node : Node} (unprimed : node.startsWithPrime = false) :
    node.isPrime = false := by
  cases node with
  | group content args => rfl
  | leaf | supsub | unaryFunc | binaryFunc | align | matrix => exact unprimed

/-- A superscript without primes in front is left as it is. -/
theorem splitPrimes_unprimed {sup : Option Node}
    (unprimed : ∀ node ∈ sup, node.startsWithPrime = false) : splitPrimes sup = (0, sup) := by
  cases sup with
  | none => rfl
  | some node =>
    have notPrime := unprimed node rfl
    cases node with
    | group content args =>
      have noPrimes : leadingPrimes args = 0 := by
        cases args with
        | nil => rfl
        | cons first rest =>
          have firstNot : first.isPrime = false := notPrime
          simp [leadingPrimes, firstNot]
      simp [splitPrimes, noPrimes]
    | leaf kind content =>
      have leafNot : (leaf kind content).isPrime = false := notPrime
      simp [splitPrimes, leafNot]
    | supsub | unaryFunc | binaryFunc | align | matrix => rfl

/-- The primes in front of a superscript are counted, and the superscript is left. -/
theorem splitPrimes_group (count : Nat) {sup : Option Node}
    (unprimed : ∀ node ∈ sup, node.isPrime = false) :
    splitPrimes (some (.group "" (List.replicate (count + 1) (.symbol primeSign) ++ sup.toList))) =
      (count + 1, sup) := by
  have arePrimes : ∀ node ∈ List.replicate (count + 1) (Node.symbol primeSign),
      node.isPrime = true := by
    intro node member
    rw [List.eq_of_mem_replicate member]
    rfl
  have stops : sup.toList.takeWhile isPrime = [] := by
    cases sup with
    | none => rfl
    | some node => simp [unprimed node rfl]
  have counted : leadingPrimes (List.replicate (count + 1) (.symbol primeSign) ++ sup.toList) =
      count + 1 := by
    rw [leadingPrimes, List.takeWhile_append_of_pos arePrimes, stops, List.append_nil,
      List.length_replicate]
  rw [splitPrimes, counted, List.drop_left' (List.length_replicate)]
  cases sup <;> rfl

/-- The pieces of scripts, with the primes of the superscript left out. -/
def piecesOfScripts (inCall : Bool) (sup sub : Option Node) : List Piece :=
  scriptPieces "_" sub (piecesOfOptional inCall sub)
    ++ scriptPieces "^" sup (piecesOfOptional inCall sup)
    ++ if ((sup <|> sub).map isSingle).getD false then [⟨.softSpace, ""⟩] else []

/-- A base, the primes that its superscript starts with, and the other scripts. -/
theorem pieces_supsub (inCall : Bool) (content : String) (base : Node) {sup sub rest : Option Node}
    {primes : Nat} (split : splitPrimes sup = (primes, rest)) :
    (supsub content base sup sub).pieces inCall =
      asBase base (base.pieces inCall) ++ List.replicate primes (.atom primeSign)
        ++ piecesOfScripts inCall rest sub := by
  have written := (splitWritten inCall sup).written
  rw [split] at written
  have raised : scriptPieces "^" rest (piecesAfterPrimes inCall sup) =
      scriptPieces "^" rest (piecesOfOptional inCall rest) := by
    cases rest with
    | none => rfl
    | some node => rw [written node rfl, piecesOfOptional]
  rw [pieces, scriptedPieces, split]
  simp only [raised, piecesOfScripts, List.append_assoc]

end Node
end MathMarkup.Typst

namespace MathMarkup.Conversion

open Tex (Node)

variable {settings : Settings}

/-- The superscript that primes in front of a superscript are folded into. -/
def foldedPrimes (count : Nat) (sup : Option Node) : Node :=
  .group (List.replicate count (.symbol "\\prime") ++ sup.toList)

section Conversion

/-- The settings spell a prime as the sign of a prime. -/
def Settings.SpellsPrime (settings : Settings) : Prop :=
  settings.symbols.find? "prime" = some Typst.primeSign

instance (settings : Settings) : Decidable settings.SpellsPrime :=
  inferInstanceAs (Decidable (_ = _))

theorem convert_prime (spelled : settings.SpellsPrime) (passed : List String) :
    convert settings (.symbol "\\prime") passed = .ok (.symbol Typst.primeSign) passed := by
  have spelling : spell settings.symbols "\\prime" = Typst.primeSign := by
    change (settings.symbols.find? "prime").getD "prime" = _
    rw [spelled]
    rfl
  rw [convert, leaf, spelling]
  rfl

theorem convertAll_cons {node : Node} {nodes : List Node} {first : Typst.Node}
    {others : List Typst.Node} {passed middle noted : List String}
    (firstGiven : convert settings node passed = .ok first middle)
    (othersGiven : convertAll settings nodes middle = .ok others noted) :
    convertAll settings (node :: nodes) passed = .ok (first :: others) noted := by
  rw [convertAll]
  simp only [bind, EStateM.bind, firstGiven, othersGiven]
  rfl

theorem convertAll_primes (spelled : settings.SpellsPrime) (count : Nat) {nodes : List Node}
    {others : List Typst.Node} {passed noted : List String}
    (given : convertAll settings nodes passed = .ok others noted) :
    convertAll settings (List.replicate count (.symbol "\\prime") ++ nodes) passed =
      .ok (List.replicate count (.symbol Typst.primeSign) ++ others) noted := by
  induction count with
  | zero => exact given
  | succ count inductionHypothesis =>
    exact convertAll_cons (convert_prime spelled passed) inductionHypothesis

theorem convertAll_toList {sup : Option Node} {above : Option Typst.Node}
    {passed noted : List String} (given : convertOptional settings sup passed = .ok above noted) :
    convertAll settings sup.toList passed = .ok above.toList noted := by
  cases sup with
  | none =>
    rw [convertOptional] at given
    cases given
    rfl
  | some node =>
    rw [convertOptional] at given
    simp only [bind, EStateM.bind] at given
    split at given
    · rename_i result middle converted
      cases given
      exact convertAll_cons converted rfl
    · cases given

/-- The folded superscript is converted to one that splits into the primes and what the
superscript is converted to. -/
theorem convert_foldedPrimes (spelled : settings.SpellsPrime) {count : Nat} (positive : 0 < count)
    {sup : Option Node} {above : Option Typst.Node} {passed noted : List String}
    (given : convertOptional settings sup passed = .ok above noted)
    (unprimed : ∀ node ∈ above, node.isPrime = false) :
    ∃ folded, convert settings (foldedPrimes count sup) passed = .ok folded noted ∧
      Typst.Node.splitPrimes (some folded) = (count, above) := by
  obtain ⟨count, rfl⟩ := Nat.exists_eq_add_one_of_ne_zero (Nat.ne_of_gt positive)
  have parts := convertAll_primes spelled (count + 1) (convertAll_toList given)
  unfold foldedPrimes
  cases tail : List.replicate count (Node.symbol "\\prime") ++ sup.toList with
  | nil =>
    -- A single prime is not put in a group.
    obtain ⟨noPrimes, noSup⟩ := List.append_eq_nil_iff.mp tail
    obtain rfl : count = 0 := by simpa using noPrimes
    obtain rfl : sup = none := by simpa using noSup
    rw [convertOptional] at given
    cases given
    exact ⟨_, convert_prime spelled passed, rfl⟩
  | cons second others =>
    rw [List.replicate_succ, List.cons_append, tail] at parts
    refine ⟨.group "" (List.replicate (count + 1) (.symbol Typst.primeSign) ++ above.toList), ?_,
      Typst.Node.splitPrimes_group count unprimed⟩
    rw [List.replicate_succ, List.cons_append, tail, Tex.Node.group, convert]
    · simp only [bind, EStateM.bind, parts]
      rfl
    all_goals simp

/-- What a base is converted to where it has scripts: nothing at all becomes an empty text. -/
def scriptBase (base : Node) (converted : Typst.Node) : Typst.Node :=
  match base with
  | .leaf .empty _ => .text ""
  | _ => converted

/-- Any base but a brace is converted by itself, and so are its scripts. -/
theorem convert_supsub_of_parts {content : String} {base : Node} {sup sub : Option Node}
    {under : Typst.Node} {above below : Option Typst.Node}
    {passed afterBase afterSup noted : List String}
    (noBrace : ∀ arg index, base ≠ .unaryFunc "\\overbrace" arg index ∧
      base ≠ .unaryFunc "\\underbrace" arg index)
    (baseGiven : convert settings base passed = .ok under afterBase)
    (supGiven : convertOptional settings sup afterBase = .ok above afterSup)
    (subGiven : convertOptional settings sub afterSup = .ok below noted) :
    convert settings (.supsub content base sup sub) passed =
      .ok (.supsub "" (scriptBase base under) above below) noted := by
  have assembled {converter : Converter Node Typst.Node} {result : Typst.Node}
      (given : converter passed = .ok result afterBase) :
      scripted converter (convertOptional settings sup) (convertOptional settings sub) passed =
        .ok (.supsub "" result above below) noted := by
    simp only [scripted, bind, EStateM.bind, given, supGiven, subGiven]
    rfl
  by_cases isEmpty : ∃ text, base = .leaf .empty text
  · obtain ⟨text, rfl⟩ := isEmpty
    rw [convert] at baseGiven
    cases baseGiven
    exact assembled rfl
  · have unchanged : scriptBase base under = under := by
      unfold scriptBase
      split
      · exact absurd ⟨_, rfl⟩ isEmpty
      · rfl
    rw [unchanged]
    rcases convert_supsub settings content base sup sub with
      ⟨text, rfl, -⟩ | ⟨arg, index, label, rfl, -⟩ | ⟨arg, index, label, rfl, -⟩ | ⟨-, converted⟩
    · exact absurd ⟨text, rfl⟩ isEmpty
    · exact absurd rfl (noBrace arg index).1
    · exact absurd rfl (noBrace arg index).2
    · rw [converted]
      exact assembled baseGiven

end Conversion

/-- Primes in front of a superscript, or of none, come out of the conversion as they went in:
they are split off again, and what is left is the superscript converted by itself. So a base
with scripts is written as without the primes, with the primes right behind the base. -/
theorem folded_primes_taken_back (settings : Settings) (spelled : settings.SpellsPrime)
    {count : Nat} (positive : 0 < count) :
    (∀ (sub sup : Option Node), (Tex.Parser.Scripts.mk count sub sup).superscript =
      some (foldedPrimes count sup)) ∧
    (∀ ⦃sup : Option Node⦄ ⦃above : Option Typst.Node⦄ ⦃passed noted : List String⦄,
      convertOptional settings sup passed = .ok above noted →
      (∀ node ∈ above, node.startsWithPrime = false) →
      ∃ folded, convert settings (foldedPrimes count sup) passed = .ok folded noted ∧
        Typst.Node.splitPrimes (some folded) = (count, above)) ∧
    ∀ (content : String) ⦃base : Node⦄ ⦃sup sub : Option Node⦄ ⦃under : Typst.Node⦄
      ⦃above below : Option Typst.Node⦄ ⦃passed afterBase afterSup noted : List String⦄,
      (∀ arg index, base ≠ .unaryFunc "\\overbrace" arg index ∧
        base ≠ .unaryFunc "\\underbrace" arg index) →
      convert settings base passed = .ok under afterBase →
      convertOptional settings sup afterBase = .ok above afterSup →
      convertOptional settings sub afterSup = .ok below noted →
      (∀ node ∈ above, node.startsWithPrime = false) →
      ∃ primed plain,
        convert settings (.supsub content base (some (foldedPrimes count sup)) sub) passed =
          .ok primed noted ∧
        convert settings (.supsub content base sup sub) passed = .ok plain noted ∧
        ∀ writer : Typst.Writer, ∃ scripts,
          let written := Typst.asBase (scriptBase base under)
            ((scriptBase base under).pieces (writer.openCalls > 0))
          (writer.append primed).queue =
            writer.queue ++ written ++ List.replicate count (.atom Typst.primeSign) ++ scripts ∧
          (writer.append plain).queue = writer.queue ++ written ++ scripts := by
  refine ⟨fun sub sup => ?_, fun sup above passed noted given unprimed => ?_, ?_⟩
  · obtain ⟨count, rfl⟩ := Nat.exists_eq_add_one_of_ne_zero (Nat.ne_of_gt positive)
    rfl
  · exact convert_foldedPrimes spelled positive given fun node member =>
      Typst.Node.isPrime_of_not_startsWithPrime (unprimed node member)
  · intro content base sup sub under above below passed afterBase afterSup noted noBrace baseGiven
      supGiven subGiven unprimed
    obtain ⟨folded, foldedGiven, split⟩ := convert_foldedPrimes spelled positive supGiven
      fun node member => Typst.Node.isPrime_of_not_startsWithPrime (unprimed node member)
    have someGiven : convertOptional settings (some (foldedPrimes count sup)) afterBase =
        .ok (some folded) afterSup := by
      rw [convertOptional]
      simp only [bind, EStateM.bind, foldedGiven]
      rfl
    refine ⟨_, _, convert_supsub_of_parts noBrace baseGiven someGiven subGiven,
      convert_supsub_of_parts noBrace baseGiven supGiven subGiven, fun writer =>
      ⟨Typst.Node.piecesOfScripts (writer.openCalls > 0) above below, ?_, ?_⟩⟩
    · rw [Typst.Writer.queue_append, Typst.Node.pieces_supsub _ _ _ split]
      simp only [List.append_assoc]
    · rw [Typst.Writer.queue_append,
        Typst.Node.pieces_supsub _ _ _ (Typst.Node.splitPrimes_unprimed unprimed)]
      simp only [List.append_assoc, List.replicate_zero, List.nil_append]

/-- Two primes in front of a superscript, on a letter that has a subscript too. -/
theorem folded_primes_taken_back_letter :
    let settings : Settings := { symbols := [("prime", "'")] }
    settings.SpellsPrime ∧
    convert settings (.element "x") [] = .ok (.symbol "x") [] ∧
    convertOptional settings (some (.element "2")) [] = .ok (some (.symbol "2")) [] ∧
    convertOptional settings (some (.element "i")) [] = .ok (some (.symbol "i")) [] ∧
    (∃ folded, convert settings (foldedPrimes 2 (some (.element "2"))) [] = .ok folded [] ∧
      Typst.Node.splitPrimes (some folded) = (2, some (.symbol "2"))) ∧
    ∃ primed plain,
      convert settings (.supsub "" (.element "x") (some (foldedPrimes 2 (some (.element "2"))))
        (some (.element "i"))) [] = .ok primed [] ∧
      convert settings (.supsub "" (.element "x") (some (.element "2")) (some (.element "i"))) [] =
        .ok plain [] ∧
      ∃ scripts,
        (Typst.Writer.append primed {}).queue = [.symbol "x", .atom "'", .atom "'"] ++ scripts ∧
        (Typst.Writer.append plain {}).queue = [.symbol "x"] ++ scripts := by
  intro settings
  have spelled : settings.SpellsPrime := by decide
  have letter : convert settings (.element "x") [] = .ok (.symbol "x") [] := by cbv
  have number : convertOptional settings (some (.element "2")) [] = .ok (some (.symbol "2")) [] := by
    cbv
  have index : convertOptional settings (some (.element "i")) [] = .ok (some (.symbol "i")) [] := by
    cbv
  have unprimed : ∀ node ∈ some (Typst.Node.symbol "2"), node.startsWithPrime = false := by
    rintro node ⟨⟩
    rfl
  obtain ⟨-, split, written⟩ := folded_primes_taken_back settings spelled Nat.two_pos
  obtain ⟨primed, plain, primedGiven, plainGiven, queues⟩ :=
    written "" (fun arg index => by simp) letter number index unprimed
  obtain ⟨scripts, primedQueue, plainQueue⟩ := queues {}
  exact ⟨spelled, letter, number, index, split number unprimed, primed, plain, primedGiven,
    plainGiven, scripts, primedQueue, plainQueue⟩

end MathMarkup.Conversion
