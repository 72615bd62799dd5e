import MathMarkup.Proofs.NumberSplits
import MathMarkup.Proofs.Sight

/-!
# Operands of scripts and of commands

Without braces a script and the argument of a command are one operand each. A command splits
a number before it reads its argument, and a script mark does not. From the same tokens both
take the same operand exactly if the tokens do not start with a number of several characters.
-/

namespace MathMarkup.Tex.Grammar

variable {options : ParseOptions} {reading : Reading}

section Operands

/-- There is one way to read an operand. -/
theorem Reads.unique {depth : Nat} {input rest last : List Token} {node other : Node}
    (read : Reads options depth input node rest) (again : Reads options depth input other last) :
    node = other ∧ rest = last := by
  have realizes := realizes_operandAt options depth input []
  obtain ⟨passed, taken⟩ := (realizes node rest).mpr read
  obtain ⟨morePassed, takenAgain⟩ := (realizes other last).mpr again
  cases taken.symm.trans takenAgain
  exact ⟨rfl, rfl⟩

theorem splitFirst_of_whole {token : Token}
    (whole : ¬ ∃ digit remainder, IsSplit token digit remainder) (tail : List Token) :
    splitFirst (token :: tail) = token :: tail := by
  rcases splitFirst_cons token tail with same | ⟨digit, remainder, split, -⟩
  · exact same
  · exact absurd ⟨digit, remainder, splitNumber?_eq_some split⟩ whole

/-- Where no layout stands, an argument is the operand that is there after a number is split. -/
theorem Argument.operand {token : Token} {tail rest : List Token} {node : Node}
    (read : Argument reading (token :: tail) node rest) (solid : token.isLayout = false) :
    reading (splitFirst (token :: tail)) node rest := by
  generalize starts : token :: tail = input at read
  obtain ⟨passed, -, -, read⟩ := read
  rename_i layout others next
  cases layout with
  | nil =>
    cases starts
    exact read
  | cons blank layout =>
    cases starts
    rw [passed token List.mem_cons_self] at solid
    cases solid

variable {depth : Nat} {token : Token} {tail rest last : List Token} {sup arg : Node}

/-- Of a number a script is the whole and an argument the first digit. -/
theorem operands_of_isSplit {digit remainder : Token} (isSplit : IsSplit token digit remainder)
    (script : Reads options depth (token :: tail) sup rest)
    (argument : Argument (Reads options (depth - 1)) (token :: tail) arg last) :
    (sup = .element token.value ∧ rest = tail) ∧
      arg = .element digit.value ∧ last = remainder :: tail := by
  have split := isSplit.splitFirst_eq tail
  obtain ⟨first, second, others, -, rfl, rfl, rfl⟩ := isSplit
  have operand := argument.operand rfl
  rw [split] at operand
  obtain _ | _ | depth := depth
  · exact script.elim
  · exact operand.elim
  · exact ⟨(operand_leaf_iff options rfl).mpr script, (operand_leaf_iff options rfl).mpr operand⟩

/-- Of any other tokens a script and an argument are the same operand. The levels that are
left differ, but more levels only allow more. -/
theorem operands_of_whole (whole : ¬ ∃ digit remainder, IsSplit token digit remainder)
    (solid : token.isLayout = false) (script : Reads options depth (token :: tail) sup rest)
    (argument : Argument (Reads options (depth - 1)) (token :: tail) arg last) :
    sup = arg ∧ rest = last := by
  have operand := argument.operand solid
  rw [splitFirst_of_whole whole] at operand
  have deeper := Reads.mono options.maxDepth (Nat.sub_le depth 1) _ _ _ operand
  exact script.unique deeper

end Operands

section Formulas

/-- A formula starts with the first part of its tokens. -/
theorem Sequence.first {token : Token} {tail : List Token} {tree : Node}
    (read : Sequence reading options (token :: tail) tree) :
    ∃ node rest parts, Scripted reading (token :: tail) node rest ∧
      tree = .group ((node :: parts).filter (Parser.keeps options)) := by
  obtain ⟨read, -⟩ := read
  cases read with
  | cons first others => exact ⟨_, _, _, first, rfl⟩

/-- Primes do not start with a mark. -/
theorem markToken_cons_eq {mark other : Token.ScriptMark} {primes : Nat} {tail input : List Token}
    (same : markToken mark :: tail = List.replicate primes .prime ++ markToken other :: input) :
    primes = 0 ∧ mark = other ∧ tail = input := by
  cases primes with
  | zero => cases mark <;> cases other <;> simp_all [markToken]
  | succ count => cases mark <;> cases same

/-- After the mark of a superscript the superscript is read first. -/
theorem ScriptsOf.superscript {tail rest : List Token} {scripts : Parser.Scripts}
    (attached : ScriptsOf reading (markToken .superscript :: tail) scripts rest)
    (settled : Settled rest) :
    ∃ sup sub last, reading tail sup last ∧ scripts = { sub, sup := some sup } := by
  generalize starts : markToken .superscript :: tail = input at attached
  cases attached with
  | none primes rest =>
    cases primes with
    | zero =>
      cases starts
      exact absurd rfl (settled.absent .superscript)
    | succ count => cases starts
  | sub primes morePrimes script => cases (markToken_cons_eq starts).2.1
  | subSup primes morePrimes first second => cases (markToken_cons_eq starts).2.1
  | sup primes script =>
    obtain ⟨rfl, -, rfl⟩ := markToken_cons_eq starts
    exact ⟨_, Option.none, _, script, rfl⟩
  | supSub primes first second =>
    obtain ⟨rfl, -, rfl⟩ := markToken_cons_eq starts
    exact ⟨_, _, _, first, rfl⟩

/-- The superscript of a letter in the formula is the operand after the mark. -/
theorem Sequence.superscript {depth : Nat} {value : String} {tail : List Token} {tree : Node}
    (read : Sequence (Reads options depth) options
      (⟨.element, value⟩ :: markToken .superscript :: tail) tree) :
    ∃ sup rest sub parts, Reads options depth tail sup rest ∧
      tree = .group (.supsub "" (.element value) (some sup) sub :: parts) := by
  obtain ⟨node, rest, parts, ⟨base, attached, settled⟩, rfl⟩ := read.first
  cases depth with
  | zero => exact base.elim
  | succ depth =>
    obtain ⟨rfl, rfl⟩ := (operand_leaf_iff options rfl).mpr base
    obtain ⟨sup, sub, last, script, rfl⟩ := attached.superscript settled
    exact ⟨sup, last, sub, _, script, rfl⟩

/-- Where no bracket stands, the argument of a root is read right after it. -/
theorem CommandAt.root {token : Token} {tail rest : List Token} {node : Node}
    (read : CommandAt reading options "\\sqrt" (token :: tail) node rest)
    (solid : token.isLayout = false) (noBracket : token ≠ .openBracket) :
    ∃ arg, Argument reading (token :: tail) arg rest ∧ node = .unaryFunc "\\sqrt" arg none := by
  generalize starts : token :: tail = input at read
  cases read with
  | constant arity single => exact absurd arity (by decide)
  | binary arity firstArgument secondArgument => exact absurd arity (by decide)
  | unary arity read =>
    cases read with
    | text isText content rest => exact absurd isText (by decide)
    | operator isOperator content rest => exact absurd isOperator (by decide)
    | other math argument => exact absurd rfl math.2.2
    | root isRoot indexRead argument =>
      cases indexRead with
      | none absent => exact ⟨_, argument, rfl⟩
      | @some layout body _ index passed balanced inside =>
        cases layout with
        | nil =>
          cases starts
          exact absurd rfl noBracket
        | cons blank layout =>
          cases starts
          rw [passed token List.mem_cons_self] at solid
          cases solid

/-- The argument of a root in the formula is the operand after the root. -/
theorem Sequence.root {depth : Nat} {token : Token} {tail : List Token} {tree : Node}
    (read : Sequence (Reads options depth) options (⟨.command, "\\sqrt"⟩ :: token :: tail) tree)
    (solid : token.isLayout = false) (noBracket : token ≠ .openBracket) :
    ∃ arg rest, ∃ scripts : Parser.Scripts, ∃ parts,
      Argument (Reads options (depth - 1)) (token :: tail) arg rest ∧
        tree = .group (scripts.attach (.unaryFunc "\\sqrt" arg none) :: parts) := by
  obtain ⟨node, rest, parts, ⟨base, attached, settled⟩, rfl⟩ := read.first
  cases depth with
  | zero => exact base.elim
  | succ depth =>
    have command := (operand_command_iff options (by decide) (by decide)).mpr base
    obtain ⟨arg, argument, rfl⟩ := command.root solid noBracket
    rw [List.filter_cons_of_pos (keeps_attach rfl _)]
    exact ⟨arg, _, _, _, argument, rfl⟩

end Formulas

end MathMarkup.Tex.Grammar

namespace MathMarkup.Tex

open MathMarkup.Tex.Parser

/-- A number is not its first digit. -/
theorem IsSplit.value_ne {number digit remainder : Token}
    (isSplit : IsSplit number digit remainder) : number.value ≠ digit.value := by
  obtain ⟨first, second, rest, -, rfl, rfl, -⟩ := isSplit
  intro same
  cases String.ofList_inj.mp same

/-- A letter with a superscript mark and a root, both before the same tokens, which start with
neither layout nor a bracket. The superscript and the argument are the same operand, and leave
the same tokens, exactly if no number of several characters comes first. Such a number is the
superscript as a whole, and its first digit is the argument. -/
theorem script_takes_argument_iff (options : ParseOptions) {token : Token} {tail : List Token}
    {scriptTree rootTree : Node} (solid : token.isLayout = false) (noBracket : token ≠ .openBracket)
    (scriptParsed : parseTokens options (⟨.element, "x"⟩ :: ⟨.control, "^"⟩ :: token :: tail) =
      .ok scriptTree)
    (rootParsed : parseTokens options (⟨.command, "\\sqrt"⟩ :: token :: tail) = .ok rootTree) :
    ∃ (sup arg : Node) (afterScript afterArgument : Cursor),
      script? (operand options) .superscript
          ⟨[⟨.element, "x"⟩], ⟨.control, "^"⟩ :: token :: tail⟩ = .ok (some sup) afterScript ∧
      argument (operandAt options (options.maxDepth.toNat - 1)) "\\sqrt"
          ⟨[⟨.command, "\\sqrt"⟩], token :: tail⟩ = .ok arg afterArgument ∧
      (∃ sub parts, scriptTree = .group (.supsub "" (.element "x") (some sup) sub :: parts)) ∧
      (∃ (scripts : Scripts) (parts : List Node),
        rootTree = .group (scripts.attach (.unaryFunc "\\sqrt" arg none) :: parts)) ∧
      (sup = arg ∧ afterScript.after = afterArgument.after ↔
        ¬ ∃ digit remainder, IsSplit token digit remainder) ∧
      ∀ digit remainder, IsSplit token digit remainder →
        (sup = .element token.value ∧ afterScript.after = tail) ∧
          arg = .element digit.value ∧ afterArgument.after = remainder :: tail := by
  obtain ⟨sup, rest, sub, parts, script, rfl⟩ :=
    (Grammar.parseTokens_eq_ok_iff.mp scriptParsed).superscript
  obtain ⟨arg, last, scripts, others, argument, rfl⟩ :=
    (Grammar.parseTokens_eq_ok_iff.mp rootParsed).root solid noBracket
  obtain ⟨passed, scriptRead⟩ := (Grammar.realizes_script (Grammar.realizes_operandAt options _)
    (Grammar.Reads.progresses options _) .superscript _ [⟨.element, "x"⟩] _ rest).mpr (.some script)
  obtain ⟨morePassed, argumentRead⟩ := (Grammar.realizes_argument
    (Grammar.realizes_operandAt options _) "\\sqrt" _ [⟨.command, "\\sqrt"⟩] arg last).mpr argument
  refine ⟨sup, arg, ⟨passed, rest⟩, ⟨morePassed, last⟩, scriptRead, argumentRead,
    ⟨sub, parts, rfl⟩, ⟨scripts, others, rfl⟩, ?_,
    fun digit remainder isSplit => Grammar.operands_of_isSplit isSplit script argument⟩
  constructor
  · rintro ⟨same, -⟩ ⟨digit, remainder, isSplit⟩
    obtain ⟨⟨rfl, -⟩, rfl, -⟩ := Grammar.operands_of_isSplit isSplit script argument
    exact isSplit.value_ne (Node.leaf.inj same).2
  · exact fun whole => Grammar.operands_of_whole whole solid script argument

/-- Before a number and a letter the script leaves the letter, and the argument the rest of the
number too. -/
theorem script_takes_argument_iff_number :
    parseTokens { symbols := [] } [⟨.element, "x"⟩, ⟨.control, "^"⟩, ⟨.element, "12"⟩, ⟨.element, "y"⟩] =
      .ok (.ordgroup "" [.supsub "" (.element "x") (some (.element "12")) none, .element "y"]) ∧
    parseTokens { symbols := [] } [⟨.command, "\\sqrt"⟩, ⟨.element, "12"⟩, ⟨.element, "y"⟩] =
      .ok (.ordgroup "" [.unaryFunc "\\sqrt" (.element "1") none, .element "2", .element "y"]) ∧
    ∃ (sup arg : Node) (afterScript afterArgument : Cursor),
      script? (operand { symbols := [] }) .superscript
          ⟨[⟨.element, "x"⟩], [⟨.control, "^"⟩, ⟨.element, "12"⟩, ⟨.element, "y"⟩]⟩ =
        .ok (some sup) afterScript ∧
      argument (operandAt { symbols := [] } 127) "\\sqrt"
          ⟨[⟨.command, "\\sqrt"⟩], [⟨.element, "12"⟩, ⟨.element, "y"⟩]⟩ = .ok arg afterArgument ∧
      (sup = .element "12" ∧ afterScript.after = [⟨.element, "y"⟩]) ∧
      arg = .element "1" ∧ afterArgument.after = [⟨.element, "2"⟩, ⟨.element, "y"⟩] := by
  have scriptParsed : parseTokens { symbols := [] }
      [⟨.element, "x"⟩, ⟨.control, "^"⟩, ⟨.element, "12"⟩, ⟨.element, "y"⟩] =
      .ok (.ordgroup "" [.supsub "" (.element "x") (some (.element "12")) none, .element "y"]) := by
    cbv
  have rootParsed : parseTokens { symbols := [] }
      [⟨.command, "\\sqrt"⟩, ⟨.element, "12"⟩, ⟨.element, "y"⟩] =
      .ok (.ordgroup "" [.unaryFunc "\\sqrt" (.element "1") none, .element "2", .element "y"]) := by
    cbv
  obtain ⟨sup, arg, afterScript, afterArgument, script, argument, -, -, -, split⟩ :=
    script_takes_argument_iff { symbols := [] } rfl (by decide) scriptParsed rootParsed
  have isSplit : IsSplit ⟨.element, "12"⟩ ⟨.element, "1"⟩ ⟨.element, "2"⟩ :=
    ⟨'1', '2', [], rfl, rfl, rfl, rfl⟩
  exact ⟨scriptParsed, rootParsed, sup, arg, afterScript, afterArgument, script, argument,
    split _ _ isSplit⟩

/-- The superscript is the whole number, and the argument of the root its first digit. -/
theorem script_takes_whole_number :
    parseTokens { symbols := [] } [⟨.element, "x"⟩, ⟨.control, "^"⟩, ⟨.element, "12"⟩] =
      .ok (.supsub "" (.element "x") (some (.element "12")) none) ∧
    parseTokens { symbols := [] } [⟨.command, "\\sqrt"⟩, ⟨.element, "12"⟩] =
      .ok (.ordgroup "" [.unaryFunc "\\sqrt" (.element "1") none, .element "2"]) := by
  constructor <;> cbv

end MathMarkup.Tex
