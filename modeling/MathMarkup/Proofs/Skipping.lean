import MathMarkup.Proofs.Printing

/-!
# Scans that pass over what is read

A scan for pairs looks at few tokens. `Skipping` collects what a scan has to pass over:
tokens that are no half of a pair, and pairs around what it passes over. Such a scan
passes over everything that is read.
-/

namespace MathMarkup.Tex.Grammar

/-- The relation holds between tokens and what a scan of pairs leaves of them. -/
structure Skipping (skips : List Token → List Token → Prop) : Prop where
  refl (tokens : List Token) : skips tokens tokens
  trans {first second third : List Token} :
    skips first second → skips second third → skips first third
  plain {token : Token} (noHalf : isHalf token = false) (rest : List Token) :
    skips (token :: rest) rest
  split (tokens : List Token) : skips tokens (splitFirst tokens)
  whole {body : List Token} (inside : skips body []) (rest : List Token) :
    skips (body ++ rest) rest
  braces {body : List Token} (inside : skips body []) (rest : List Token) :
    skips (.openBrace :: body ++ .closeBrace :: rest) rest
  delimiters {body : List Token} (inside : skips body []) (rest : List Token) :
    skips (.left :: body ++ .right :: rest) rest
  environment {name : String} {tokens inside rest : List Token} {columns : Nat}
    (split : tokens =
      inside ++ .endEnvironment :: .openBrace :: ⟨.text, name⟩ :: .closeBrace :: rest)
    (specification : Parser.columnSpecificationLength name tokens = .ok columns)
    (body : skips (Parser.withoutTrailingLayout
      (inside.drop (columns + Token.layoutLength (tokens.drop columns)))) []) :
    skips (.beginEnvironment :: .openBrace :: ⟨.text, name⟩ :: .closeBrace :: tokens) rest

section Skipping

variable {skips : List Token → List Token → Prop} {options : ParseOptions} {inner : Reading}

theorem noHalf_layout {layout : List Token} (passed : ∀ blank ∈ layout, blank.isLayout = true) :
    ∀ token ∈ layout, isHalf token = false := by
  intro token member
  rcases kind_of_isLayout (passed token member) with isSpace | isNewline
  · exact isHalf_of_kind (by simp [isSpace]) (by simp [isSpace])
  · exact isHalf_of_kind (by simp [isNewline]) (by simp [isNewline])

theorem noHalf_of_leafOf? {token : Token} {node : Node} (plain : leafOf? token = some node) :
    isHalf token = false := by
  obtain ⟨kind, value⟩ := token
  cases kind with
  | command => cases plain
  | control =>
    have listed : value ∈ ["\\\\", "\\,", "&"] := by
      by_contra unlisted
      simp [leafOf?, unlisted] at plain
    simp only [List.mem_cons, List.not_mem_nil, or_false] at listed
    rcases listed with rfl | rfl | rfl <;> decide
  | element | unknown | text | comment | whitespace | newline => rfl

theorem Skipping.append (skipping : Skipping skips) {tokens : List Token}
    (noHalf : ∀ token ∈ tokens, isHalf token = false) (rest : List Token) :
    skips (tokens ++ rest) rest := by
  induction tokens with
  | nil => exact skipping.refl rest
  | cons token others inductionHypothesis =>
    exact skipping.trans (skipping.plain (noHalf token List.mem_cons_self) _)
      (inductionHypothesis fun other member => noHalf other (List.mem_cons_of_mem _ member))

theorem Skipping.primes (skipping : Skipping skips) (count : Nat) (rest : List Token) :
    skips (List.replicate count .prime ++ rest) rest :=
  skipping.append (fun token member => by rw [List.eq_of_mem_replicate member]; rfl) rest

/-- Primes and a script mark after them. -/
theorem Skipping.mark (skipping : Skipping skips) (primes : Nat) (mark : Token.ScriptMark)
    (rest : List Token) : skips (List.replicate primes .prime ++ markToken mark :: rest) rest :=
  skipping.trans (skipping.primes primes _) (skipping.plain (by cases mark <;> rfl) rest)

theorem Skipping.bracedText (skipping : Skipping skips) (content : String) (rest : List Token) :
    skips (.openBrace :: ⟨.text, content⟩ :: .closeBrace :: rest) rest := by
  have text : skips [⟨.text, content⟩] [] := skipping.plain rfl []
  exact skipping.braces text rest

section Constructs

variable (skipping : Skipping skips)
  (passed : ∀ ⦃input node rest⦄, inner input node rest → skips input rest)
  {input rest : List Token} {node : Node}

include skipping passed

theorem ScriptsOf.skipped {scripts : Parser.Scripts}
    (attached : ScriptsOf inner input scripts rest) : skips input rest := by
  cases attached with
  | none primes rest => exact skipping.primes primes rest
  | sub primes morePrimes script =>
    exact skipping.trans (skipping.mark primes .subscript _)
      (skipping.trans (passed script) (skipping.primes morePrimes rest))
  | subSup primes morePrimes first second =>
    exact skipping.trans (skipping.mark primes .subscript _) (skipping.trans (passed first)
      (skipping.trans (skipping.mark morePrimes .superscript _) (passed second)))
  | sup primes script =>
    exact skipping.trans (skipping.mark primes .superscript _) (passed script)
  | supSub primes first second =>
    exact skipping.trans (skipping.mark primes .superscript _) (skipping.trans (passed first)
      (skipping.trans (skipping.mark 0 .subscript _) (passed second)))

theorem Parts.skipped {parts : List Node} (read : Parts inner input parts) : skips input [] := by
  induction read with
  | nil => exact skipping.refl []
  | cons first others inductionHypothesis =>
    obtain ⟨base, attached, -⟩ := first
    exact skipping.trans (passed base)
      (skipping.trans (attached.skipped skipping passed) inductionHypothesis)

theorem Sequence.skipped (read : Sequence inner options input node) : skips input [] := by
  obtain ⟨partsRead, -⟩ := read
  exact Parts.skipped skipping passed partsRead

theorem Argument.skipped (read : Argument inner input node rest) : skips input rest := by
  obtain ⟨layoutPassed, solid, inside, read⟩ := read
  exact skipping.trans (skipping.append (noHalf_layout layoutPassed) _)
    (skipping.trans (skipping.split _) (passed read))

theorem IndexAt.skipped {index : Option Node} (read : IndexAt inner options input index rest) :
    skips input rest := by
  cases read with
  | @some layout body rest index layoutPassed balanced inside =>
    have opening := skipping.append (noHalf_layout layoutPassed)
      (.openBracket :: (body ++ .closeBracket :: rest))
    have bracket : skips (.openBracket :: (body ++ .closeBracket :: rest)) _ :=
      skipping.plain rfl _
    have index := skipping.whole (inside.skipped skipping passed) (.closeBracket :: rest)
    have closing : skips (.closeBracket :: rest) rest := skipping.plain rfl rest
    rw [List.append_assoc]
    exact skipping.trans opening (skipping.trans bracket (skipping.trans index closing))
  | none absent => exact skipping.refl _

theorem CommandAt.skipped {command : String}
    (read : CommandAt inner options command input node rest) : skips input rest := by
  cases read with
  | constant arity single => exact skipping.refl _
  | unary arity read =>
    cases read with
    | text isText content rest => exact skipping.bracedText content rest
    | operator isOperator content rest => exact skipping.bracedText content rest
    | root isRoot indexRead argument =>
      exact skipping.trans (indexRead.skipped skipping passed) (argument.skipped skipping passed)
    | other math argument => exact argument.skipped skipping passed
  | binary arity firstArgument secondArgument =>
    exact skipping.trans (firstArgument.skipped skipping passed)
      (secondArgument.skipped skipping passed)

theorem Delimited.skipped (read : Delimited inner options input node rest) :
    skips (.left :: input) rest := by
  obtain ⟨layoutPassed, opens, balanced, inside, morePassed, closes⟩ := read
  rename_i layout body moreLayout opening closing node
  have opened : skips (layout ++ opening :: body) [] :=
    skipping.trans (skipping.append (noHalf_layout layoutPassed) _)
      (skipping.trans (skipping.plain (isHalf_delimiter opens) _) (inside.skipped skipping passed))
  have closed : skips (moreLayout ++ closing :: rest) rest :=
    skipping.trans (skipping.append (noHalf_layout morePassed) _)
      (skipping.plain (isHalf_delimiter closes) rest)
  simpa using skipping.trans (skipping.delimiters opened (moreLayout ++ closing :: rest)) closed

theorem Operand.skipped (read : Operand options inner input node rest) : skips input rest := by
  cases read with
  | leaf plain => exact skipping.plain (noHalf_of_leafOf? plain) rest
  | missingBase mark rest => exact skipping.refl _
  | group balanced inside => exact skipping.braces (inside.skipped skipping passed) rest
  | command read =>
    exact skipping.trans (skipping.plain (isHalf_command read.single) _)
      (read.skipped skipping passed)
  | leftRight read => exact read.skipped skipping passed
  | environment read =>
    obtain ⟨split, balanced, specification, ⟨parts⟩⟩ := read
    exact skipping.environment split specification (Parts.skipped skipping passed parts)

end Constructs

theorem Reads.skipped (skipping : Skipping skips) (options : ParseOptions) (depth : Nat)
    ⦃input : List Token⦄ ⦃node : Node⦄ ⦃rest : List Token⦄
    (read : Reads options depth input node rest) : skips input rest := by
  induction depth generalizing input node rest with
  | zero => exact read.elim
  | succ depth inductionHypothesis => exact Operand.skipped skipping inductionHypothesis read

/-- A scan that skips what it should passes over all the tokens of a formula. -/
theorem Skipping.parsed (skipping : Skipping skips) {tokens : List Token} {tree : Node}
    (parsed : parseTokens options tokens = .ok tree) : skips tokens [] :=
  (parseTokens_eq_ok_iff.mp parsed).skipped skipping (Reads.skipped skipping options _)

end Skipping

end MathMarkup.Tex.Grammar
