import MathMarkup.Proofs.Shape

/-!
# The height of parsed trees

An operand inside another one can stand four levels lower in the tree: below the call or
the delimiters around it, the group of a sequence, the node of its scripts and the group of
its primes. So the nesting that is allowed bounds the height of a parsed tree, and the bound
is met.
-/

namespace MathMarkup.Tex

namespace Node

mutual

/-- The number of levels of a tree. -/
def height : Node → Nat
  | leaf _ _ => 1
  | ordgroup _ args => heightOfEach args + 1
  | supsub _ base sup sub =>
    max (height base) (max (heightOfOptional sup) (heightOfOptional sub)) + 1
  | unaryFunc _ arg index => max (height arg) (heightOfOptional index) + 1
  | binaryFunc _ first second => max (height first) (height second) + 1
  | leftright _ opening body closing =>
    max (height opening) (max (height body) (height closing)) + 1
  | beginend _ rows => heightOfRows rows + 1

/-- The levels of a tree that may be absent. -/
def heightOfOptional : Option Node → Nat
  | none => 0
  | some node => height node

/-- The levels of the highest of some trees. -/
def heightOfEach : List Node → Nat
  | [] => 0
  | node :: rest => max (height node) (heightOfEach rest)

/-- The levels of the highest cell of some rows. -/
def heightOfRows : List (List Node) → Nat
  | [] => 0
  | row :: rest => max (heightOfEach row) (heightOfRows rest)

end

theorem height_pos (node : Node) : 0 < node.height := by
  cases node <;> simp [height]

theorem heightOfOptional_le_iff {node : Option Node} {limit : Nat} :
    heightOfOptional node ≤ limit ↔ ∀ present ∈ node, present.height ≤ limit := by
  cases node <;> simp [heightOfOptional]

theorem heightOfEach_le_iff {nodes : List Node} {limit : Nat} :
    heightOfEach nodes ≤ limit ↔ ∀ node ∈ nodes, node.height ≤ limit := by
  induction nodes with
  | nil => simp [heightOfEach]
  | cons node rest inductionHypothesis => simp [heightOfEach, inductionHypothesis]

theorem heightOfRows_le_iff {rows : List (List Node)} {limit : Nat} :
    heightOfRows rows ≤ limit ↔ ∀ row ∈ rows, ∀ node ∈ row, node.height ≤ limit := by
  induction rows with
  | nil => simp [heightOfRows]
  | cons row rest inductionHypothesis =>
    simp [heightOfRows, heightOfEach_le_iff, inductionHypothesis]

/-- Parts side by side are at most one level higher. -/
theorem height_group_le {parts : List Node} {limit : Nat}
    (each : ∀ part ∈ parts, part.height ≤ limit) : (group parts).height ≤ limit + 1 := by
  match parts with
  | [] => exact Nat.le_add_left 1 limit
  | [part] => exact Nat.le_succ_of_le (each part List.mem_cons_self)
  | first :: second :: rest => exact Nat.succ_le_succ (heightOfEach_le_iff.mpr each)

theorem height_cell_le {parts : List Node} {limit : Nat}
    (each : ∀ part ∈ parts, part.height ≤ limit) : (Grid.cell parts).height ≤ limit + 1 := by
  cases parts with
  | nil => exact Nat.le_add_left 1 limit
  | cons first rest => exact height_group_le each

end Node

namespace Grammar

open Node

section Heights

variable {options : ParseOptions} {inner : Reading} {limit : Nat}

/-- Primes and a superscript are at most one level higher than the superscript. -/
theorem height_superscript_le {scripts : Parser.Scripts} (positive : 0 < limit)
    (supHeight : ∀ script ∈ scripts.sup, script.height ≤ limit) :
    ∀ script ∈ scripts.superscript, script.height ≤ limit + 1 := by
  unfold Parser.Scripts.superscript
  split
  · intro script member
    exact Nat.le_succ_of_le (supHeight script member)
  · rintro script ⟨⟩
    refine height_group_le fun part member => ?_
    rcases List.mem_append.mp member with isPrime | isScript
    · rw [List.eq_of_mem_replicate isPrime]
      exact positive
    · exact supHeight part (Option.mem_toList.mp isScript)

/-- A base with scripts is at most two levels higher than each of them. -/
theorem height_attach_le {scripts : Parser.Scripts} {base : Node} (baseHeight : base.height ≤ limit)
    (supHeight : ∀ script ∈ scripts.sup, script.height ≤ limit)
    (subHeight : ∀ script ∈ scripts.sub, script.height ≤ limit) :
    (scripts.attach base).height ≤ limit + 2 := by
  have positive : 0 < limit := Nat.lt_of_lt_of_le (height_pos base) baseHeight
  have withPrimes := heightOfOptional_le_iff.mpr (height_superscript_le positive supHeight)
  have below := heightOfOptional_le_iff.mpr subHeight
  unfold Parser.Scripts.attach
  split
  · omega
  · simp only [height]
    omega

/-- Everything that is read is lower than the limit, by three levels. -/
def Fits (limit : Nat) (reading : Reading) : Prop :=
  ∀ ⦃input node rest⦄, reading input node rest → node.height + 3 ≤ limit

theorem Scripted.height_lt (fits : Fits limit inner) ⦃input : List Token⦄ ⦃node : Node⦄
    ⦃rest : List Token⦄ (read : Scripted inner input node rest) : node.height < limit := by
  obtain ⟨base, attached, -⟩ := read
  have baseFits := fits base
  obtain ⟨supFits, subFits⟩ := attached.all fits
  obtain ⟨bound, rfl⟩ : ∃ bound, limit = bound + 3 := ⟨limit - 3, by omega⟩
  exact Nat.lt_succ_of_le (height_attach_le (Nat.le_of_add_le_add_right baseFits)
    (fun script member => Nat.le_of_add_le_add_right (supFits script member))
    fun script member => Nat.le_of_add_le_add_right (subFits script member))

variable (positive : 0 < limit)

include positive

theorem Sequence.height_le {input : List Token} {node : Node} (fits : Fits limit inner)
    (read : Sequence inner options input node) : node.height ≤ limit := by
  obtain ⟨partsRead, -⟩ := read
  obtain ⟨bound, rfl⟩ : ∃ bound, limit = bound + 1 := ⟨limit - 1, by omega⟩
  refine height_group_le fun part member => ?_
  exact Nat.le_of_lt_succ (partsRead.all (Scripted.height_lt fits) part (List.mem_filter.mp member).1)

theorem Rows.height_le {input : List Token} {rows : List (List Node)} (fits : Fits limit inner)
    (read : Rows inner input rows) : heightOfRows rows ≤ limit := by
  obtain ⟨partsRead⟩ := read
  obtain ⟨bound, rfl⟩ : ∃ bound, limit = bound + 1 := ⟨limit - 1, by omega⟩
  have cells := Grid.cells_ofParts (·.height ≤ bound) fun part member _ =>
    Nat.le_of_lt_succ (partsRead.all (Scripted.height_lt fits) part member)
  rw [heightOfRows_le_iff]
  intro row isRow node isCell
  obtain ⟨items, rfl, each⟩ := cells row isRow node isCell
  exact height_cell_le each

omit positive in
theorem Argument.fits (fits : Fits limit inner) : Fits limit (Argument inner) := by
  rintro input node rest ⟨passed, solid, inside, read⟩
  exact fits read

theorem IndexAt.height_le {input rest : List Token} {index : Option Node}
    (fits : Fits limit inner) (read : IndexAt inner options input index rest) :
    heightOfOptional index ≤ limit := by
  cases read with
  | some passed balanced inside => exact inside.height_le positive fits
  | none absent => exact Nat.zero_le limit

theorem CommandAt.height_le {command : String} {input rest : List Token} {node : Node}
    (fits : Fits limit inner) (read : CommandAt inner options command input node rest) :
    node.height ≤ limit + 1 := by
  have argumentFits := Argument.fits fits
  cases read with
  | constant arity single => exact Nat.le_add_left 1 limit
  | unary arity read =>
    cases read with
    | text isText content rest => exact Nat.le_add_left 1 limit
    | operator isOperator content rest =>
      simp only [height, heightOfOptional]
      omega
    | root isRoot indexRead argument =>
      have indexHeight := indexRead.height_le positive fits
      have argHeight := argumentFits argument
      simp only [height]
      omega
    | other math argument =>
      have argHeight := argumentFits argument
      simp only [height, heightOfOptional]
      omega
  | binary arity firstArgument secondArgument =>
    have firstHeight := argumentFits firstArgument
    have secondHeight := argumentFits secondArgument
    simp only [height]
    omega

theorem Operand.height_le {input rest : List Token} {node : Node} (fits : Fits limit inner)
    (read : Operand options inner input node rest) : node.height ≤ limit + 1 := by
  cases read with
  | leaf plain =>
    obtain ⟨kind, content, rfl, -⟩ := eq_leaf_of_leafOf? plain
    exact Nat.le_add_left 1 limit
  | missingBase mark rest => exact Nat.le_add_left 1 limit
  | group balanced inside => exact Nat.le_succ_of_le (inside.height_le positive fits)
  | command read => exact read.height_le positive fits
  | leftRight read =>
    obtain ⟨passed, opens, balanced, inside, morePassed, closes⟩ := read
    have bodyHeight := inside.height_le positive fits
    simp only [height, Parser.delimiter]
    omega
  | environment read =>
    obtain ⟨split, balanced, specification, grid⟩ := read
    exact Nat.succ_le_succ (grid.height_le positive fits)

omit positive in
/-- Each level of nesting is worth four levels of the tree. -/
theorem Reads.fits (options : ParseOptions) (depth : Nat) :
    Fits (4 * depth + 1) (Reads options depth) := by
  induction depth with
  | zero => exact fun _ _ _ read => read.elim
  | succ depth inductionHypothesis =>
    intro input node rest read
    have lower := Operand.height_le (Nat.succ_pos _) inductionHypothesis read
    omega

end Heights

section Tall

/-- Letters and delimiters that nest to the given depth, with all that a level can hold: a
letter beside a letter whose superscript is a prime and what stands between the delimiters. -/
def tallTokens : Nat → List Token
  | 0 => []
  | depth + 1 =>
    [⟨.element, "x"⟩, .prime, markToken .superscript, .left, ⟨.element, "("⟩] ++
      (tallTokens depth ++ [.right, ⟨.element, ")"⟩, ⟨.element, "y"⟩])

/-- The tree of these tokens. -/
def tallTree : Nat → Node
  | 0 => .empty
  | depth + 1 =>
    .ordgroup "" [.supsub "" (.element "x") (some (.ordgroup "" [.symbol "\\prime",
      .leftright "" (.element "(") (tallTree depth) (.element ")")])) none, .element "y"]

theorem height_tallTree (depth : Nat) : (tallTree depth).height = 4 * depth + 1 := by
  induction depth with
  | zero => rfl
  | succ depth inductionHypothesis =>
    simp only [tallTree, height, heightOfEach, heightOfOptional, inductionHypothesis]
    omega

theorem balanced_tallTokens (depth : Nat) : Balanced .left .right (tallTokens depth) := by
  induction depth with
  | zero => exact .nil
  | succ depth inductionHypothesis => exact inductionHypothesis.insert _ _ (by decide)

theorem sequence_tallTokens (options : ParseOptions) (depth : Nat) :
    Sequence (Reads options depth) options (tallTokens depth) (tallTree depth) := by
  induction depth with
  | zero => exact .intro .nil (by simp)
  | succ depth inductionHypothesis =>
    have letter (name : String) (rest : List Token) :
        Reads options (depth + 1) (⟨.element, name⟩ :: rest) (.element name) rest :=
      .leaf rfl
    have noLayout : ∀ blank ∈ ([] : List Token), blank.isLayout = true := by simp
    have delimited : Reads options (depth + 1)
        (.left :: ⟨.element, "("⟩ :: (tallTokens depth ++
          .right :: ⟨.element, ")"⟩ :: [⟨.element, "y"⟩]))
        (.leftright "" (.element "(") (tallTree depth) (.element ")")) [⟨.element, "y"⟩] :=
      .leftRight (.intro noLayout (by decide) (balanced_tallTokens depth) inductionHypothesis
        noLayout (by decide))
    have settled : Settled [⟨.element, "y"⟩] := by simp [Settled, Token.prime, Token.scriptMark?]
    have first := Scripted.intro (letter "x" _) (.sup 1 delimited) settled
    have second := Scripted.intro (letter "y" []) (.none 0 []) (by simp [Settled])
    exact .intro (.cons first (.cons second .nil)) (by simp [Parser.Scripts.attach,
      Parser.Scripts.superscript, Grid.isCellMark])

end Tall

/-- The nesting that is allowed bounds the height of a parsed tree, and no lower bound holds:
a tree of exactly this height can be read. -/
theorem height_of_parseTokens (options : ParseOptions) :
    (∀ tokens tree, parseTokens options tokens = .ok tree →
      tree.height ≤ 4 * options.maxDepth.toNat + 1) ∧
    ∃ tokens tree, parseTokens options tokens = .ok tree ∧
      tree.height = 4 * options.maxDepth.toNat + 1 := by
  constructor
  · intro tokens tree parsed
    exact (parseTokens_eq_ok_iff.mp parsed).height_le (Nat.succ_pos _) (Reads.fits options _)
  · exact ⟨tallTokens _, tallTree _, parseTokens_eq_ok_iff.mpr (sequence_tallTokens options _),
      height_tallTree _⟩

theorem height_of_parseTokens_tall :
    parseTokens { symbols := [], maxDepth := 2 } (tallTokens 2) = .ok (tallTree 2) ∧
      (tallTree 2).height ≤ 9 := by
  have parsed : parseTokens { symbols := [], maxDepth := 2 } (tallTokens 2) = .ok (tallTree 2) := by
    cbv
  exact ⟨parsed, (height_of_parseTokens { symbols := [], maxDepth := 2 }).1 _ _ parsed⟩

end Grammar
end MathMarkup.Tex
