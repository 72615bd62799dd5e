import MathMarkup.Proofs.Outline
import MathMarkup.Proofs.Splitting

/-!
# Reading calls back

The pieces of a tree are a list, and only the parentheses and separators in it tell where
the arguments of a call are. `arguments?` and `rows?` read them from there: they look for
the partner of the parenthesis and split what is in between at the separators that stand
in no further parentheses. What they find is what was written for each argument.
-/

namespace MathMarkup.Typst

open Nesting

section Reading

/-- The piece is the sign, as a part of the notation or as a symbol. -/
def isSign (sign : String) (piece : Piece) : Bool :=
  (piece.kind == .atom || piece.kind == .symbol) && piece.content == sign

/-- What a parenthesis encloses, in the pieces after it. -/
def enclosed? (pieces : List Piece) : Option (List Piece) :=
  (closingOffset? (isSign "(") (isSign ")") pieces).map pieces.take

/-- The pieces between the signs that no parentheses enclose. -/
def splitAtSign (sign : String) (pieces : List Piece) : List (List Piece) :=
  split (isSign "(") (isSign ")") (isSign sign) pieces

/-- The arguments of a call, in the pieces after its parenthesis. -/
def arguments? (pieces : List Piece) : Option (List (List Piece)) :=
  (enclosed? pieces).map (splitAtSign ",")

/-- The cells of a matrix row by row, in the pieces after its parenthesis and setting. -/
def rows? (pieces : List Piece) : Option (List (List (List Piece))) :=
  (enclosed? pieces).map fun body => (splitAtSign ";" body).map (splitAtSign ",")

theorem enclosed?_append {body : List Piece} (balanced : Balanced (isSign "(") (isSign ")") body)
    (rest : List Piece) : enclosed? (body ++ .atom ")" :: rest) = some body := by
  have found := closingOffset?_eq_some_iff.mpr
    ⟨body, .atom ")", rest, rfl, rfl, balanced, by decide, by decide⟩
  rw [enclosed?, found]
  simp

end Reading

section Pieces

/-- The piece is no parenthesis and, in a call, no separator. -/
def isBare (inCall : Bool) (piece : Piece) : Bool :=
  !isSign "(" piece && !isSign ")" piece &&
    !(inCall && (isSign "," piece || isSign ";" piece))

/-- Pieces whose parentheses are nested and that, in a call, have separators only inside
of parentheses. -/
inductive Nested : Bool → List Piece → Prop where
  | nil (inCall : Bool) : Nested inCall []
  | sign {inCall : Bool} {piece : Piece} {rest : List Piece} (bare : isBare inCall piece = true)
      (others : Nested inCall rest) : Nested inCall (piece :: rest)
  | enclosed {inCall : Bool} {body rest : List Piece} (inside : Nested false body)
      (others : Nested inCall rest) : Nested inCall (parenthesized body ++ rest)

namespace Nested

variable {inCall : Bool}

theorem append {first second : List Piece} (firstNested : Nested inCall first)
    (secondNested : Nested inCall second) : Nested inCall (first ++ second) := by
  induction firstNested with
  | nil => exact secondNested
  | sign bare _ inductionHypothesis => exact .sign bare (inductionHypothesis secondNested)
  | enclosed inside _ _ inductionHypothesis =>
    rw [List.append_assoc]
    exact .enclosed inside (inductionHypothesis secondNested)

theorem single {piece : Piece} (bare : isBare inCall piece = true) : Nested inCall [piece] :=
  .sign bare (.nil inCall)

theorem parenthesized {body : List Piece} (inside : Nested false body) :
    Nested inCall (Typst.parenthesized body) := by
  simpa using Nested.enclosed inside (.nil inCall)

theorem signs {pieces : List Piece} (bare : ∀ piece ∈ pieces, isBare inCall piece = true) :
    Nested inCall pieces := by
  induction pieces with
  | nil => exact .nil inCall
  | cons piece rest inductionHypothesis =>
    rw [List.forall_mem_cons] at bare
    exact .sign bare.1 (inductionHypothesis bare.2)

theorem flatten {lists : List (List Piece)} (nested : ∀ pieces ∈ lists, Nested inCall pieces) :
    Nested inCall lists.flatten := by
  induction lists with
  | nil => exact .nil inCall
  | cons first others inductionHypothesis =>
    rw [List.forall_mem_cons] at nested
    exact nested.1.append (inductionHypothesis nested.2)

theorem intercalate {separator : Piece} (bare : isBare inCall separator = true)
    {lists : List (List Piece)} (nested : ∀ pieces ∈ lists, Nested inCall pieces) :
    Nested inCall (List.intercalate [separator] lists) := by
  induction lists with
  | nil => exact .nil inCall
  | cons first others inductionHypothesis =>
    rw [List.forall_mem_cons] at nested
    have othersNested := inductionHypothesis nested.2
    cases others with
    | nil => simpa using nested.1
    | cons second others =>
      rw [List.intercalate_cons_cons]
      exact (nested.1.append (.single bare)).append othersNested

/-- A separator is nothing special where no call is. -/
theorem outside {pieces : List Piece} (nested : Nested inCall pieces) : Nested false pieces := by
  induction nested with
  | nil => exact .nil false
  | sign bare _ inductionHypothesis =>
    refine .sign ?_ inductionHypothesis
    simp only [isBare, Bool.and_eq_true] at bare ⊢
    exact ⟨bare.1, rfl⟩
  | enclosed inside _ _ inductionHypothesis => exact .enclosed inside inductionHypothesis

theorem asItem (node : Node) {pieces : List Piece} (nested : Nested inCall pieces) :
    Nested inCall (Typst.asItem node pieces) := by
  unfold Typst.asItem
  split
  · exact nested
  · exact parenthesized nested.outside

theorem asBase (node : Node) {pieces : List Piece} (nested : Nested inCall pieces) :
    Nested inCall (Typst.asBase node pieces) := by
  unfold Typst.asBase
  split
  · exact nested
  · exact asItem node nested

theorem balanced {pieces : List Piece} (nested : Nested inCall pieces) :
    Balanced (isSign "(") (isSign ")") pieces := by
  induction nested with
  | nil => exact .nil
  | @sign _ piece rest bare _ inductionHypothesis =>
    have neutral : Balanced (isSign "(") (isSign ")") [piece] := by
      refine .ofNeutral fun item member => ?_
      rw [List.mem_singleton.mp member]
      simp only [isBare, Bool.and_eq_true, Bool.not_eq_true'] at bare
      exact bare.1
    exact neutral.append inductionHypothesis
  | enclosed _ _ insideBalanced inductionHypothesis =>
    exact (insideBalanced.insert [.atom "("] [.atom ")"] (by decide)).append inductionHypothesis

/-- In a call nothing is split. -/
theorem splitsNowhere {pieces : List Piece} (nested : Nested true pieces) {sign : String}
    (separates : sign = "," ∨ sign = ";") :
    Sealed (isSign "(") (isSign ")") (isSign sign) pieces := by
  generalize isCall : true = inCall at nested
  induction nested with
  | nil => exact .nil
  | @sign _ piece rest bare _ inductionHypothesis =>
    subst isCall
    simp only [isBare, Bool.and_eq_true, Bool.not_eq_true', Bool.true_and, Bool.or_eq_false_iff]
      at bare
    refine .cons bare.1.1 bare.1.2 ?_ (inductionHypothesis rfl)
    rcases separates with rfl | rfl
    · exact bare.2.1
    · exact bare.2.2
  | enclosed inside _ _ inductionHypothesis =>
    have together : Sealed (isSign "(") (isSign ")") (isSign sign) (Typst.parenthesized _) :=
      .enclosed (by decide) (by decide) (by decide) inside.balanced
    exact together.append (inductionHypothesis isCall)

end Nested

theorem splitAtSign_intercalate {args : List (List Piece)} (nested : ∀ arg ∈ args, Nested true arg) :
    splitAtSign "," (List.intercalate [.atom ","] args) = orOne [] args :=
  split_intercalate (by decide) (by decide) (by decide) fun arg member =>
    (nested arg member).splitsNowhere (.inl rfl)

/-- The arguments of a call are read back. -/
theorem arguments?_intercalate {args : List (List Piece)} (nested : ∀ arg ∈ args, Nested true arg)
    (rest : List Piece) :
    arguments? (List.intercalate [.atom ","] args ++ .atom ")" :: rest) = some (orOne [] args) := by
  have bodyNested : Nested false (List.intercalate [.atom ","] args) :=
    .intercalate (by decide) fun arg member => (nested arg member).outside
  rw [arguments?, enclosed?_append bodyNested.balanced, Option.map_some, splitAtSign_intercalate nested]

/-- The rows of a matrix are read back, and the cells in each of them. -/
theorem rows?_intercalate {rows : List (List (List Piece))}
    (nested : ∀ row ∈ rows, ∀ cell ∈ row, Nested true cell) (rest : List Piece) :
    rows? (List.intercalate [.atom ";"] (rows.map (List.intercalate [.atom ","])) ++
      .atom ")" :: rest) = some (orOne [[]] (rows.map (orOne []))) := by
  have rowNested : ∀ row ∈ rows.map (List.intercalate [Piece.atom ","]), Nested false row := by
    simp only [List.forall_mem_map]
    exact fun row member => .intercalate (by decide) fun cell isCell =>
      (nested row member cell isCell).outside
  have rowTogether : ∀ row ∈ rows.map (List.intercalate [Piece.atom ","]),
      Sealed (isSign "(") (isSign ")") (isSign ";") row := by
    simp only [List.forall_mem_map]
    exact fun row member => .intercalate (by decide) (by decide) (by decide) fun cell isCell =>
      (nested row member cell isCell).splitsNowhere (.inr rfl)
  have rowsSplit : splitAtSign ";" (List.intercalate [.atom ";"] (rows.map (List.intercalate [.atom ","]))) =
      orOne [] (rows.map (List.intercalate [.atom ","])) :=
    split_intercalate (by decide) (by decide) (by decide) rowTogether
  have cellsSplit : (rows.map (List.intercalate [.atom ","])).map (splitAtSign ",") =
      rows.map (orOne []) := by
    rw [List.map_map]
    exact List.map_congr_left fun row member => splitAtSign_intercalate (nested row member)
  rw [rows?, enclosed?_append (Nested.intercalate (by decide) rowNested).balanced, Option.map_some,
    rowsSplit]
  cases rows with
  | nil => rfl
  | cons row others => exact congrArg some cellsSplit

end Pieces

namespace Node

/-- The signs that make calls readable. -/
def callSigns : List String := ["(", ")", ",", ";"]

/-- The node by itself brings none of these signs. A comma or semicolon that is a symbol
is spelled out where it matters. -/
def isPlain : Node → Bool
  | leaf .symbol content => content != "(" && content != ")"
  | leaf .unknown content => !callSigns.contains content
  | unaryFunc name _ | binaryFunc name _ _ => !callSigns.contains name
  | _ => true

/-- Every node of the tree is plain. -/
def Plain (tree : Node) : Prop :=
  ∀ node, Within node tree → node.isPlain = true

theorem plain_iff {tree : Node} :
    Plain tree ↔ tree.isPlain = true ∧ ∀ part ∈ tree.parts, Plain part := by
  constructor
  · intro plain
    exact ⟨plain tree (.refl tree), fun part isPart node within => plain node (.part within isPart)⟩
  · rintro ⟨here, inside⟩ node (_ | ⟨within, isPart⟩)
    · exact here
    · exact inside _ isPart node within

theorem Plain.of_mem_outline {inner inCall : Bool} {node whole : Node} (plain : whole.Plain)
    (member : Slot.part inner node ∈ whole.outline inCall) : node.Plain := by
  rcases (parts_of_mem_outline member).2 with isPart | ⟨script, isScript, inScript⟩
  · exact (plain_iff.mp plain).2 node isPart
  · exact (plain_iff.mp ((plain_iff.mp plain).2 script isScript)).2 node inScript

end Node

section Written

variable {inCall : Bool}

/-- The sign that names a call. -/
theorem isBare_name {name : String} (plain : (!Node.callSigns.contains name) = true) :
    isBare inCall (.symbol name) = true := by
  simp only [Node.callSigns, List.contains_eq_mem, List.mem_cons, List.not_mem_nil, or_false,
    Bool.not_eq_true', decide_eq_false_iff_not, not_or] at plain
  simp [isBare, isSign, plain]

theorem nested_leaf {kind : LeafKind} {content : String} (plain : (Node.leaf kind content).isPlain = true) :
    Nested inCall (leafPieces inCall kind content) := by
  cases kind with
  | symbol =>
    have noParenthesis : content ≠ "(" ∧ content ≠ ")" := by simpa [Node.isPlain] using plain
    dsimp only [leafPieces]
    split
    · exact .single rfl
    · exact .single rfl
    · rename_i noComma noSemicolon
      refine .single ?_
      cases inCall with
      | false => simp [isBare, isSign, noParenthesis]
      | true =>
        have noSeparator : content ≠ "," ∧ content ≠ ";" := ⟨noComma rfl, noSemicolon rfl⟩
        simp [isBare, isSign, noParenthesis, noSeparator]
  | unknown => exact .single (isBare_name plain)
  | text | comment | newline | softSpace => exact .single (by simp [isBare, isSign])
  | empty => exact .nil inCall

theorem nested_setting (delimiter : Option String) : Nested inCall (settingPieces delimiter) := by
  cases delimiter with
  | none => exact .nil inCall
  | some sign =>
    refine .single (isBare_name ?_)
    have long (short : String) (isShort : short.length = 1) : "delim: " ++ sign ++ ", " ≠ short := by
      intro same
      have before : "delim: ".length = 7 := rfl
      have lengths := congrArg String.length same
      rw [String.length_append, String.length_append, before] at lengths
      omega
    simpa [Node.callSigns] using ⟨long "(" rfl, long ")" rfl, long "," rfl, long ";" rfl⟩

theorem nested_scriptPieces (mark : String) {script : Option Node} {pieces : List Piece}
    (bare : isBare inCall (.atom mark) = true) (nested : script.isSome = true → Nested inCall pieces) :
    Nested inCall (scriptPieces mark script pieces) := by
  cases script with
  | none => exact .nil inCall
  | some node => exact .sign bare ((nested rfl).asItem node)

theorem nested_grid {inner : Bool} {rowSign cellSign : Piece} {rows : List (List Node)}
    (rowBare : isBare inCall rowSign = true) (cellBare : isBare inCall cellSign = true)
    (nested : ∀ row ∈ rows, ∀ cell ∈ row, Nested inCall (cell.pieces inner)) :
    Nested inCall (List.intercalate [rowSign] (rows.map fun row =>
      List.intercalate [cellSign] (row.map (Node.pieces inner)))) := by
  refine .intercalate rowBare ?_
  simp only [List.forall_mem_map]
  intro row isRow
  refine .intercalate cellBare ?_
  simp only [List.forall_mem_map]
  exact nested row isRow

/-- Parentheses are written in pairs, and separators only inside of a call of their own. -/
theorem nested_pieces (inCall : Bool) (node : Node) (plain : node.Plain) :
    Nested inCall (node.pieces inCall) := by
  induction inCall, node using induction_on_outline with
  | step inCall node inductionHypothesis =>
    have here := (Node.plain_iff.mp plain).1
    have parts (inner : Bool) (part : Node) (member : Slot.part inner part ∈ node.outline inCall) :
        Nested inner (part.pieces inner) :=
      inductionHypothesis inner part member (plain.of_mem_outline member)
    cases node with
    | leaf kind content =>
      rw [Node.pieces]
      exact nested_leaf here
    | group content args =>
      rw [Node.pieces, piecesOfEach_eq_map]
      refine .flatten ?_
      simp only [List.forall_mem_map]
      exact fun arg isArg => parts inCall arg (part_mem_parts.mpr ⟨rfl, isArg⟩)
    | supsub content base sup sub =>
      have baseNested := parts inCall base (part_mem_supsub.mpr ⟨rfl, .inl rfl⟩)
      have primes : Nested inCall (List.replicate (Node.splitPrimes sup).1 (.atom primeSign)) := by
        refine .signs fun piece member => ?_
        rw [List.eq_of_mem_replicate member]
        cases inCall <;> decide
      have subNested : Nested inCall (sub.toList.map (Node.pieces inCall)).flatten := by
        refine .flatten ?_
        simp only [List.forall_mem_map, Option.mem_toList]
        exact fun node isSub => parts inCall node (part_mem_supsub.mpr ⟨rfl, .inr (.inl isSub)⟩)
      have supNested (isSome : (Node.splitPrimes sup).2.isSome = true) :
          Nested inCall ((Node.afterPrimes sup).map (Node.pieces inCall)).flatten := by
        refine .flatten ?_
        simp only [List.forall_mem_map]
        exact fun node isSup => parts inCall node (part_mem_supsub.mpr ⟨rfl, .inr (.inr ⟨isSome, isSup⟩)⟩)
      rw [pieces_eq_written, Node.outline]
      simp only [written_append, written_baseSlots, written_part_cons, written_nil, List.append_nil,
        written_replicate, written_scriptSlots, written_parts]
      refine ((((baseNested.asBase base).append primes).append ?_).append ?_).append ?_
      · exact nested_scriptPieces "_" (by cases inCall <;> decide) fun _ => subNested
      · exact nested_scriptPieces "^" (by cases inCall <;> decide) supNested
      · split
        · exact .single (by cases inCall <;> decide)
        · exact .nil inCall
    | unaryFunc name arg =>
      have argNested := parts true arg (by simp [Node.outline])
      rw [Node.pieces]
      refine .sign (isBare_name here) (.parenthesized (.intercalate (by decide) ?_))
      simpa using argNested.outside
    | binaryFunc name first second =>
      have firstNested := parts true first (by simp [Node.outline])
      have secondNested := parts true second (by simp [Node.outline])
      rw [Node.pieces]
      refine .sign (isBare_name here) (.parenthesized (.intercalate (by decide) ?_))
      simpa using ⟨firstNested.outside, secondNested.outside⟩
    | align content rows =>
      have cells (row : List Node) (isRow : row ∈ rows) (cell : Node) (isCell : cell ∈ row) :
          Nested inCall (cell.pieces inCall) :=
        parts inCall cell (part_mem_gridSlots.mpr ⟨rfl, row, isRow, isCell⟩)
      rw [pieces_eq_written, Node.outline, written_gridSlots]
      exact nested_grid (by cases inCall <;> decide) (by cases inCall <;> decide) cells
    | matrix call delimiter rows =>
      have cells : ∀ row ∈ rows.map Node.writtenCells, ∀ cell ∈ row, Nested false (cell.pieces true) := by
        simp only [List.forall_mem_map]
        intro row isRow cell isCell
        exact (parts true cell (part_mem_matrix.mpr ⟨rfl, row, isRow, isCell⟩)).outside
      rw [pieces_eq_written, Node.outline, written_callSlots, written_append, written_signs,
        written_gridSlots]
      refine .sign (by cases inCall <;> cases call <;> decide)
        (.parenthesized ((nested_setting delimiter).append ?_))
      exact nested_grid (by cases call <;> decide) (by cases call <;> decide) cells

end Written

section ReadingBack

variable {inCall inner : Bool} {whole node : Node} {before after : List Piece}

theorem Occurs.plain (occurs : Occurs inCall whole before inner node after) (plain : whole.Plain) :
    node.Plain := by
  induction occurs with
  | here inCall node => exact plain
  | inside place _ inductionHypothesis =>
    refine inductionHypothesis (plain.of_mem_outline (by
      rw [place]
      exact List.mem_append_right _ List.mem_cons_self))

/-- The arguments of the call are read from the pieces that start with it. -/
def Node.ReadBack (pieces : List Piece) : Node → Prop
  | unaryFunc name arg => ∃ rest, pieces = .symbol name :: .atom "(" :: rest ∧
      arguments? rest = some [arg.pieces true]
  | binaryFunc name first second => ∃ rest, pieces = .symbol name :: .atom "(" :: rest ∧
      arguments? rest = some [first.pieces true, second.pieces true]
  | matrix .mat delimiter rows => ∃ rest,
      pieces = .symbol "mat" :: .atom "(" :: (settingPieces delimiter ++ rest) ∧
      rows? rest = some (orOne [[]] (rows.map fun row =>
        orOne [] ((writtenCells row).map (Node.pieces true))))
  | _ => True

theorem readBack_of_plain (inCall : Bool) {call : Node} (plain : call.Plain) (after : List Piece) :
    call.ReadBack (call.pieces inCall ++ after) := by
  have parts (part : Node) (isPart : part ∈ call.parts) : Nested true (part.pieces true) :=
    nested_pieces true part ((Node.plain_iff.mp plain).2 part isPart)
  cases call with
  | leaf | group | supsub | align => trivial
  | unaryFunc name arg =>
    have args : ∀ pieces ∈ [arg.pieces true], Nested true pieces := by
      simpa using parts arg (by simp [Node.parts])
    exact ⟨_, by simp [Node.pieces, callPieces, parenthesized], arguments?_intercalate args after⟩
  | binaryFunc name first second =>
    have args : ∀ pieces ∈ [first.pieces true, second.pieces true], Nested true pieces := by
      simpa using ⟨parts first (by simp [Node.parts]), parts second (by simp [Node.parts])⟩
    exact ⟨_, by simp [Node.pieces, callPieces, parenthesized], arguments?_intercalate args after⟩
  | matrix call delimiter rows =>
    cases call with
    | cases => trivial
    | mat =>
      have cells : ∀ row ∈ rows.map fun row => (Node.writtenCells row).map (Node.pieces true),
          ∀ cell ∈ row, Nested true cell := by
        simp only [List.forall_mem_map]
        intro row isRow cell isCell
        exact parts cell (List.mem_flatten.mpr ⟨row, isRow, List.mem_of_mem_drop isCell⟩)
      have read := rows?_intercalate cells after
      simp only [List.map_map] at read
      refine ⟨_, ?_, read⟩
      rw [Node.pieces, gridPieces_eq]
      simp [parenthesized, GridCall.word, GridCall.separators, Function.comp_def]

/-- Whatever calls are open, parentheses are queued in nested pairs, and the arguments of
every call in a plain tree can be read back from the queue. -/
theorem callArguments_read_back (writer : Writer) (tree : Node) (plain : tree.Plain) :
    ∃ queued, (writer.append tree).queue = writer.queue ++ queued ∧
      Balanced (isSign "(") (isSign ")") queued ∧
      (∀ call : Node, call.isCall = true → call.Within tree → ∃ before inner after,
        Occurs (writer.openCalls > 0) tree before inner call after) ∧
      ∀ before inner call after, Occurs (writer.openCalls > 0) tree before inner call after →
        queued = before ++ (call.pieces inner ++ after) ∧
          call.ReadBack (call.pieces inner ++ after) := by
  refine ⟨tree.pieces (writer.openCalls > 0), Writer.queue_append tree writer,
    (nested_pieces _ tree plain).balanced, ?_, ?_⟩
  · intro call isCall within
    exact exists_occurs _ tree isCall within
  · intro before inner call after occurs
    exact ⟨occurs.pieces_eq, readBack_of_plain inner (occurs.plain plain) after⟩

/-- A fraction of a comma and a matrix with a semicolon, a comma and a row without cells. -/
theorem callArguments_read_back_fraction :
    (Node.binaryFunc "frac" (.symbol ",")
      (.matrix .mat none [[.symbol ";", .symbol ","], []])).Plain ∧
    ∃ queue first second, (Writer.append (.binaryFunc "frac" (.symbol ",")
        (.matrix .mat none [[.symbol ";", .symbol ","], []])) {}).queue = queue ∧
      queue = .symbol "frac" :: .atom "(" :: first ∧
      arguments? first = some [[.symbol "comma"], [.symbol "mat", .atom "(", .symbol "semi", .atom ",",
        .symbol "comma", .atom ";", .atom ")"]] ∧
      queue = [.symbol "frac", .atom "(", .symbol "comma", .atom ","] ++
        .symbol "mat" :: .atom "(" :: second ∧
      rows? second = some [[[.symbol "semi"], [.symbol "comma"]], [[]]] := by
  have comma : (Node.symbol ",").Plain := Node.plain_iff.mpr ⟨by decide, by simp [Node.parts]⟩
  have semicolon : (Node.symbol ";").Plain := Node.plain_iff.mpr ⟨by decide, by simp [Node.parts]⟩
  have grid : (Node.matrix .mat none [[.symbol ";", .symbol ","], []]).Plain :=
    Node.plain_iff.mpr ⟨rfl, by simp [Node.parts, comma, semicolon]⟩
  have plain : (Node.binaryFunc "frac" (.symbol ",")
      (.matrix .mat none [[.symbol ";", .symbol ","], []])).Plain :=
    Node.plain_iff.mpr ⟨by decide, by simp [Node.parts, comma, grid]⟩
  obtain ⟨queued, isQueue, -, -, readBack⟩ := callArguments_read_back {} _ plain
  obtain ⟨isWhole, first, starts, firstRead⟩ := readBack [] false _ [] (.here false _)
  have place : Node.outline false (.binaryFunc "frac" (.symbol ",")
      (.matrix .mat none [[.symbol ";", .symbol ","], []])) =
      [.sign (.symbol "frac"), .sign (.atom "("), .part true (.symbol ","), .sign (.atom ",")] ++
        .part true (.matrix .mat none [[.symbol ";", .symbol ","], []]) :: [.sign (.atom ")")] := rfl
  obtain ⟨isInside, second, secondStarts, secondRead⟩ := readBack _ true _ _ (.inside place (.here true _))
  exact ⟨plain, queued, first, second, isQueue, isWhole.trans starts, firstRead,
    isInside.trans (congrArg (_ ++ ·) secondStarts), secondRead⟩

end ReadingBack

end MathMarkup.Typst
