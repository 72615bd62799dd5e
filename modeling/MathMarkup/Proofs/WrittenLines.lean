import Mathlib
import MathMarkup.Proofs.Lines
import MathMarkup.Typst.Writer

/-!
# The lines of written trees

What the writer does to the lines of a tree, node by node. Everything inside a call, a
script or parentheses is followed by a sign; only groups and aligned rows pass on what
comes after them to what is in them.
-/

namespace MathMarkup.Typst

open Lines

instance : HasRole Piece where
  role piece :=
    match piece.kind with
    | .comment => .comment
    | .newline => .lineBreak
    | .atom | .symbol | .text | .softSpace | .foreign _ => .other

/-- Every comment of the pieces is the last one, or a line break stands right after it. -/
def CommentsEndLines (pieces : List Piece) : Prop :=
  ∀ before piece after, pieces = before ++ piece :: after → piece.kind = .comment →
    after = [] ∨ ∃ lineBreak rest, after = lineBreak :: rest ∧ lineBreak.kind = .newline

theorem role_eq_comment_iff (piece : Piece) : role piece = .comment ↔ piece.kind = .comment := by
  obtain ⟨kind, content⟩ := piece
  cases kind <;> simp [role]

theorem role_eq_lineBreak_iff (piece : Piece) :
    role piece = .lineBreak ↔ piece.kind = .newline := by
  obtain ⟨kind, content⟩ := piece
  cases kind <;> simp [role]

theorem commentsEndLines_iff (pieces : List Piece) :
    CommentsEndLines pieces ↔ endsLines .nothing pieces = true := by
  simp only [CommentsEndLines, endsLines_nothing_iff, role_eq_comment_iff, role_eq_lineBreak_iff]

section Signs

variable {next : Following}

/-- Signs end no line and need none. -/
theorem endsLines_signs {signs : List Piece} (plain : ∀ sign ∈ signs, role sign = .other) :
    endsLines next signs = true :=
  endsLines_of_plain fun sign member => by simp [plain sign member]

theorem endsLines_sign_cons {sign : Piece} (plain : role sign = .other) (rest : List Piece) :
    endsLines next (sign :: rest) = endsLines next rest :=
  endsLines_cons (by simp [plain]) rest

@[simp]
theorem opening_parenthesized (pieces : List Piece) :
    opening next (parenthesized pieces) = .other :=
  opening_cons rfl _

/-- Something follows whatever is in parentheses. -/
@[simp]
theorem endsLines_parenthesized (pieces : List Piece) :
    endsLines next (parenthesized pieces) = endsLines .other pieces := by
  unfold parenthesized
  rw [List.cons_append, endsLines_sign_cons rfl, endsLines_append, opening_cons rfl,
    endsLines_sign_cons rfl]
  simp [endsLines]

theorem opening_callPieces (name : String) (args : List (List Piece)) :
    opening next (callPieces name args) = .other :=
  opening_cons rfl _

/-- Something follows every argument of a call. -/
theorem endsLines_callPieces (name : String) (args : List (List Piece)) :
    endsLines next (callPieces name args) = args.all (endsLines .other) := by
  unfold callPieces
  rw [endsLines_sign_cons rfl, endsLines_parenthesized, endsLines_intercalate rfl,
    endsLinesBetween_other]

end Signs

section Nodes

variable {next : Following} {inCall : Bool}

/-- A symbol is written as one sign. -/
theorem exists_leafPieces_symbol (inCall : Bool) (content : String) :
    ∃ sign, leafPieces inCall .symbol content = [sign] ∧ role sign = .other := by
  dsimp only [leafPieces]
  split <;> exact ⟨_, rfl, rfl⟩

theorem exists_pieces_symbol (inCall : Bool) (content : String) :
    ∃ sign, (Node.symbol content).pieces inCall = [sign] ∧ role sign = .other := by
  rw [Node.pieces]
  exact exists_leafPieces_symbol inCall content

theorem lines_unaryFunc (name : String) (arg : Node) :
    opening next ((Node.unaryFunc name arg).pieces inCall) = .other ∧
      endsLines next ((Node.unaryFunc name arg).pieces inCall) =
        endsLines .other (arg.pieces true) := by
  rw [Node.pieces]
  exact ⟨opening_callPieces _ _, by simp [endsLines_callPieces]⟩

theorem lines_binaryFunc (name : String) (first second : Node) :
    opening next ((Node.binaryFunc name first second).pieces inCall) = .other ∧
      endsLines next ((Node.binaryFunc name first second).pieces inCall) =
        (endsLines .other (first.pieces true) && endsLines .other (second.pieces true)) := by
  rw [Node.pieces]
  exact ⟨opening_callPieces _ _, by simp [endsLines_callPieces]⟩

/-- A node that is one item starts with a sign, and no comment ends it. -/
theorem lines_of_isSingle {node : Node} (single : node.isSingle = true) :
    opening next (node.pieces inCall) = .other ∧
      endsLines next (node.pieces inCall) = endsLines .other (node.pieces inCall) := by
  cases node with
  | leaf kind content =>
    rw [Node.pieces]
    cases kind with
    | symbol =>
      obtain ⟨sign, written, plain⟩ := exists_leafPieces_symbol inCall content
      rw [written]
      exact ⟨opening_cons plain [], by
        rw [endsLines_sign_cons plain, endsLines_sign_cons plain]
        rfl⟩
    | text | unknown => exact ⟨rfl, rfl⟩
    | comment | newline | softSpace | empty => cases single
  | unaryFunc name arg =>
    exact ⟨(lines_unaryFunc name arg).1,
      (lines_unaryFunc name arg).2.trans (lines_unaryFunc name arg).2.symm⟩
  | binaryFunc name first second =>
    exact ⟨(lines_binaryFunc name first second).1,
      (lines_binaryFunc name first second).2.trans (lines_binaryFunc name first second).2.symm⟩
  | matrix call delimiter rows =>
    rw [Node.pieces]
    exact ⟨opening_cons rfl _, by
      unfold gridPieces
      simp only [endsLines_sign_cons (show role (Piece.symbol call.word) = .other from rfl),
        endsLines_parenthesized]⟩
  | group | supsub | align => cases single

/-- A node that is written as an item is followed by something. -/
theorem lines_asItem (node : Node) :
    opening next (asItem node (node.pieces inCall)) = .other ∧
      endsLines next (asItem node (node.pieces inCall)) = endsLines .other (node.pieces inCall) := by
  unfold asItem
  split
  · rename_i single
    exact lines_of_isSingle single
  · exact ⟨opening_parenthesized _, endsLines_parenthesized _⟩

theorem lines_asBase (node : Node) (next : Following) :
    opening next (asBase node (node.pieces inCall)) = .other ∧
      endsLines .other (asBase node (node.pieces inCall)) =
        endsLines .other (node.pieces inCall) := by
  unfold asBase
  split
  · rename_i bracketed
    refine ⟨?_, rfl⟩
    unfold Node.isBracketed at bracketed
    split at bracketed
    · rename_i content opening body closing
      obtain ⟨sign, written, plain⟩ := exists_leafPieces_symbol inCall opening
      rw [Node.pieces, Node.piecesOfEach, Node.pieces, written]
      exact opening_cons plain _
    · cases bracketed
  · exact ⟨(lines_asItem node).1, (lines_asItem node).2⟩

theorem piecesOfEach_eq_map (nodes : List Node) :
    Node.piecesOfEach inCall nodes = nodes.map (Node.pieces inCall) := by
  induction nodes with
  | nil => rfl
  | cons node rest inductionHypothesis => simp [Node.piecesOfEach, inductionHypothesis]

theorem role_of_isPrime {node : Node} (prime : node.isPrime = true) :
    ∀ piece ∈ node.pieces inCall, role piece = .other := by
  unfold Node.isPrime at prime
  split at prime
  · rename_i content
    obtain ⟨sign, written, plain⟩ := exists_leafPieces_symbol inCall content
    rw [Node.pieces, written]
    simpa using plain
  · cases prime

/-- What the writer knows of a superscript: which signs it starts with and how the rest
of it is written. -/
structure SplitWritten (inCall : Bool) (sup : Option Node) : Prop where
  written : ∀ rest ∈ (Node.splitPrimes sup).2,
    Node.piecesAfterPrimes inCall sup = rest.pieces inCall
  primes : ∃ primes, (∀ piece ∈ primes, role piece = .other) ∧
    Node.piecesOfOptional inCall sup =
      primes ++ Node.piecesOfOptional inCall (Node.splitPrimes sup).2
  some : sup.isSome = true → 0 < (Node.splitPrimes sup).1 ∨ (Node.splitPrimes sup).2.isSome = true

theorem splitWritten_group (inCall : Bool) (content : String) (args : List Node) :
    SplitWritten inCall (some (.group content args)) := by
  have after : Node.piecesAfterPrimes inCall (some (.group content args)) =
      (Node.piecesOfEach inCall (args.drop (Node.leadingPrimes args))).flatten := by
    rw [Node.piecesAfterPrimes, piecesOfEach_eq_map, piecesOfEach_eq_map, List.map_drop]
  have whole : Node.piecesOfOptional inCall (some (.group content args)) =
      (Node.piecesOfEach inCall (args.take (Node.leadingPrimes args))).flatten ++
        (Node.piecesOfEach inCall (args.drop (Node.leadingPrimes args))).flatten := by
    rw [Node.piecesOfOptional, Node.pieces, piecesOfEach_eq_map, piecesOfEach_eq_map,
      piecesOfEach_eq_map, ← List.flatten_append, ← List.map_append, List.take_append_drop]
  have signs : ∀ piece ∈ (Node.piecesOfEach inCall (args.take (Node.leadingPrimes args))).flatten,
      role piece = .other := by
    intro piece member
    have taken : args.take (Node.leadingPrimes args) = args.takeWhile Node.isPrime :=
      (List.prefix_iff_eq_take.mp (List.takeWhile_prefix _)).symm
    rw [taken, piecesOfEach_eq_map] at member
    obtain ⟨pieces, isList, inPieces⟩ := List.mem_flatten.mp member
    obtain ⟨node, isTaken, rfl⟩ := List.mem_map.mp isList
    exact role_of_isPrime (List.all_eq_true.mp List.all_takeWhile node isTaken) piece inPieces
  cases counted : Node.leadingPrimes args with
  | zero =>
    have split : Node.splitPrimes (some (.group content args)) = (0, some (.group content args)) := by
      simp [Node.splitPrimes, counted]
    refine ⟨?_, ⟨[], by simp, ?_⟩, ?_⟩
    · rw [split]
      rintro rest ⟨⟩
      rw [after, counted, List.drop_zero, Node.pieces]
    · rw [split]
      rfl
    · simp [split]
  | succ count =>
    rw [counted] at after whole signs
    cases left : args.drop (count + 1) with
    | nil =>
      have split : Node.splitPrimes (some (.group content args)) = (count + 1, none) := by
        simp [Node.splitPrimes, counted, left]
      refine ⟨?_, ⟨_, signs, ?_⟩, ?_⟩
      · rw [split]
        rintro rest ⟨⟩
      · rw [split, whole, left]
        rfl
      · simp [split]
    | cons first others =>
      -- One part after the primes stands by itself, several make a group.
      obtain ⟨rest, split, written⟩ : ∃ rest : Node,
          Node.splitPrimes (some (.group content args)) = (count + 1, some rest) ∧
            (Node.piecesOfEach inCall (first :: others)).flatten = rest.pieces inCall := by
        cases others with
        | nil => exact ⟨first, by simp [Node.splitPrimes, counted, left], by simp [Node.piecesOfEach]⟩
        | cons second others =>
          exact ⟨.group "" (first :: second :: others), by simp [Node.splitPrimes, counted, left],
            by rw [Node.pieces]⟩
      rw [left] at after whole
      refine ⟨?_, ⟨_, signs, ?_⟩, ?_⟩
      · rw [split]
        rintro _ ⟨⟩
        rw [after, written]
      · rw [split, whole, written]
        rfl
      · simp [split]

theorem splitWritten_none (inCall : Bool) : SplitWritten inCall none where
  written := by
    rintro rest ⟨⟩
  primes := ⟨[], by simp, rfl⟩
  some := by simp

/-- A superscript that is no group is a prime or has none. -/
theorem splitWritten_single (inCall : Bool) {node : Node}
    (split : Node.splitPrimes (some node) = if node.isPrime then (1, none) else (0, some node))
    (after : Node.piecesAfterPrimes inCall (some node) = node.pieces inCall) :
    SplitWritten inCall (some node) := by
  cases prime : node.isPrime with
  | true =>
    rw [prime, if_pos rfl] at split
    refine ⟨?_, ⟨node.pieces inCall, role_of_isPrime prime, ?_⟩, ?_⟩
    · rw [split]
      rintro rest ⟨⟩
    · rw [split]
      simp [Node.piecesOfOptional]
    · simp [split]
  | false =>
    rw [prime, if_neg (by simp)] at split
    refine ⟨?_, ⟨[], by simp, ?_⟩, ?_⟩
    · rw [split]
      rintro rest ⟨⟩
      exact after
    · rw [split]
      rfl
    · simp [split]

theorem splitWritten (inCall : Bool) (sup : Option Node) : SplitWritten inCall sup := by
  cases sup with
  | none => exact splitWritten_none inCall
  | some node =>
    cases node with
    | group content args => exact splitWritten_group inCall content args
    | leaf | supsub | unaryFunc | binaryFunc | align | matrix =>
      exact splitWritten_single inCall rfl rfl

theorem lines_scriptPieces (mark : String) (script : Option Node) {pieces : List Piece}
    (written : ∀ node ∈ script, pieces = node.pieces inCall) :
    endsLines next (scriptPieces mark script pieces) =
        endsLines .other (Node.piecesOfOptional inCall script) ∧
      (script.isSome = true → opening next (scriptPieces mark script pieces) = .other) := by
  cases script with
  | none => exact ⟨rfl, by simp⟩
  | some node =>
    refine ⟨?_, fun _ => opening_cons rfl _⟩
    rw [scriptPieces, endsLines_sign_cons rfl, written node rfl, (lines_asItem node).2]
    rfl

/-- Something follows the base, the superscript and the subscript. -/
theorem lines_supsub (content : String) (base : Node) {sup sub : Option Node}
    (scripted : sup.isSome = true ∨ sub.isSome = true) :
    opening next ((Node.supsub content base sup sub).pieces inCall) = .other ∧
      endsLines next ((Node.supsub content base sup sub).pieces inCall) =
        (endsLines .other (base.pieces inCall) &&
          endsLines .other (Node.piecesOfOptional inCall sup) &&
          endsLines .other (Node.piecesOfOptional inCall sub)) := by
  obtain ⟨supWritten, ⟨primes, signs, whole⟩, split⟩ := splitWritten inCall sup
  have supLines : endsLines .other (Node.piecesOfOptional inCall sup) =
      endsLines .other (Node.piecesOfOptional inCall (Node.splitPrimes sup).2) := by
    rw [whole, endsLines_append, endsLines_signs signs, Bool.true_and]
  have subWritten : ∀ node ∈ sub, Node.piecesOfOptional inCall sub = node.pieces inCall := by
    rintro node ⟨⟩
    rfl
  obtain ⟨space, spaceSigns, pieces⟩ : ∃ space : List Piece, (∀ piece ∈ space, role piece = .other) ∧
      (Node.supsub content base sup sub).pieces inCall =
        asBase base (base.pieces inCall) ++ (List.replicate (Node.splitPrimes sup).1 (.atom primeSign)
          ++ (scriptPieces "_" sub (Node.piecesOfOptional inCall sub)
            ++ (scriptPieces "^" (Node.splitPrimes sup).2 (Node.piecesAfterPrimes inCall sup)
              ++ space))) := by
    refine ⟨if (((Node.splitPrimes sup).2 <|> sub).map Node.isSingle).getD false then
      [⟨.softSpace, ""⟩] else [], ?_, by rw [Node.pieces]; simp [scriptedPieces]⟩
    split <;> simp [role]
  have primeSigns : ∀ piece ∈ List.replicate (Node.splitPrimes sup).1 (Piece.atom primeSign),
      role piece = .other := by
    intro piece member
    rw [List.eq_of_mem_replicate member]
    rfl
  have tailOpening : opening next (List.replicate (Node.splitPrimes sup).1 (.atom primeSign)
      ++ (scriptPieces "_" sub (Node.piecesOfOptional inCall sub)
        ++ (scriptPieces "^" (Node.splitPrimes sup).2 (Node.piecesAfterPrimes inCall sup)
          ++ space))) = .other := by
    rw [opening_append, opening_append, opening_append]
    cases sub with
    | some node =>
      rw [(lines_scriptPieces "_" (some node) subWritten).2 rfl]
      cases (Node.splitPrimes sup).1 <;> rfl
    | none =>
      rcases split (by simpa using scripted) with primed | rest
      · obtain ⟨count, counted⟩ := Nat.exists_eq_succ_of_ne_zero (Nat.ne_of_gt primed)
        rw [counted]
        rfl
      · rw [(lines_scriptPieces "^" _ supWritten).2 rest]
        cases (Node.splitPrimes sup).1 <;> rfl
  rw [pieces]
  refine ⟨?_, ?_⟩
  · rw [opening_append]
    exact (lines_asBase base _).1
  · rw [endsLines_append, tailOpening, (lines_asBase base next).2, endsLines_append,
      endsLines_signs primeSigns, endsLines_append, (lines_scriptPieces "_" sub subWritten).1,
      endsLines_append, (lines_scriptPieces "^" _ supWritten).1, endsLines_signs spaceSigns, supLines]
    cases endsLines .other (base.pieces inCall) <;> simp [Bool.and_comm]

theorem piecesOfRows_eq_map (rows : List (List Node)) :
    Node.piecesOfRows inCall rows = rows.map fun row => row.map (Node.pieces inCall) := by
  induction rows with
  | nil => rfl
  | cons row rest inductionHypothesis =>
    simp [Node.piecesOfRows, piecesOfEach_eq_map, inductionHypothesis]

/-- The cells of a row that are not written are empty groups. -/
theorem isEmptyGroup_of_unwritten {row : List Node} {cell : Node}
    (member : cell ∈ row.take (Node.unwrittenCells row)) : cell.isEmptyGroup = true := by
  unfold Node.unwrittenCells at member
  split at member
  · rw [← List.prefix_iff_eq_take.mp (List.takeWhile_prefix _)] at member
    exact List.all_eq_true.mp List.all_takeWhile cell member
  · simp at member

/-- No comment is missed in the cells that are not written. -/
theorem all_written (row : List Node) :
    ((row.map (Node.pieces inCall)).drop (Node.unwrittenCells row)).all (endsLines .other) =
      row.all fun cell => endsLines .other (cell.pieces inCall) := by
  have unwritten : (row.take (Node.unwrittenCells row)).all
      (fun cell => endsLines .other (cell.pieces inCall)) = true := by
    rw [List.all_eq_true]
    intro cell member
    have empty := isEmptyGroup_of_unwritten member
    unfold Node.isEmptyGroup at empty
    split at empty
    · rw [Node.pieces, Node.piecesOfEach]
      rfl
    · cases empty
  have whole := congrArg (List.all · fun cell => endsLines .other (cell.pieces inCall))
    (List.take_append_drop (Node.unwrittenCells row) row)
  rw [← whole, List.all_append, unwritten, Bool.true_and, ← List.map_drop, List.all_map]
  rfl

/-- Something follows every cell of a call with rows. -/
theorem lines_matrix (call : GridCall) (delimiter : Option String) (rows : List (List Node)) :
    opening next ((Node.matrix call delimiter rows).pieces inCall) = .other ∧
      endsLines next ((Node.matrix call delimiter rows).pieces inCall) =
        rows.all (·.all fun cell => endsLines .other (cell.pieces true)) := by
  rw [Node.pieces, piecesOfRows_eq_map]
  refine ⟨opening_cons rfl _, ?_⟩
  have setting : ∀ piece ∈ delimiter.toList.map fun sign => Piece.symbol ("delim: " ++ sign ++ ", "),
      role piece = .other := by
    cases delimiter <;> simp [role]
  have writtenRows : List.zipWith (fun row cells => List.intercalate [.atom call.separators.2]
      (cells.drop (Node.unwrittenCells row))) rows (rows.map fun row => row.map (Node.pieces true)) =
      rows.map fun row => List.intercalate [.atom call.separators.2]
        ((row.map (Node.pieces true)).drop (Node.unwrittenCells row)) := by
    induction rows with
    | nil => rfl
    | cons row rest inductionHypothesis => simp [inductionHypothesis]
  unfold gridPieces
  dsimp only
  rw [endsLines_sign_cons rfl, endsLines_parenthesized, endsLines_append, endsLines_signs setting,
    endsLines_intercalate rfl, endsLinesBetween_other, writtenRows, List.all_map, Bool.true_and]
  congr 1
  funext row
  rw [Function.comp_apply, endsLines_intercalate rfl, endsLinesBetween_other, all_written]

/-- Aligned rows are followed by what follows them; a sign stands between their cells. -/
theorem lines_align (content : String) (rows : List (List Node)) :
    opening next ((Node.align content rows).pieces inCall) =
        openingBetween next
          (rows.map fun row => List.intercalate [.atom "&"] (row.map (Node.pieces inCall))) ∧
      endsLines next ((Node.align content rows).pieces inCall) =
        endsLinesBetween next
          (rows.map fun row => List.intercalate [.atom "&"] (row.map (Node.pieces inCall))) := by
  rw [Node.pieces, piecesOfRows_eq_map]
  unfold alignPieces
  rw [opening_intercalate rfl, endsLines_intercalate rfl, List.map_map]
  exact ⟨rfl, rfl⟩

end Nodes

end MathMarkup.Typst
