import MathMarkup.Proofs.MatrixRows
import MathMarkup.Proofs.TokenSpacing

/-!
# Writing piece by piece

A tree goes into the queue of a writer in steps: pieces are pushed one after the other, and a
call is open while its arguments are pushed. These steps leave nothing behind but the pieces
of the tree. And what waits in the queue may be written at any time: the text is that of all
trees written at once as one group.
-/

namespace MathMarkup.Typst

namespace Writer

/-- Puts a piece in the queue. -/
def push (piece : Piece) (writer : Writer) : Writer :=
  { writer with queue := writer.queue ++ [piece] }

/-- Puts pieces in the queue, one after the other. -/
def pushAll (pieces : List Piece) (writer : Writer) : Writer :=
  pieces.foldl (fun reached piece => reached.push piece) writer

/-- Takes the steps between parentheses. -/
def inParentheses (steps : Writer → Writer) (writer : Writer) : Writer :=
  (steps (writer.push (.atom "("))).push (.atom ")")

/-- Takes the steps while one more call is open. -/
def inCall (steps : Writer → Writer) (writer : Writer) : Writer :=
  let inside := inParentheses steps { writer with openCalls := writer.openCalls + 1 }
  { inside with openCalls := inside.openCalls - 1 }

/-- Takes the steps for a node, in parentheses unless the node is one item. -/
def asItem (node : Node) (steps : Writer → Writer) : Writer → Writer :=
  if node.isSingle then steps else inParentheses steps

/-- Takes the steps for a base. Brackets of its own are enough. -/
def asBase (node : Node) (steps : Writer → Writer) : Writer → Writer :=
  if node.isBracketed then steps else asItem node steps

/-- Takes the steps for a script after its mark; none if there is no script. -/
def asScript (mark : String) (script : Option Node) (steps : Writer → Writer)
    (writer : Writer) : Writer :=
  match script with
  | none => writer
  | some node => asItem node steps (writer.push (.atom mark))

/-- Puts a separator in the queue unless nothing stands before it. -/
def separate (sign : Piece) (isFirst : Bool) (writer : Writer) : Writer :=
  if isFirst then writer else writer.push sign

mutual

/-- Puts a tree in the queue, step by step. -/
def appendInSteps : Node → Writer → Writer
  | .leaf kind content, writer =>
    writer.pushAll (leafPieces (writer.openCalls > 0) kind content)
  | .group _ args, writer => appendEach 0 args writer
  | .supsub _ base sup sub, writer =>
    let based := asBase base (appendInSteps base) writer
    let (primes, rest) := Node.splitPrimes sup
    let primed := based.pushAll (List.replicate primes (.atom primeSign))
    let lowered := asScript "_" sub (appendOptional sub) primed
    let raised := asScript "^" rest (appendAfterPrimes sup) lowered
    if ((rest <|> sub).map Node.isSingle).getD false then raised.push ⟨.softSpace, ""⟩ else raised
  | .unaryFunc name arg, writer => inCall (appendInSteps arg) (writer.push (.symbol name))
  | .binaryFunc name first second, writer =>
    inCall (fun inside => appendInSteps second ((appendInSteps first inside).push (.atom ",")))
      (writer.push (.symbol name))
  | .align _ rows, writer => appendRows (.symbol "\\") (.atom "&") false true rows writer
  | .matrix call delimiter rows, writer =>
    inCall (fun inside =>
      appendRows (.atom call.separators.1) (.atom call.separators.2) true true rows
        (inside.pushAll (settingPieces delimiter)))
      (writer.push (.symbol call.word))

/-- Puts what follows the primes of a superscript in the queue. -/
def appendAfterPrimes : Option Node → Writer → Writer
  | none, writer => writer
  | some (.group _ args), writer => appendEach (Node.leadingPrimes args) args writer
  | some node, writer => appendInSteps node writer

/-- Puts a tree that may be absent in the queue. -/
def appendOptional : Option Node → Writer → Writer
  | none, writer => writer
  | some node, writer => appendInSteps node writer

/-- Puts some trees in the queue, without the given number of trees at their front. -/
def appendEach : Nat → List Node → Writer → Writer
  | _, [], writer => writer
  | 0, node :: rest, writer => appendEach 0 rest (appendInSteps node writer)
  | skipped + 1, _ :: rest, writer => appendEach skipped rest writer

/-- Puts the cells of a row in the queue with a sign between them. Empty groups at the front
may be skipped. -/
def appendCells (sign : Piece) (skips isFirst : Bool) : List Node → Writer → Writer
  | [], writer => writer
  | cell :: rest, writer =>
    if isFirst && cell.isEmptyGroup && skips then appendCells sign skips true rest writer
    else appendCells sign skips false rest (appendInSteps cell (writer.separate sign isFirst))

/-- Puts rows of cells in the queue with a sign between them. -/
def appendRows (rowSign cellSign : Piece) (skips isFirst : Bool) :
    List (List Node) → Writer → Writer
  | [], writer => writer
  | row :: rest, writer =>
    appendRows rowSign cellSign skips false rest
      (appendCells cellSign (skips && 1 < row.length) true row (writer.separate rowSign isFirst))

end

end Writer

/-- The steps put pieces in the queue and change nothing else. Which pieces these are depends
on whether a call is open. -/
def Queues (steps : Writer → Writer) (pieces : Bool → List Piece) : Prop :=
  ∀ writer, steps writer =
    { writer with queue := writer.queue ++ pieces (decide (writer.openCalls > 0)) }

namespace Queues

variable {steps following : Writer → Writer} {pieces more : Bool → List Piece}

theorem none : Queues (fun writer => writer) fun _ => [] := by
  intro writer
  simp

theorem push (piece : Piece) : Queues (Writer.push piece) fun _ => [piece] := fun _ => rfl

/-- Steps after others put their pieces behind those of the others. -/
theorem andThen (first : Queues steps pieces) (second : Queues following more) :
    Queues (fun writer => following (steps writer)) fun isOpen => pieces isOpen ++ more isOpen := by
  intro writer
  change following (steps writer) = _
  rw [first, second, List.append_assoc]

theorem pushAll (added : List Piece) : Queues (Writer.pushAll added) fun _ => added := by
  induction added with
  | nil => exact none
  | cons piece rest inductionHypothesis => exact (push piece).andThen inductionHypothesis

theorem inParentheses (queues : Queues steps pieces) :
    Queues (Writer.inParentheses steps) fun isOpen => parenthesized (pieces isOpen) :=
  ((push _).andThen queues).andThen (push _)

/-- The call is closed again when the steps in it are taken. -/
theorem inCall (queues : Queues steps pieces) :
    Queues (Writer.inCall steps) fun _ => parenthesized (pieces true) := by
  intro writer
  simp [Writer.inCall, queues.inParentheses _]

theorem call (name : String) {args : List (List Piece)} (queues : Queues steps pieces)
    (inside : pieces true = List.intercalate [.atom ","] args) :
    Queues (fun writer => Writer.inCall steps (writer.push (.symbol name))) fun _ =>
      callPieces name args := by
  unfold callPieces
  rw [← inside]
  exact (push (.symbol name)).andThen queues.inCall

theorem asItem (node : Node) (queues : Queues steps pieces) :
    Queues (Writer.asItem node steps) fun isOpen => Typst.asItem node (pieces isOpen) := by
  unfold Writer.asItem Typst.asItem
  split
  · exact queues
  · exact queues.inParentheses

theorem asBase (node : Node) (queues : Queues steps pieces) :
    Queues (Writer.asBase node steps) fun isOpen => Typst.asBase node (pieces isOpen) := by
  unfold Writer.asBase Typst.asBase
  split
  · exact queues
  · exact queues.asItem node

theorem asScript (mark : String) (script : Option Node) (queues : Queues steps pieces) :
    Queues (Writer.asScript mark script steps) fun isOpen =>
      scriptPieces mark script (pieces isOpen) := by
  cases script with
  | none => exact none
  | some node => exact (push _).andThen (queues.asItem node)

theorem separate (sign : Piece) (isFirst : Bool) :
    Queues (Writer.separate sign isFirst) fun _ => if isFirst then [] else [sign] := by
  unfold Writer.separate
  cases isFirst with
  | true => exact none
  | false => exact push sign

/-- The scripts after a base, with the soft space that may follow them. -/
theorem scripted {base sup sub : Writer → Writer} {basePieces supPieces subPieces : Bool → List Piece}
    (baseQueues : Queues base basePieces) (raised lowered : Option Node)
    (supQueues : Queues sup supPieces) (subQueues : Queues sub subPieces) :
    Queues (fun writer =>
      let (primes, rest) := Node.splitPrimes raised
      let after := Writer.asScript "^" rest sup (Writer.asScript "_" lowered sub
        ((base writer).pushAll (List.replicate primes (.atom primeSign))))
      if ((rest <|> lowered).map Node.isSingle).getD false then after.push ⟨.softSpace, ""⟩ else after)
      fun isOpen => scriptedPieces (basePieces isOpen) raised lowered (supPieces isOpen)
        (subPieces isOpen) := by
  unfold scriptedPieces
  obtain ⟨primes, rest⟩ := Node.splitPrimes raised
  have scripts := ((baseQueues.andThen (pushAll (List.replicate primes (.atom primeSign)))).andThen
    (subQueues.asScript "_" lowered)).andThen (supQueues.asScript "^" rest)
  dsimp only
  split
  · exact scripts.andThen (push _)
  · simpa using scripts

end Queues

/-- Lists of pieces with a sign before each of them. The first of all has none. -/
def signed (sign : Piece) (isFirst : Bool) (lists : List (List Piece)) : List Piece :=
  if isFirst then List.intercalate [sign] lists else lists.flatMap (sign :: ·)

theorem signed_nil (sign : Piece) (isFirst : Bool) : signed sign isFirst [] = [] := by
  cases isFirst <;> rfl

theorem signed_cons (sign : Piece) (isFirst : Bool) (list : List Piece) (rest : List (List Piece)) :
    signed sign isFirst (list :: rest) =
      (if isFirst then [] else [sign]) ++ list ++ signed sign false rest := by
  cases isFirst with
  | false => simp [signed]
  | true =>
    induction rest generalizing list with
    | nil => simp [signed, List.intercalate]
    | cons next others inductionHypothesis =>
      have later := inductionHypothesis next
      simp only [signed, if_true, List.nil_append] at later ⊢
      rw [List.intercalate_cons_cons, later]
      simp

mutual

/-- The steps for a tree put its pieces in the queue, and close every call that they open. -/
theorem queues_appendInSteps : ∀ node : Node,
    Queues (Writer.appendInSteps node) fun isOpen => node.pieces isOpen
  | .leaf kind content => fun writer => by
    simp only [Writer.appendInSteps, Node.pieces]
    exact Queues.pushAll _ writer
  | .group _ args => fun writer => by
    simp only [Writer.appendInSteps, Node.pieces, piecesOfEach_eq_map]
    exact queues_appendEach 0 args writer
  | .supsub _ base sup sub => fun writer => by
    simp only [Writer.appendInSteps, Node.pieces]
    exact ((queues_appendInSteps base).asBase base).scripted sup sub (queues_appendAfterPrimes sup)
      (queues_appendOptional sub) writer
  | .unaryFunc name arg => fun writer => by
    simp only [Writer.appendInSteps, Node.pieces]
    exact (queues_appendInSteps arg).call name (by simp [List.intercalate]) writer
  | .binaryFunc name first second => fun writer => by
    simp only [Writer.appendInSteps, Node.pieces]
    have inside := ((queues_appendInSteps first).andThen (Queues.push (.atom ","))).andThen
      (queues_appendInSteps second)
    exact inside.call name (by simp [List.intercalate]) writer
  | .align _ rows => fun writer => by
    simp only [Writer.appendInSteps, Node.pieces, alignPieces, piecesOfRows_eq_map, List.map_map]
    exact queues_appendRows (.symbol "\\") (.atom "&") false true rows writer
  | .matrix call delimiter rows => fun writer => by
    simp only [Writer.appendInSteps, Node.pieces, gridPieces_eq]
    have inside := (Queues.pushAll (settingPieces delimiter)).andThen
      (queues_appendRows (.atom call.separators.1) (.atom call.separators.2) true true rows)
    exact ((Queues.push (.symbol call.word)).andThen inside.inCall) writer

theorem queues_appendAfterPrimes : ∀ sup : Option Node,
    Queues (Writer.appendAfterPrimes sup) fun isOpen => Node.piecesAfterPrimes isOpen sup
  | none => fun writer => by
    simp only [Writer.appendAfterPrimes, Node.piecesAfterPrimes]
    exact Queues.none writer
  | some (.group _ args) => fun writer => by
    simp only [Writer.appendAfterPrimes, Node.piecesAfterPrimes, piecesOfEach_eq_map,
      ← List.map_drop]
    exact queues_appendEach _ args writer
  | some (.leaf kind content) => queues_appendInSteps (.leaf kind content)
  | some (.supsub content base sup sub) => queues_appendInSteps (.supsub content base sup sub)
  | some (.unaryFunc name arg) => queues_appendInSteps (.unaryFunc name arg)
  | some (.binaryFunc name first second) => queues_appendInSteps (.binaryFunc name first second)
  | some (.align content rows) => queues_appendInSteps (.align content rows)
  | some (.matrix call delimiter rows) => queues_appendInSteps (.matrix call delimiter rows)

theorem queues_appendOptional : ∀ node : Option Node,
    Queues (Writer.appendOptional node) fun isOpen => Node.piecesOfOptional isOpen node
  | none => fun writer => by
    simp only [Writer.appendOptional, Node.piecesOfOptional]
    exact Queues.none writer
  | some node => fun writer => by
    simp only [Writer.appendOptional, Node.piecesOfOptional]
    exact queues_appendInSteps node writer

theorem queues_appendEach : ∀ (skipped : Nat) (nodes : List Node),
    Queues (Writer.appendEach skipped nodes) fun isOpen =>
      ((nodes.drop skipped).map (Node.pieces isOpen)).flatten
  | _, [] => fun writer => by simp [Writer.appendEach]
  | 0, node :: rest => fun writer => by
    simp only [Writer.appendEach]
    exact ((queues_appendInSteps node).andThen (queues_appendEach 0 rest)) writer
  | skipped + 1, node :: rest => fun writer => by
    simp only [Writer.appendEach]
    exact queues_appendEach skipped rest writer

theorem queues_appendCells (sign : Piece) (skips isFirst : Bool) : ∀ cells : List Node,
    Queues (Writer.appendCells sign skips isFirst cells) fun isOpen =>
      signed sign isFirst ((if isFirst && skips then cells.dropWhile Node.isEmptyGroup
        else cells).map (Node.pieces isOpen))
  | [] => fun writer => by simp [Writer.appendCells, signed_nil]
  | cell :: rest => fun writer => by
    simp only [Writer.appendCells]
    split
    · rename_i passes
      simp only [Bool.and_eq_true] at passes
      obtain ⟨⟨rfl, isEmpty⟩, rfl⟩ := passes
      simpa [isEmpty] using queues_appendCells sign true true rest writer
    · rename_i stays
      have kept : (if isFirst && skips then (cell :: rest).dropWhile Node.isEmptyGroup
          else cell :: rest) = cell :: rest := by
        grind [List.dropWhile_cons]
      have onward := ((Queues.separate sign isFirst).andThen (queues_appendInSteps cell)).andThen
        (queues_appendCells sign skips false rest)
      rw [kept, List.map_cons, signed_cons]
      exact onward writer

theorem queues_appendRows (rowSign cellSign : Piece) (skips isFirst : Bool) :
    ∀ rows : List (List Node),
    Queues (Writer.appendRows rowSign cellSign skips isFirst rows) fun isOpen =>
      signed rowSign isFirst (rows.map fun row => List.intercalate [cellSign]
        ((if skips then Node.writtenCells row else row).map (Node.pieces isOpen)))
  | [] => fun writer => by simp [Writer.appendRows, signed_nil]
  | row :: rest => fun writer => by
    have kept : (if true && (skips && 1 < row.length) then row.dropWhile Node.isEmptyGroup
        else row) = if skips then Node.writtenCells row else row := by
      rw [Node.writtenCells_eq]
      cases skips <;> simp
    have onward := ((Queues.separate rowSign isFirst).andThen
      (queues_appendCells cellSign (skips && 1 < row.length) true row)).andThen
      (queues_appendRows rowSign cellSign skips false rest)
    rw [kept] at onward
    simp only [Writer.appendRows, List.map_cons, signed_cons]
    exact onward writer

end

section Running

/-- What can be done with a writer before its text is asked for. -/
inductive Step where
  /-- A tree is put in the queue. -/
  | append (node : Node)
  /-- The queue is written. -/
  | flush

/-- Takes a step. -/
def Step.take : Step → Writer → Writer × Option WriteError
  | append node, writer => (writer.append node, none)
  | flush, writer => writer.flush

/-- Takes steps until one fails. -/
def Writer.run : List Step → Writer → Writer × Option WriteError
  | [], writer => (writer, none)
  | step :: rest, writer =>
    match step.take writer with
    | (next, none) => run rest next
    | (stopped, some cause) => (stopped, some cause)

/-- The trees that are put in the queue in some steps. -/
def appendedNodes (steps : List Step) : List Node :=
  steps.filterMap fun
    | .append node => some node
    | .flush => none

/-- Writing changes only the text and whether a script was written last. What waits in the
queue meanwhile makes no difference. -/
theorem writePieces_withQueue {pieces : List Piece} (writable : Writable pieces) (writer : Writer) :
    ∃ buffer afterItem, ∀ queue, { writer with queue }.writePieces pieces =
      ({ writer with buffer, queue, afterItem }, none) := by
  induction pieces generalizing writer with
  | nil => exact ⟨writer.buffer, writer.afterItem, fun _ => rfl⟩
  | cons piece rest inductionHypothesis =>
    obtain ⟨text, rendered⟩ := Option.isSome_iff_exists.mp (writable piece List.mem_cons_self)
    have onward := inductionHypothesis fun other member =>
      writable other (List.mem_cons_of_mem _ member)
    simp only [Writer.writePieces, writePiece_eq rendered]
    by_cases empty : text = ""
    · simp only [if_pos empty]
      exact onward { writer with afterItem := writer.afterItem || piece.kind == .softSpace }
    · simp only [if_neg empty]
      exact onward (writer.writeText text)

/-- The queue may be written before more is put in it. -/
theorem flush_early {writer : Writer} (writable : Writable writer.queue) :
    ∃ flushed, writer.flush = (flushed, none) ∧ flushed.queue = [] ∧
      flushed.openCalls = writer.openCalls ∧
      ∀ more, Writable more → { flushed with queue := more }.flush =
        { writer with queue := writer.queue ++ more }.flush := by
  obtain ⟨buffer, afterItem, written⟩ := writePieces_withQueue writable writer
  refine ⟨{ writer with buffer, queue := [], afterItem }, ?_, rfl, rfl, fun more moreWritable => ?_⟩
  · have wholly := written writer.queue
    unfold Writer.flush
    rw [wholly]
  · obtain ⟨later, atEnd, moreWritten⟩ :=
      writePieces_withQueue moreWritable { writer with buffer, afterItem }
    unfold Writer.flush
    rw [Writer.writePieces_append, written]
    simp only [moreWritten]

theorem writable_append {writer : Writer} (writable : Writable writer.queue) (node : Node) :
    Writable (writer.append node).queue :=
  writable.append (writable_pieces _ node)

/-- One tree after another is put in the queue as one group. -/
theorem append_group_cons (writer : Writer) (node : Node) (others : List Node) :
    (writer.append node).append (.group "" others) = writer.append (.group "" (node :: others)) := by
  simp [Writer.append, Node.pieces, Node.piecesOfEach]

/-- However early the queue is written, in the end the text is that of all trees at once. -/
theorem flush_run (steps : List Step) {writer : Writer} (writable : Writable writer.queue) :
    ∃ reached, writer.run steps = (reached, none) ∧
      reached.flush = (writer.append (.group "" (appendedNodes steps))).flush := by
  induction steps generalizing writer with
  | nil => exact ⟨writer, rfl, by simp [appendedNodes, Writer.append, Node.pieces, Node.piecesOfEach]⟩
  | cons step rest inductionHypothesis =>
    cases step with
    | append node =>
      obtain ⟨reached, runs, flushes⟩ := inductionHypothesis (writable_append writable node)
      refine ⟨reached, runs, ?_⟩
      rw [flushes, append_group_cons]
      rfl
    | flush =>
      obtain ⟨flushed, flushes, emptied, sameCalls, early⟩ := flush_early writable
      obtain ⟨reached, runs, later⟩ := @inductionHypothesis flushed (emptied ▸ Writable.nil)
      refine ⟨reached, ?_, ?_⟩
      · rw [Writer.run, Step.take, flushes]
        exact runs
      · rw [later, Writer.append, emptied, List.nil_append, early _ (writable_pieces _ _), sameCalls]
        rfl

end Running

/-- Trees may be put in the queue of a fresh writer one by one, and the queue may be written at
any time in between: no step fails, and the text in the end is that of one group of all trees.
To put a tree in the queue, step by step, is to put its pieces there, whatever the state of the
writer. The text, the pending space and the number of open calls are then as they were. -/
theorem writing_is_incremental (steps : List Step) :
    (∃ reached finished, Writer.run steps {} = (reached, none) ∧
      reached.finish = (finished, none) ∧
      write (.group "" (appendedNodes steps)) = .ok finished.buffer) ∧
    ∀ (node : Node) (writer : Writer), writer.append node = Writer.appendInSteps node writer ∧
      (Writer.appendInSteps node writer).buffer = writer.buffer ∧
      (Writer.appendInSteps node writer).afterItem = writer.afterItem ∧
      (Writer.appendInSteps node writer).openCalls = writer.openCalls := by
  constructor
  · obtain ⟨reached, runs, flushes⟩ := @flush_run steps {} Writable.nil
    have finishes : reached.finish =
        (Writer.append (.group "" (appendedNodes steps)) {}).finish := by
      unfold Writer.finish
      rw [flushes]
    obtain ⟨text, written⟩ := exists_write_eq_ok (.group "" (appendedNodes steps))
    unfold write at written ⊢
    rw [← finishes] at written ⊢
    split at written
    · rename_i finished finishing
      exact ⟨reached, finished, runs, finishing, rfl⟩
    · cases written
  · intro node writer
    rw [queues_appendInSteps node writer]
    exact ⟨rfl, rfl, rfl, rfl⟩

end MathMarkup.Typst
