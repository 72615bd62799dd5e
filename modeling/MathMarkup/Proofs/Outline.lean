import MathMarkup.Proofs.WrittenLines

/-!
# The outline of what is written

What is written for a node is a list of signs with the pieces of other nodes in between.
`Node.outline` is this list before the nodes in it are written. All that is proved about
every node by looking at what it writes itself goes by induction on outlines.
-/

namespace MathMarkup.Typst

namespace Node

/-- The nodes that stand directly in a node. -/
def parts : Node → List Node
  | leaf _ _ => []
  | group _ args => args
  | supsub _ base sup sub => base :: (sup.toList ++ sub.toList)
  | unaryFunc _ arg => [arg]
  | binaryFunc _ first second => [first, second]
  | align _ rows => rows.flatten
  | matrix _ _ rows => rows.flatten

/-- The first node is the second one or stands in it. -/
inductive Within : Node → Node → Prop where
  | refl (node : Node) : Within node node
  | part {node part whole : Node} (within : Within node part) (isPart : part ∈ whole.parts) :
      Within node whole

theorem sizeOf_part {part whole : Node} (isPart : part ∈ whole.parts) : sizeOf part < sizeOf whole := by
  cases whole with
  | leaf => cases isPart
  | group content args =>
    have smaller : sizeOf part < sizeOf args := List.sizeOf_lt_of_mem isPart
    simp only [group.sizeOf_spec]
    omega
  | supsub content base sup sub =>
    simp only [parts, List.mem_cons, List.mem_append, Option.mem_toList] at isPart
    rcases isPart with rfl | isSup | isSub
    · simp only [supsub.sizeOf_spec]
      omega
    · cases isSup
      simp only [supsub.sizeOf_spec, Option.some.sizeOf_spec]
      omega
    · cases isSub
      simp only [supsub.sizeOf_spec, Option.some.sizeOf_spec]
      omega
  | unaryFunc name arg =>
    cases List.mem_singleton.mp isPart
    simp only [unaryFunc.sizeOf_spec]
    omega
  | binaryFunc name first second =>
    simp only [parts, List.mem_cons, List.not_mem_nil, or_false] at isPart
    rcases isPart with rfl | rfl
    all_goals
      simp only [binaryFunc.sizeOf_spec]
      omega
  | align content rows =>
    obtain ⟨row, isRow, isCell⟩ := List.mem_flatten.mp isPart
    have := List.sizeOf_lt_of_mem isRow
    have := List.sizeOf_lt_of_mem isCell
    simp only [align.sizeOf_spec]
    omega
  | matrix call delimiter rows =>
    obtain ⟨row, isRow, isCell⟩ := List.mem_flatten.mp isPart
    have := List.sizeOf_lt_of_mem isRow
    have := List.sizeOf_lt_of_mem isCell
    simp only [matrix.sizeOf_spec]
    omega

end Node

section Outline

/-- A place in what is written for a node: a sign, or a part of the node. -/
inductive Slot where
  | sign (piece : Piece)
  | part (inCall : Bool) (node : Node)

/-- The pieces that are written for a slot. -/
def Slot.pieces : Slot → List Piece
  | sign piece => [piece]
  | part inCall node => node.pieces inCall

/-- The pieces that are written for slots. -/
def written (slots : List Slot) : List Piece :=
  slots.flatMap Slot.pieces

/-- The slots in parentheses, unless the node is one item. -/
def itemSlots (node : Node) (slots : List Slot) : List Slot :=
  if node.isSingle then slots else .sign (.atom "(") :: slots ++ [.sign (.atom ")")]

/-- The slots of a base. -/
def baseSlots (node : Node) (slots : List Slot) : List Slot :=
  if node.isBracketed then slots else itemSlots node slots

/-- The slots of a script after its mark; none if there is no script. -/
def scriptSlots (mark : String) (script : Option Node) (slots : List Slot) : List Slot :=
  match script with
  | none => []
  | some node => .sign (.atom mark) :: itemSlots node slots

/-- The slots of a call. -/
def callSlots (name : String) (slots : List Slot) : List Slot :=
  .sign (.symbol name) :: .sign (.atom "(") :: slots ++ [.sign (.atom ")")]

/-- The slots of rows of cells. -/
def gridSlots (inCall : Bool) (rowSign cellSign : Piece) (rows : List (List Node)) : List Slot :=
  List.intercalate [.sign rowSign] (rows.map fun row =>
    List.intercalate [.sign cellSign] (row.map fun cell => [.part inCall cell]))

/-- What is set before the rows of a matrix. -/
def settingPieces (delimiter : Option String) : List Piece :=
  delimiter.toList.map fun sign => .symbol ("delim: " ++ sign ++ ", ")

/-- The cells of a row that are written. -/
def Node.writtenCells (row : List Node) : List Node :=
  row.drop (unwrittenCells row)

/-- What follows the primes that a superscript starts with. -/
def Node.afterPrimes : Option Node → List Node
  | none => []
  | some (group _ args) => args.drop (leadingPrimes args)
  | some node => [node]

/-- What is written for a node, with its parts in their places. -/
def Node.outline (inCall : Bool) : Node → List Slot
  | leaf kind content => (leafPieces inCall kind content).map .sign
  | group _ args => args.map (.part inCall)
  | supsub _ base sup sub =>
    baseSlots base [.part inCall base] ++ List.replicate (splitPrimes sup).1 (.sign (.atom primeSign))
      ++ scriptSlots "_" sub (sub.toList.map (.part inCall))
      ++ scriptSlots "^" (splitPrimes sup).2 ((afterPrimes sup).map (.part inCall))
      ++ if (((splitPrimes sup).2 <|> sub).map isSingle).getD false then [.sign ⟨.softSpace, ""⟩] else []
  | unaryFunc name arg => callSlots name [.part true arg]
  | binaryFunc name first second =>
    callSlots name [.part true first, .sign (.atom ","), .part true second]
  | align _ rows => gridSlots inCall (.symbol "\\") (.atom "&") rows
  | matrix call delimiter rows =>
    callSlots call.word ((settingPieces delimiter).map .sign ++
      gridSlots true (.atom call.separators.1) (.atom call.separators.2) (rows.map writtenCells))

@[simp]
theorem written_nil : written [] = [] := rfl

@[simp]
theorem written_sign_cons (piece : Piece) (slots : List Slot) :
    written (.sign piece :: slots) = piece :: written slots := rfl

@[simp]
theorem written_part_cons (inCall : Bool) (node : Node) (slots : List Slot) :
    written (.part inCall node :: slots) = node.pieces inCall ++ written slots := rfl

@[simp]
theorem written_append (first second : List Slot) :
    written (first ++ second) = written first ++ written second :=
  List.flatMap_append

@[simp]
theorem written_signs (pieces : List Piece) : written (pieces.map .sign) = pieces := by
  induction pieces with
  | nil => rfl
  | cons piece rest inductionHypothesis => simp [inductionHypothesis]

@[simp]
theorem written_replicate (count : Nat) (piece : Piece) :
    written (List.replicate count (.sign piece)) = List.replicate count piece := by
  rw [← List.map_replicate, written_signs]

@[simp]
theorem written_parts (inCall : Bool) (nodes : List Node) :
    written (nodes.map (.part inCall)) = (nodes.map (Node.pieces inCall)).flatten := by
  induction nodes with
  | nil => rfl
  | cons node rest inductionHypothesis => simp [inductionHypothesis]

@[simp]
theorem written_intercalate (separator : Piece) (lists : List (List Slot)) :
    written (List.intercalate [.sign separator] lists) =
      List.intercalate [separator] (lists.map written) := by
  induction lists with
  | nil => rfl
  | cons first others inductionHypothesis =>
    cases others with
    | nil => simp
    | cons second others =>
      rw [List.intercalate_cons_cons, written_append, inductionHypothesis]
      simp

@[simp]
theorem written_itemSlots (node : Node) (slots : List Slot) :
    written (itemSlots node slots) = asItem node (written slots) := by
  unfold itemSlots asItem
  split <;> simp [parenthesized]

@[simp]
theorem written_baseSlots (node : Node) (slots : List Slot) :
    written (baseSlots node slots) = asBase node (written slots) := by
  unfold baseSlots asBase
  split <;> simp

@[simp]
theorem written_scriptSlots (mark : String) (script : Option Node) (slots : List Slot) :
    written (scriptSlots mark script slots) = scriptPieces mark script (written slots) := by
  cases script <;> simp [scriptSlots, scriptPieces]

@[simp]
theorem written_callSlots (name : String) (slots : List Slot) :
    written (callSlots name slots) = .symbol name :: parenthesized (written slots) := by
  simp [callSlots, parenthesized]

@[simp]
theorem written_gridSlots (inCall : Bool) (rowSign cellSign : Piece) (rows : List (List Node)) :
    written (gridSlots inCall rowSign cellSign rows) = List.intercalate [rowSign] (rows.map fun row =>
      List.intercalate [cellSign] (row.map (Node.pieces inCall))) := by
  simp [gridSlots, Function.comp_def]

theorem piecesAfterPrimes_eq (inCall : Bool) (sup : Option Node) :
    Node.piecesAfterPrimes inCall sup = ((Node.afterPrimes sup).map (Node.pieces inCall)).flatten := by
  cases sup with
  | none => rfl
  | some node =>
    cases node with
    | group content args =>
      rw [Node.piecesAfterPrimes, piecesOfEach_eq_map, Node.afterPrimes, List.map_drop]
    | leaf | supsub | unaryFunc | binaryFunc | align | matrix =>
      simp [Node.piecesAfterPrimes, Node.afterPrimes]

theorem gridPieces_eq (call : GridCall) (delimiter : Option String) (rows : List (List Node)) :
    gridPieces call delimiter rows (Node.piecesOfRows true rows) =
      .symbol call.word :: parenthesized (settingPieces delimiter ++
        List.intercalate [.atom call.separators.1] (rows.map fun row =>
          List.intercalate [.atom call.separators.2] ((Node.writtenCells row).map (Node.pieces true)))) := by
  unfold gridPieces
  dsimp only
  rw [piecesOfRows_eq_map, List.zipWith_map_right, List.zipWith_self]
  simp only [← List.map_drop]
  rfl

/-- The outline of a node is what is written for it. -/
theorem pieces_eq_written (inCall : Bool) (node : Node) :
    node.pieces inCall = written (node.outline inCall) := by
  cases node with
  | leaf kind content => simp [Node.pieces, Node.outline]
  | group content args => simp [Node.pieces, Node.outline, piecesOfEach_eq_map]
  | supsub content base sup sub =>
    have subPieces : Node.piecesOfOptional inCall sub =
        (sub.toList.map (Node.pieces inCall)).flatten := by
      cases sub <;> simp [Node.piecesOfOptional]
    rw [Node.pieces, scriptedPieces, piecesAfterPrimes_eq, subPieces, Node.outline]
    generalize Node.splitPrimes sup = primesAndRest
    simp [apply_ite written]
  | unaryFunc name arg => simp [Node.pieces, Node.outline, callPieces]
  | binaryFunc name first second => simp [Node.pieces, Node.outline, callPieces]
  | align content rows =>
    simp [Node.pieces, Node.outline, alignPieces, piecesOfRows_eq_map, Function.comp_def]
  | matrix call delimiter rows =>
    rw [Node.pieces, gridPieces_eq, Node.outline]
    simp [Function.comp_def]

section Parts

variable {inner inCall : Bool} {node : Node}

@[simp]
theorem part_mem_intercalate {separator : Piece} {lists : List (List Slot)} :
    Slot.part inner node ∈ List.intercalate [.sign separator] lists ↔
      ∃ slots ∈ lists, Slot.part inner node ∈ slots := by
  induction lists with
  | nil => simp
  | cons first others inductionHypothesis =>
    cases others with
    | nil => simp
    | cons second others =>
      rw [List.intercalate_cons_cons, List.mem_append, List.mem_append, inductionHypothesis]
      simp

@[simp]
theorem part_mem_itemSlots {item : Node} {slots : List Slot} :
    Slot.part inner node ∈ itemSlots item slots ↔ Slot.part inner node ∈ slots := by
  unfold itemSlots
  split <;> simp

@[simp]
theorem part_mem_baseSlots {item : Node} {slots : List Slot} :
    Slot.part inner node ∈ baseSlots item slots ↔ Slot.part inner node ∈ slots := by
  unfold baseSlots
  split <;> simp

@[simp]
theorem part_mem_scriptSlots {mark : String} {script : Option Node} {slots : List Slot} :
    Slot.part inner node ∈ scriptSlots mark script slots ↔
      script.isSome = true ∧ Slot.part inner node ∈ slots := by
  cases script <;> simp [scriptSlots]

@[simp]
theorem part_mem_callSlots {name : String} {slots : List Slot} :
    Slot.part inner node ∈ callSlots name slots ↔ Slot.part inner node ∈ slots := by
  simp [callSlots]

@[simp]
theorem part_mem_gridSlots {rowSign cellSign : Piece} {rows : List (List Node)} :
    Slot.part inner node ∈ gridSlots inCall rowSign cellSign rows ↔
      inner = inCall ∧ ∃ row ∈ rows, node ∈ row := by
  constructor
  · intro member
    obtain ⟨slots, isSlots, inSlots⟩ := part_mem_intercalate.mp member
    obtain ⟨row, isRow, rfl⟩ := List.mem_map.mp isSlots
    obtain ⟨cells, isCells, inCells⟩ := part_mem_intercalate.mp inSlots
    obtain ⟨cell, isCell, rfl⟩ := List.mem_map.mp isCells
    cases List.mem_singleton.mp inCells
    exact ⟨rfl, row, isRow, isCell⟩
  · rintro ⟨rfl, row, isRow, isCell⟩
    exact part_mem_intercalate.mpr ⟨_, List.mem_map_of_mem isRow,
      part_mem_intercalate.mpr ⟨_, List.mem_map_of_mem isCell, by simp⟩⟩

@[simp]
theorem part_mem_parts {nodes : List Node} :
    Slot.part inner node ∈ nodes.map (Slot.part inCall) ↔ inner = inCall ∧ node ∈ nodes := by
  grind

theorem part_mem_matrix {call : GridCall} {delimiter : Option String} {rows : List (List Node)} :
    Slot.part inner node ∈ (Node.matrix call delimiter rows).outline inCall ↔
      inner = true ∧ ∃ row ∈ rows, node ∈ Node.writtenCells row := by
  simp [Node.outline]

theorem part_mem_supsub {content : String} {base : Node} {sup sub : Option Node} :
    Slot.part inner node ∈ (Node.supsub content base sup sub).outline inCall ↔
      inner = inCall ∧ (node = base ∨ node ∈ sub ∨
        (Node.splitPrimes sup).2.isSome = true ∧ node ∈ Node.afterPrimes sup) := by
  have noPrime : ∀ count, Slot.part inner node ∉ List.replicate count (.sign (.atom primeSign)) := by
    simp [List.mem_replicate]
  have noSpace : ∀ isItem : Bool, Slot.part inner node ∉
      if isItem = true then [.sign ⟨.softSpace, ""⟩] else [] := by
    intro isItem
    split <;> simp
  have isSub : sub.isSome = true ∧ inner = inCall ∧ node ∈ sub ↔ inner = inCall ∧ node ∈ sub := by
    cases sub <;> simp
  simp only [Node.outline, List.mem_append, part_mem_baseSlots, part_mem_scriptSlots, part_mem_parts,
    List.mem_singleton, Slot.part.injEq, Option.mem_toList, noPrime, noSpace, or_false]
  tauto

/-- What follows the primes is the superscript itself or parts of it. -/
theorem mem_afterPrimes {sup : Option Node} (member : node ∈ Node.afterPrimes sup) :
    ∃ script ∈ sup, node = script ∨ node ∈ script.parts := by
  unfold Node.afterPrimes at member
  split at member
  · cases member
  · exact ⟨_, rfl, .inr (List.mem_of_mem_drop member)⟩
  · exact ⟨_, rfl, .inl (List.mem_singleton.mp member)⟩

/-- In the outline stand the parts of the node, and for a superscript its parts. -/
theorem parts_of_mem_outline {whole : Node} (member : Slot.part inner node ∈ whole.outline inCall) :
    (inCall = true → inner = true) ∧
      (node ∈ whole.parts ∨ ∃ script ∈ whole.parts, node ∈ script.parts) := by
  cases whole with
  | leaf kind content => simp [Node.outline] at member
  | group content args =>
    obtain ⟨rfl, isArg⟩ := part_mem_parts.mp member
    exact ⟨id, .inl isArg⟩
  | supsub content base sup sub =>
    obtain ⟨rfl, rfl | isSub | ⟨-, afterPrimes⟩⟩ := part_mem_supsub.mp member
    · exact ⟨id, .inl (by simp [Node.parts])⟩
    · exact ⟨id, .inl (by simp [Node.parts, Option.mem_def.mp isSub])⟩
    · obtain ⟨script, rfl, rfl | inScript⟩ := mem_afterPrimes afterPrimes
      · exact ⟨id, .inl (by simp [Node.parts])⟩
      · exact ⟨id, .inr ⟨script, by simp [Node.parts], inScript⟩⟩
  | unaryFunc name arg =>
    obtain ⟨rfl, rfl⟩ : inner = true ∧ node = arg := by simpa [Node.outline] using member
    exact ⟨fun _ => rfl, .inl (by simp [Node.parts])⟩
  | binaryFunc name first second =>
    obtain ⟨rfl, isArg⟩ : inner = true ∧ (node = first ∨ node = second) := by
      simpa [Node.outline, ← and_or_left] using member
    exact ⟨fun _ => rfl, .inl (by simpa [Node.parts] using isArg)⟩
  | align content rows =>
    obtain ⟨rfl, row, isRow, isCell⟩ := part_mem_gridSlots.mp member
    exact ⟨id, .inl (List.mem_flatten.mpr ⟨row, isRow, isCell⟩)⟩
  | matrix call delimiter rows =>
    obtain ⟨rfl, row, isRow, isCell⟩ := part_mem_matrix.mp member
    exact ⟨fun _ => rfl, .inl (List.mem_flatten.mpr ⟨row, isRow, List.mem_of_mem_drop isCell⟩)⟩

/-- What holds of a node if it holds of everything in its outline holds of every node. -/
theorem induction_on_outline {motive : Bool → Node → Prop} (inCall : Bool) (node : Node)
    (step : ∀ inCall whole, (∀ inner part, Slot.part inner part ∈ whole.outline inCall →
      motive inner part) → motive inCall whole) : motive inCall node :=
  step inCall node fun inner part _ => induction_on_outline inner part step
termination_by sizeOf node
decreasing_by
  rcases (parts_of_mem_outline ‹_›).2 with isPart | ⟨script, isScript, inScript⟩
  · exact Node.sizeOf_part isPart
  · exact (Node.sizeOf_part inScript).trans (Node.sizeOf_part isScript)

end Parts

end Outline

section Occurrences

/-- In what is written for the first node, the second one is written between the given pieces. -/
inductive Occurs : Bool → Node → List Piece → Bool → Node → List Piece → Prop where
  | here (inCall : Bool) (node : Node) : Occurs inCall node [] inCall node []
  | inside {inCall inner innermost : Bool} {whole part node : Node} {left right : List Slot}
      {before after : List Piece} (place : whole.outline inCall = left ++ .part inner part :: right)
      (occurs : Occurs inner part before innermost node after) :
      Occurs inCall whole (written left ++ before) innermost node (after ++ written right)

variable {inCall inner : Bool} {whole node : Node} {before after : List Piece}

theorem Occurs.pieces_eq (occurs : Occurs inCall whole before inner node after) :
    whole.pieces inCall = before ++ (node.pieces inner ++ after) := by
  induction occurs with
  | here inCall node => simp
  | inside place _ inductionHypothesis =>
    rw [pieces_eq_written, place, written_append, written_part_cons, inductionHypothesis]
    simp

/-- The node is a call. -/
def Node.isCall : Node → Bool
  | unaryFunc _ _ | binaryFunc _ _ _ | matrix _ _ _ => true
  | _ => false

/-- A node that is not written where it stands holds no call. -/
theorem isCall_of_unwritten {unwritten : Node}
    (isUnwritten : unwritten.isPrime = true ∨ unwritten.isEmptyGroup = true)
    (within : node.Within unwritten) : node.isCall = false := by
  cases unwritten with
  | leaf kind content =>
    rcases within with _ | ⟨_, ⟨⟩⟩
    rfl
  | group content args =>
    cases args with
    | nil =>
      rcases within with _ | ⟨_, ⟨⟩⟩
      rfl
    | cons first others => simp [Node.isPrime, Node.isEmptyGroup] at isUnwritten
  | supsub | unaryFunc | binaryFunc | align | matrix =>
    simp [Node.isPrime, Node.isEmptyGroup] at isUnwritten

theorem isSome_splitPrimes_group {content : String} {args : List Node} {arg : Node}
    (left : arg ∈ args.drop (Node.leadingPrimes args)) :
    (Node.splitPrimes (some (.group content args))).2.isSome = true := by
  simp only [Node.splitPrimes]
  split <;> simp_all

/-- Every call in a superscript comes after the primes. -/
theorem exists_afterPrimes {script : Node} (isCall : node.isCall = true) (within : node.Within script) :
    (Node.splitPrimes (some script)).2.isSome = true ∧
      ∃ place ∈ Node.afterPrimes (some script), node.Within place := by
  have single (split : Node.splitPrimes (some script) =
        if script.isPrime then (1, none) else (0, some script))
      (after : Node.afterPrimes (some script) = [script]) :
      (Node.splitPrimes (some script)).2.isSome = true ∧
        ∃ place ∈ Node.afterPrimes (some script), node.Within place := by
    have notPrime : ¬ script.isPrime = true := by
      intro prime
      simp [isCall_of_unwritten (.inl prime) within] at isCall
    exact ⟨by simp [split, notPrime], script, by simp [after], within⟩
  cases script with
  | group content args =>
    cases within with
    | refl => cases isCall
    | part within isArg =>
      rename_i arg
      have split : arg ∈ args.take (Node.leadingPrimes args) ∨
          arg ∈ args.drop (Node.leadingPrimes args) := by
        rw [← List.mem_append, List.take_append_drop]
        exact isArg
      rcases split with isPrime | isLeft
      · rw [Node.leadingPrimes, ← List.prefix_iff_eq_take.mp (List.takeWhile_prefix _)] at isPrime
        have prime : arg.isPrime = true := List.all_eq_true.mp List.all_takeWhile arg isPrime
        simp [isCall_of_unwritten (.inl prime) within] at isCall
      · exact ⟨isSome_splitPrimes_group isLeft, arg, isLeft, within⟩
  | leaf | supsub | unaryFunc | binaryFunc | align | matrix => exact single rfl rfl

/-- Every call in a part of a node is in the outline of the node. -/
theorem exists_slot_of_part {part : Node} (isCall : node.isCall = true) (isPart : part ∈ whole.parts)
    (within : node.Within part) (inCall : Bool) :
    ∃ inner place, Slot.part inner place ∈ whole.outline inCall ∧ node.Within place := by
  cases whole with
  | leaf kind content => cases isPart
  | group content args => exact ⟨inCall, part, part_mem_parts.mpr ⟨rfl, isPart⟩, within⟩
  | supsub content base sup sub =>
    simp only [Node.parts, List.mem_cons, List.mem_append, Option.mem_toList] at isPart
    rcases isPart with rfl | rfl | isSub
    · exact ⟨inCall, part, part_mem_supsub.mpr ⟨rfl, .inl rfl⟩, within⟩
    · obtain ⟨isSome, place, isPlace, within⟩ := exists_afterPrimes isCall within
      exact ⟨inCall, place, part_mem_supsub.mpr ⟨rfl, .inr (.inr ⟨isSome, isPlace⟩)⟩, within⟩
    · exact ⟨inCall, part, part_mem_supsub.mpr ⟨rfl, .inr (.inl isSub)⟩, within⟩
  | unaryFunc name arg =>
    exact ⟨true, part, by simpa [Node.outline] using List.mem_singleton.mp isPart, within⟩
  | binaryFunc name first second =>
    exact ⟨true, part, by simpa [Node.outline, Node.parts] using isPart, within⟩
  | align content rows =>
    obtain ⟨row, isRow, isCell⟩ := List.mem_flatten.mp isPart
    exact ⟨inCall, part, part_mem_gridSlots.mpr ⟨rfl, row, isRow, isCell⟩, within⟩
  | matrix call delimiter rows =>
    obtain ⟨row, isRow, isCell⟩ := List.mem_flatten.mp isPart
    rw [← List.take_append_drop (Node.unwrittenCells row) row, List.mem_append] at isCell
    rcases isCell with unwritten | isWritten
    · have noCall := isCall_of_unwritten (.inr (isEmptyGroup_of_unwritten unwritten)) within
      simp [noCall] at isCall
    · exact ⟨true, part, part_mem_matrix.mpr ⟨rfl, row, isRow, isWritten⟩, within⟩

/-- Every call in a tree is written somewhere. -/
theorem exists_occurs (inCall : Bool) (whole : Node) (isCall : node.isCall = true)
    (within : node.Within whole) :
    ∃ before inner after, Occurs inCall whole before inner node after := by
  induction inCall, whole using induction_on_outline with
  | step inCall whole inductionHypothesis =>
    rcases within with _ | ⟨within, isPart⟩
    · exact ⟨[], inCall, [], .here inCall node⟩
    · obtain ⟨inner, place, isSlot, within⟩ := exists_slot_of_part isCall isPart within inCall
      obtain ⟨before, innermost, after, occurs⟩ := inductionHypothesis inner place isSlot within
      obtain ⟨left, right, split⟩ := List.append_of_mem isSlot
      exact ⟨_, innermost, _, .inside split occurs⟩

end Occurrences

end MathMarkup.Typst
