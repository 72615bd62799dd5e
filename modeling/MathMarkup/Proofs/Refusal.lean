import MathMarkup.Proofs.Shape
import MathMarkup.Formula

/-!
# Where a conversion stops

A conversion visits the leaves of a tree in a fixed order and stops at the first one
that it refuses. A parsed tree has only two kinds of such leaves: commands that are not
known, and cell marks, which are read where no sequence of parts is read.
-/

namespace MathMarkup.Conversion

open Tex (Node)

section Visits

/-- The node is a brace below its argument; its label is converted before a script on
the other side. -/
def isUnderbrace : Node → Bool
  | .unaryFunc command _ _ => command == "\\underbrace"
  | _ => false

mutual

/-- The leaves of a tree in the order in which they are converted. -/
def visited : Node → List Node
  | .leaf kind content => [.leaf kind content]
  | .ordgroup _ args => visitedEach args
  | .supsub _ base sup sub =>
    if isUnderbrace base then visited base ++ visitedOptional sub ++ visitedOptional sup
    else visited base ++ visitedOptional sup ++ visitedOptional sub
  | .unaryFunc _ arg index => visitedOptional index ++ visited arg
  | .binaryFunc _ first second => visited first ++ visited second
  | .leftright _ opening body closing => visited opening ++ visited body ++ visited closing
  | .beginend _ rows => visitedRows rows

/-- The leaves of a tree that may be absent. -/
def visitedOptional : Option Node → List Node
  | none => []
  | some node => visited node

/-- The leaves of some trees. -/
def visitedEach : List Node → List Node
  | [] => []
  | node :: rest => visited node ++ visitedEach rest

/-- The leaves of the cells of some rows. -/
def visitedRows : List (List Node) → List Node
  | [] => []
  | row :: rest => visitedEach row ++ visitedRows rest

end

/-- The leaf is refused: it is a control token without a counterpart or, unless such
commands are passed through, a command that is not known. -/
def isRefused (passUnknown : Bool) : Node → Bool
  | .leaf .control content => content != "\\\\" && content != "\\,"
  | .leaf .unknownMacro _ => !passUnknown
  | _ => false

/-- The error that reports a refused leaf. -/
def refusal : Node → ConvertError Node
  | .leaf .control content => .unknownControl content (.leaf .control content)
  | node => .unknownMacro node.content node

/-- The first leaf of a tree that is refused. -/
def firstRefused? (passUnknown : Bool) (tree : Node) : Option Node :=
  (visited tree).find? (isRefused passUnknown)

end Visits

section Stops

variable {α β : Type} {settings : Settings}

/-- The error of a result. -/
def error? {ε σ : Type} : EStateM.Result ε σ α → Option ε
  | .ok _ _ => none
  | .error cause _ => some cause

/-- The converter stops at the first of the leaves that is refused, if one is, and
succeeds otherwise. -/
def StopsAt (settings : Settings) (converter : Converter Node α) (leaves : List Node) : Prop :=
  ∀ passed, error? (converter passed) =
    (leaves.find? (isRefused settings.passUnknown)).map refusal

theorem StopsAt.pure (value : α) : StopsAt settings (pure value) [] := fun _ => rfl

theorem StopsAt.bind {converter : Converter Node α} {next : α → Converter Node β}
    {leaves others : List Node} (first : StopsAt settings converter leaves)
    (second : ∀ value, StopsAt settings (next value) others) :
    StopsAt settings (converter >>= next) (leaves ++ others) := by
  intro passed
  have stops := first passed
  rw [List.find?_append, Option.map_or, ← stops]
  change error? (EStateM.bind converter next passed) = _
  unfold EStateM.bind
  cases converter passed with
  | ok value after => exact second value after
  | error cause after => rfl

/-- What comes after a conversion without a failure of its own changes nothing. -/
theorem StopsAt.map {converter : Converter Node α} {leaves : List Node} (build : α → β)
    (stops : StopsAt settings converter leaves) :
    StopsAt settings (do return build (← converter)) leaves := by
  simpa using stops.bind fun value => .pure (build value)

theorem StopsAt.of_map {converter : Converter Node α} {leaves : List Node} {build : α → β}
    (stops : StopsAt settings (do return build (← converter)) leaves) :
    StopsAt settings converter leaves := by
  intro passed
  have built := stops passed
  change error? (EStateM.bind converter _ passed) = _ at built
  unfold EStateM.bind at built
  cases result : converter passed with
  | ok value after =>
    rw [result] at built
    exact built
  | error cause after =>
    rw [result] at built
    exact built

/-- Leaves that are not refused need not be visited. -/
theorem StopsAt.skip {converter : Converter Node α} {leaves others : List Node}
    (stops : StopsAt settings converter others)
    (accepted : ∀ leaf ∈ leaves, isRefused settings.passUnknown leaf = false) :
    StopsAt settings converter (leaves ++ others) := by
  intro passed
  have none : leaves.find? (isRefused settings.passUnknown) = none :=
    List.find?_eq_none.mpr (by simpa using accepted)
  rw [List.find?_append, none, Option.none_or]
  exact stops passed

end Stops

section Trees

variable {settings : Settings}

/-- The conversion of the tree stops at the first of its leaves that is refused. -/
def Converts (settings : Settings) (tree : Node) : Prop :=
  StopsAt settings (convert settings tree) (visited tree)

theorem converts_leaf (kind : Tex.LeafKind) (content : String) :
    Converts settings (.leaf kind content) := by
  intro passed
  change error? (leaf settings kind content (.leaf kind content) passed) =
    ([.leaf kind content].find? (isRefused settings.passUnknown)).map refusal
  rw [List.find?_singleton]
  cases kind with
  | control =>
    unfold leaf controlToken
    split
    · rfl
    · rfl
    · rename_i noBreak noSpace
      have refused : isRefused settings.passUnknown (.leaf .control content) = true := by
        simpa [isRefused] using ⟨noBreak, noSpace⟩
      rw [if_pos refused]
      rfl
  | unknownMacro =>
    unfold leaf unknownMacro
    cases settings.passUnknown <;> rfl
  | element | text | comment | whitespace | newline | symbol | empty => rfl

theorem stopsAt_convertOptional {tree : Option Node} (converts : ∀ node ∈ tree, Converts settings node) :
    StopsAt settings (convertOptional settings tree) (visitedOptional tree) := by
  cases tree with
  | none => exact .pure none
  | some node => exact (converts node rfl).map some

theorem stopsAt_convertAll {trees : List Node} (converts : ∀ node ∈ trees, Converts settings node) :
    StopsAt settings (convertAll settings trees) (visitedEach trees) := by
  induction trees with
  | nil => exact .pure []
  | cons node rest inductionHypothesis =>
    exact (converts node (by simp)).bind fun first =>
      (inductionHypothesis fun other member =>
        converts other (List.mem_cons_of_mem _ member)).map (first :: ·)

theorem stopsAt_convertRows {rows : List (List Node)}
    (converts : ∀ row ∈ rows, ∀ cell ∈ row, Converts settings cell) :
    StopsAt settings (convertRows settings rows) (visitedRows rows) := by
  induction rows with
  | nil => exact .pure []
  | cons row rest inductionHypothesis =>
    exact (stopsAt_convertAll (converts row (by simp))).bind fun first =>
      (inductionHypothesis fun other member =>
        converts other (List.mem_cons_of_mem _ member)).map (first :: ·)

theorem converts_ordgroup {content : String} {args : List Node}
    (converts : ∀ arg ∈ args, Converts settings arg) :
    Converts settings (.ordgroup content args) :=
  (stopsAt_convertAll converts).map (Typst.Node.group "")

theorem converts_group {parts : List Node} (converts : ∀ part ∈ parts, Converts settings part) :
    Converts settings (.group parts) := by
  match parts with
  | [] => exact converts_leaf .empty ""
  | [part] => exact converts part (by simp)
  | first :: second :: rest => exact converts_ordgroup converts

theorem converts_binaryFunc {command : String} {first second : Node}
    (firstConverts : Converts settings first) (secondConverts : Converts settings second) :
    Converts settings (.binaryFunc command first second) :=
  firstConverts.bind fun first =>
    secondConverts.map (Typst.Node.binaryFunc (spell settings.symbols command) first)

theorem converts_beginend {name : String} {rows : List (List Node)}
    (converts : ∀ row ∈ rows, ∀ cell ∈ row, Converts settings cell) :
    Converts settings (.beginend name rows) :=
  (stopsAt_convertRows converts).map (environment name)

/-- A delimiter is not refused, whether it is written or not. -/
theorem stopsAt_delimiter (token : Tex.Token) :
    StopsAt settings (delimiter (Tex.Parser.delimiter token).content
      (convert settings (Tex.Parser.delimiter token))) (visited (Tex.Parser.delimiter token)) := by
  unfold delimiter
  split
  · have accepted : ∀ leaf ∈ visited (Tex.Parser.delimiter token),
        isRefused settings.passUnknown leaf = false := by
      unfold Tex.Parser.delimiter
      split <;> simp [visited, isRefused]
    simpa using (StopsAt.pure Typst.Node.empty).skip accepted
  · exact converts_leaf _ _

theorem converts_leftright {opening closing : Tex.Token} {body : Node}
    (converts : Converts settings body) :
    Converts settings
      (.leftright "" (Tex.Parser.delimiter opening) body (Tex.Parser.delimiter closing)) := by
  unfold Converts
  change StopsAt settings _ (visited _ ++ visited body ++ visited _)
  rw [List.append_assoc]
  refine (stopsAt_delimiter opening).bind fun left => converts.bind fun inner => ?_
  rw [← List.append_nil (visited (Tex.Parser.delimiter closing))]
  refine (stopsAt_delimiter closing).bind fun right => ?_
  dsimp only
  split
  · exact .pure _
  · exact .pure _

theorem eq_element_of_argumentText {arg : Node} {content : String}
    (isElement : argumentText arg = .element content) : arg = .leaf .element content := by
  unfold argumentText at isElement
  split at isElement
  · cases isElement
    rfl
  · cases isElement
  · cases isElement

/-- A command of one argument, other than the name of an operator. Only a root has an
index. -/
theorem stopsAt_unaryCall {command : String} {arg : Node} {index : Converter Node (Option Typst.Node)}
    {indexLeaves : List Node} (node : Node) (math : command ≠ "\\operatorname")
    (converts : Converts settings arg) (indexStops : StopsAt settings index indexLeaves)
    (indexed : indexLeaves = [] ∨ command = "\\sqrt") :
    StopsAt settings (unaryCall settings command (argumentText arg) (convert settings arg) index node)
      (indexLeaves ++ visited arg) := by
  unfold unaryCall
  split
  · exact absurd rfl math
  · exact absurd rfl math
  · have noIndex : indexLeaves = [] := by simpa using indexed
    rw [noIndex]
    exact converts.map _
  · rename_i content isElement
    have noIndex : indexLeaves = [] := by simpa using indexed
    rw [noIndex]
    split
    · -- The argument is an element, so that nothing is missed when it is not converted.
      have accepted : ∀ leaf ∈ visited arg, isRefused settings.passUnknown leaf = false := by
        rw [eq_element_of_argumentText isElement]
        simp [visited, isRefused]
      simpa using (StopsAt.pure _).skip accepted
    · exact converts.map _
  · refine indexStops.bind fun degree => ?_
    cases degree with
    | some degree => exact converts.map _
    | none => exact converts.map _
  · rename_i noRoot _ _
    have noIndex : indexLeaves = [] := indexed.resolve_right noRoot
    rw [noIndex]
    exact converts.map _

theorem converts_unaryFunc {command : String} {arg : Node} {index : Option Node}
    (math : command ≠ "\\operatorname") (indexed : index = none ∨ command = "\\sqrt")
    (argConverts : Converts settings arg) (indexConverts : ∀ node ∈ index, Converts settings node) :
    Converts settings (.unaryFunc command arg index) := by
  refine stopsAt_unaryCall _ math argConverts (stopsAt_convertOptional indexConverts) ?_
  rcases indexed with rfl | isRoot
  · exact .inl rfl
  · exact .inr isRoot

/-- The name of an operator is text, which is not refused. -/
theorem converts_operator (content : String) :
    Converts settings (.unaryFunc "\\operatorname" (.text content) none) := by
  unfold Converts
  have accepted : ∀ leaf ∈ visited (.unaryFunc "\\operatorname" (.text content) none),
      isRefused settings.passUnknown leaf = false := by
    simp [visited, visitedOptional, isRefused]
  have named : StopsAt settings (operatorName settings (some content)
      (.unaryFunc "\\operatorname" (.text content) none)) [] := by
    unfold operatorName
    dsimp only
    split
    · exact .pure _
    · exact .pure _
  have stops := named.skip accepted
  rw [List.append_nil] at stops
  exact stops

theorem stopsAt_scripted {base : Converter Node Typst.Node}
    {sup sub : Converter Node (Option Typst.Node)} {baseLeaves supLeaves subLeaves : List Node}
    (baseStops : StopsAt settings base baseLeaves) (supStops : StopsAt settings sup supLeaves)
    (subStops : StopsAt settings sub subLeaves) :
    StopsAt settings (scripted base sup sub) (baseLeaves ++ supLeaves ++ subLeaves) := by
  unfold scripted
  rw [List.append_assoc]
  exact baseStops.bind fun _ => supStops.bind fun _ => subStops.map _

theorem stopsAt_overbrace {body label : Converter Node Typst.Node}
    {sub : Converter Node (Option Typst.Node)} {bodyLeaves labelLeaves subLeaves : List Node}
    (bodyStops : StopsAt settings body bodyLeaves) (labelStops : StopsAt settings label labelLeaves)
    (subStops : StopsAt settings sub subLeaves) :
    StopsAt settings (overbrace body label sub) (bodyLeaves ++ labelLeaves ++ subLeaves) := by
  unfold overbrace
  rw [List.append_assoc, ← List.append_nil subLeaves]
  refine bodyStops.bind fun _ => labelStops.bind fun _ => subStops.bind fun below => ?_
  cases below with
  | none => exact .pure _
  | some below => exact .pure _

theorem stopsAt_underbrace {body label : Converter Node Typst.Node}
    {sup : Converter Node (Option Typst.Node)} {bodyLeaves labelLeaves supLeaves : List Node}
    (bodyStops : StopsAt settings body bodyLeaves) (labelStops : StopsAt settings label labelLeaves)
    (supStops : StopsAt settings sup supLeaves) :
    StopsAt settings (underbrace body label sup) (bodyLeaves ++ labelLeaves ++ supLeaves) := by
  unfold underbrace
  rw [List.append_assoc, ← List.append_nil supLeaves]
  refine bodyStops.bind fun _ => labelStops.bind fun _ => supStops.bind fun above => ?_
  cases above with
  | none => exact .pure _
  | some above => exact .pure _

/-- The argument of a brace stops where the brace does. -/
theorem stopsAt_braced {command : String} {arg : Node} {index : Option Node}
    (brace : command = "\\overbrace" ∨ command = "\\underbrace")
    (converts : Converts settings (.unaryFunc command arg index)) :
    StopsAt settings (convert settings arg) (visited (.unaryFunc command arg index)) := by
  rcases brace with rfl | rfl
  · exact .of_map converts
  · exact .of_map converts

/-- How a base with scripts is converted: an empty base becomes an empty text, and a brace
takes the script beside it as its label. -/
theorem convert_supsub (settings : Settings) (content : String) (base : Node)
    (sup sub : Option Node) :
    (∃ text, base = .leaf .empty text ∧ convert settings (.supsub content base sup sub) =
      scripted (pure (.text "")) (convertOptional settings sup) (convertOptional settings sub)) ∨
    (∃ arg index label, base = .unaryFunc "\\overbrace" arg index ∧ sup = some label ∧
      convert settings (.supsub content base sup sub) =
        overbrace (convert settings arg) (convert settings label) (convertOptional settings sub)) ∨
    (∃ arg index label, base = .unaryFunc "\\underbrace" arg index ∧ sub = some label ∧
      convert settings (.supsub content base sup sub) =
        underbrace (convert settings arg) (convert settings label) (convertOptional settings sup)) ∨
    (isUnderbrace base = true → sub = none) ∧ convert settings (.supsub content base sup sub) =
      scripted (convert settings base) (convertOptional settings sup)
        (convertOptional settings sub) := by
  by_cases isEmpty : ∃ text, base = .leaf .empty text
  · obtain ⟨text, rfl⟩ := isEmpty
    exact .inl ⟨text, rfl, rfl⟩
  by_cases isOver : ∃ arg index label, base = .unaryFunc "\\overbrace" arg index ∧ sup = some label
  · obtain ⟨arg, index, label, rfl, rfl⟩ := isOver
    exact .inr (.inl ⟨arg, index, label, rfl, rfl, rfl⟩)
  by_cases isUnder : ∃ arg index label, base = .unaryFunc "\\underbrace" arg index ∧ sub = some label
  · obtain ⟨arg, index, label, rfl, rfl⟩ := isUnder
    exact .inr (.inr (.inl ⟨arg, index, label, rfl, rfl, rfl⟩))
  refine .inr (.inr (.inr ⟨fun underbrace => ?_, ?_⟩))
  · unfold isUnderbrace at underbrace
    split at underbrace
    · rename_i command arg index
      rw [beq_iff_eq] at underbrace
      cases sub with
      | none => rfl
      | some label => exact absurd ⟨arg, index, label, by rw [underbrace], rfl⟩ isUnder
    · cases underbrace
  by_cases isCall : ∃ command arg index, base = .unaryFunc command arg index
  · obtain ⟨command, arg, index, rfl⟩ := isCall
    rw [convert]
    · rintro label rfl rfl
      exact isOver ⟨arg, index, label, rfl, rfl⟩
    · rintro label rfl rfl
      exact isUnder ⟨arg, index, label, rfl, rfl⟩
  · rw [convert]
    · rintro text rfl
      exact isEmpty ⟨text, rfl⟩
    · rintro command arg index rfl
      exact isCall ⟨command, arg, index, rfl⟩

theorem converts_supsub {content : String} {base : Node} {sup sub : Option Node}
    (baseConverts : Converts settings base) (supConverts : ∀ node ∈ sup, Converts settings node)
    (subConverts : ∀ node ∈ sub, Converts settings node) :
    Converts settings (.supsub content base sup sub) := by
  have above := stopsAt_convertOptional supConverts
  have below := stopsAt_convertOptional subConverts
  unfold Converts
  rcases convert_supsub settings content base sup sub with
    ⟨text, rfl, converted⟩ | ⟨arg, index, label, rfl, rfl, converted⟩ |
      ⟨arg, index, label, rfl, rfl, converted⟩ | ⟨noSub, converted⟩
  · have emptyStops : StopsAt settings (pure (Typst.Node.text "")) (visited (.leaf .empty text)) :=
      baseConverts
    rw [converted]
    exact stopsAt_scripted emptyStops above below
  · rw [converted]
    exact stopsAt_overbrace (stopsAt_braced (.inl rfl) baseConverts) (supConverts label rfl) below
  · rw [converted]
    exact stopsAt_underbrace (stopsAt_braced (.inr rfl) baseConverts) (subConverts label rfl) above
  · have stops := stopsAt_scripted baseConverts above below
    rw [converted, visited]
    split
    · -- A brace without a label below: there is no subscript to be converted first.
      rename_i underbrace
      rw [noSub underbrace] at stops ⊢
      simpa [visitedOptional] using stops
    · exact stops

theorem converts_attach {base : Node} {scripts : Tex.Parser.Scripts}
    (baseConverts : Converts settings base)
    (supConverts : ∀ node ∈ scripts.sup, Converts settings node)
    (subConverts : ∀ node ∈ scripts.sub, Converts settings node) :
    Converts settings (scripts.attach base) := by
  have superscriptConverts : ∀ node ∈ scripts.superscript, Converts settings node := by
    unfold Tex.Parser.Scripts.superscript
    split
    · exact supConverts
    · rintro node ⟨⟩
      refine converts_group fun part member => ?_
      rcases List.mem_append.mp member with isPrime | isSup
      · rw [List.eq_of_mem_replicate isPrime]
        exact converts_leaf _ _
      · exact supConverts part (Option.mem_toList.mp isSup)
  unfold Tex.Parser.Scripts.attach
  split
  · exact baseConverts
  · exact converts_supsub baseConverts superscriptConverts subConverts

/-- The conversion of a parsed tree stops at the first leaf that is refused. -/
theorem converts_of_shape {options : Tex.ParseOptions} {tree : Node}
    (shape : Tex.Grammar.Shape options tree) : Converts settings tree := by
  induction shape with
  | leaf plain =>
    obtain ⟨kind, content, rfl, -⟩ := Tex.Grammar.eq_leaf_of_leafOf? plain
    exact converts_leaf kind content
  | empty => exact converts_leaf _ _
  | constant arity single => exact converts_leaf _ _
  | group shapes noMark inductionHypothesis => exact converts_group inductionHypothesis
  | scripted baseShape supShape subShape baseConverts supConverts subConverts =>
    exact converts_attach baseConverts supConverts subConverts
  | operator content => exact converts_operator content
  | root argShape indexShape noMark argConverts indexConverts =>
    exact converts_unaryFunc (by decide) (.inr rfl) argConverts indexConverts
  | unaryFunc arity math argShape argConverts =>
    exact converts_unaryFunc math.2.1 (.inl rfl) argConverts (by simp)
  | binaryFunc arity firstShape secondShape firstConverts secondConverts =>
    exact converts_binaryFunc firstConverts secondConverts
  | leftright opens closes bodyShape noMark bodyConverts => exact converts_leftright bodyConverts
  | emptyCell => exact converts_ordgroup (by simp)
  | beginend cells noMark inductionHypothesis => exact converts_beginend inductionHypothesis

end Trees

section Leaves

theorem mem_visitedOptional {leaf : Node} {tree : Option Node} :
    leaf ∈ visitedOptional tree ↔ ∃ node ∈ tree, leaf ∈ visited node := by
  cases tree <;> simp [visitedOptional]

theorem mem_visitedEach {leaf : Node} {trees : List Node} :
    leaf ∈ visitedEach trees ↔ ∃ node ∈ trees, leaf ∈ visited node := by
  induction trees with
  | nil => simp [visitedEach]
  | cons node rest inductionHypothesis => simp [visitedEach, inductionHypothesis]

theorem mem_visitedRows {leaf : Node} {rows : List (List Node)} :
    leaf ∈ visitedRows rows ↔ ∃ row ∈ rows, ∃ cell ∈ row, leaf ∈ visited cell := by
  induction rows with
  | nil => simp [visitedRows]
  | cons row rest inductionHypothesis =>
    simp [visitedRows, mem_visitedEach, inductionHypothesis]

theorem mem_visited_group {leaf : Node} {parts : List Node} (visits : leaf ∈ visited (.group parts)) :
    leaf = .empty ∨ ∃ part ∈ parts, leaf ∈ visited part := by
  match parts with
  | [] => exact .inl (by simpa [Node.group, visited] using visits)
  | [part] => exact .inr ⟨part, by simp, visits⟩
  | first :: second :: rest =>
    rw [Node.group, visited, mem_visitedEach] at visits
    · exact .inr visits
    · simp
    · simp

theorem mem_visited_supsub {leaf base : Node} {content : String} {sup sub : Option Node}
    (visits : leaf ∈ visited (.supsub content base sup sub)) :
    leaf ∈ visited base ∨ leaf ∈ visitedOptional sup ∨ leaf ∈ visitedOptional sub := by
  rw [visited] at visits
  split at visits
  all_goals
    simp only [List.mem_append] at visits
    grind

theorem mem_visited_attach {leaf base : Node} {scripts : Tex.Parser.Scripts}
    (visits : leaf ∈ visited (scripts.attach base)) :
    leaf ∈ visited base ∨ leaf ∈ visitedOptional scripts.sup ∨
      leaf ∈ visitedOptional scripts.sub ∨ leaf = .symbol "\\prime" ∨ leaf = .empty := by
  have superscript (visits : leaf ∈ visitedOptional scripts.superscript) :
      leaf ∈ visitedOptional scripts.sup ∨ leaf = .symbol "\\prime" ∨ leaf = .empty := by
    unfold Tex.Parser.Scripts.superscript at visits
    split at visits
    · exact .inl visits
    · rcases mem_visited_group visits with isEmpty | ⟨part, member, visitsPart⟩
      · exact .inr (.inr isEmpty)
      · rcases List.mem_append.mp member with isPrime | isSup
        · rw [List.eq_of_mem_replicate isPrime, visited] at visitsPart
          exact .inr (.inl (List.mem_singleton.mp visitsPart))
        · exact .inl (mem_visitedOptional.mpr ⟨part, Option.mem_toList.mp isSup, visitsPart⟩)
  unfold Tex.Parser.Scripts.attach at visits
  split at visits
  · exact .inl visits
  · rcases mem_visited_supsub visits with inBase | inSup | inSub
    · exact .inl inBase
    · rcases superscript inSup with inSup | isOther
      · exact .inr (.inl inSup)
      · exact .inr (.inr (.inr isOther))
    · exact .inr (.inr (.inl inSub))

/-- The control tokens of a parsed tree are row marks, cell marks and thin spaces. -/
theorem control_of_shape {options : Tex.ParseOptions} {tree : Node}
    (shape : Tex.Grammar.Shape options tree) {content : String}
    (visits : .leaf .control content ∈ visited tree) : content ∈ ["\\\\", "\\,", "&"] := by
  induction shape with
  | leaf plain =>
    obtain ⟨kind, text, rfl, -, listed⟩ := Tex.Grammar.eq_leaf_of_leafOf? plain
    simp only [visited, List.mem_singleton, Node.leaf.injEq] at visits
    obtain ⟨rfl, rfl⟩ := visits
    exact listed rfl
  | empty => simp [visited] at visits
  | constant arity single =>
    split at visits <;> simp [visited] at visits
  | group shapes noMark inductionHypothesis =>
    rcases mem_visited_group visits with isEmpty | ⟨part, member, visitsPart⟩
    · cases isEmpty
    · exact inductionHypothesis part member visitsPart
  | scripted baseShape supShape subShape baseListed supListed subListed =>
    rcases mem_visited_attach visits with inBase | inSup | inSub | isPrime | isEmpty
    · exact baseListed inBase
    · obtain ⟨node, isSup, visitsSup⟩ := mem_visitedOptional.mp inSup
      exact supListed node isSup visitsSup
    · obtain ⟨node, isSub, visitsSub⟩ := mem_visitedOptional.mp inSub
      exact subListed node isSub visitsSub
    · cases isPrime
    · cases isEmpty
  | operator content => simp [visited, visitedOptional] at visits
  | root argShape indexShape noMark argListed indexListed =>
    rw [visited, List.mem_append, mem_visitedOptional] at visits
    rcases visits with ⟨node, isIndex, visitsIndex⟩ | visitsArg
    · exact indexListed node isIndex visitsIndex
    · exact argListed visitsArg
  | unaryFunc arity math argShape argListed =>
    exact argListed (by simpa [visited, visitedOptional] using visits)
  | binaryFunc arity firstShape secondShape firstListed secondListed =>
    rw [visited, List.mem_append] at visits
    exact visits.elim firstListed secondListed
  | leftright opens closes bodyShape noMark bodyListed =>
    have noDelimiter (token : Tex.Token) :
        .leaf .control content ∉ visited (Tex.Parser.delimiter token) := by
      unfold Tex.Parser.delimiter
      split <;> simp [visited]
    rw [visited, List.mem_append, List.mem_append] at visits
    rcases visits with (inOpening | inBody) | inClosing
    · exact absurd inOpening (noDelimiter _)
    · exact bodyListed inBody
    · exact absurd inClosing (noDelimiter _)
  | emptyCell => simp [visited, visitedEach] at visits
  | beginend cells noMark inductionHypothesis =>
    rw [visited, mem_visitedRows] at visits
    obtain ⟨row, isRow, cell, isCell, visitsCell⟩ := visits
    exact inductionHypothesis row isRow cell isCell visitsCell

/-- A leaf of a parsed tree is refused if it is a cell mark or, unless such commands
are passed through, a command that is not known. -/
theorem firstRefused?_of_shape {options : Tex.ParseOptions} {passUnknown : Bool} {tree leaf : Node}
    (shape : Tex.Grammar.Shape options tree) (first : firstRefused? passUnknown tree = some leaf) :
    leaf = .leaf .control "&" ∨
      passUnknown = false ∧ ∃ command, leaf = .leaf .unknownMacro command := by
  have refused := List.find?_some first
  have visits := List.mem_of_find?_eq_some first
  unfold isRefused at refused
  split at refused
  · have listed := control_of_shape shape visits
    simp at listed refused
    grind
  · rename_i command
    exact .inr ⟨by simpa using refused, command, rfl⟩
  · cases refused

end Leaves

section Places

open Tex.Grid (isCellMark)

/-- The parts of a superscript in which no cell mark can stand: all of them, except for
the last one after primes. -/
def unmarkedParts : List Node → List Node
  | .leaf .symbol "\\prime" :: rest => rest.dropLast
  | parts => parts

mutual

/-- Every cell mark in the tree is the base of scripts, a script or an argument. -/
def marksPlaced : Node → Bool
  | .leaf _ _ => true
  | .ordgroup _ args => args.all (!isCellMark ·) && marksPlacedEach args
  | .supsub _ base sup sub =>
    marksPlaced base && marksPlacedSuperscript sup && marksPlacedOptional sub
  | .unaryFunc _ arg index =>
    marksPlaced arg && index.all (!isCellMark ·) && marksPlacedOptional index
  | .binaryFunc _ first second => marksPlaced first && marksPlaced second
  | .leftright _ opening body closing =>
    [opening, body, closing].all (!isCellMark ·) && marksPlaced body
  | .beginend _ rows => rows.all (·.all (!isCellMark ·)) && marksPlacedRows rows

/-- The same in a superscript, which may start with primes. -/
def marksPlacedSuperscript : Option Node → Bool
  | none => true
  | some (.ordgroup _ args) => (unmarkedParts args).all (!isCellMark ·) && marksPlacedEach args
  | some node => marksPlaced node

/-- The same in a tree that may be absent. -/
def marksPlacedOptional : Option Node → Bool
  | none => true
  | some node => marksPlaced node

/-- The same in each of some trees. -/
def marksPlacedEach : List Node → Bool
  | [] => true
  | node :: rest => marksPlaced node && marksPlacedEach rest

/-- The same in each cell of some rows. -/
def marksPlacedRows : List (List Node) → Bool
  | [] => true
  | row :: rest => marksPlacedEach row && marksPlacedRows rest

end

theorem marksPlacedOptional_iff {tree : Option Node} :
    marksPlacedOptional tree = true ↔ ∀ node ∈ tree, marksPlaced node = true := by
  cases tree <;> simp [marksPlacedOptional]

theorem marksPlacedEach_iff {trees : List Node} :
    marksPlacedEach trees = true ↔ ∀ node ∈ trees, marksPlaced node = true := by
  induction trees with
  | nil => simp [marksPlacedEach]
  | cons node rest inductionHypothesis => simp [marksPlacedEach, inductionHypothesis]

theorem marksPlacedRows_iff {rows : List (List Node)} :
    marksPlacedRows rows = true ↔ ∀ row ∈ rows, ∀ cell ∈ row, marksPlaced cell = true := by
  induction rows with
  | nil => simp [marksPlacedRows]
  | cons row rest inductionHypothesis =>
    simp [marksPlacedRows, marksPlacedEach_iff, inductionHypothesis]

theorem mem_of_mem_unmarkedParts {part : Node} {parts : List Node}
    (member : part ∈ unmarkedParts parts) : part ∈ parts := by
  unfold unmarkedParts at member
  split at member
  · exact List.mem_cons_of_mem _ ((List.dropLast_sublist _).subset member)
  · exact member

theorem marksPlacedSuperscript_of_marksPlaced {node : Node} (placed : marksPlaced node = true) :
    marksPlacedSuperscript (some node) = true := by
  cases node with
  | ordgroup content args =>
    rw [marksPlaced, Bool.and_eq_true, List.all_eq_true] at placed
    rw [marksPlacedSuperscript, Bool.and_eq_true, List.all_eq_true]
    exact ⟨fun part member => placed.1 part (mem_of_mem_unmarkedParts member), placed.2⟩
  | leaf | supsub | unaryFunc | binaryFunc | leftright | beginend =>
    rw [marksPlacedSuperscript]
    · exact placed
    · simp

theorem marksPlaced_group {parts : List Node} (placed : ∀ part ∈ parts, marksPlaced part = true)
    (noMark : ∀ part ∈ parts, isCellMark part = false) : marksPlaced (.group parts) = true := by
  match parts with
  | [] => rfl
  | [part] => exact placed part (by simp)
  | first :: second :: rest =>
    have grouped : Node.group (first :: second :: rest) = .ordgroup "" (first :: second :: rest) :=
      rfl
    rw [grouped, marksPlaced, Bool.and_eq_true, List.all_eq_true, marksPlacedEach_iff]
    exact ⟨by simpa using noMark, placed⟩

/-- Only the last part of a superscript with primes can be a cell mark. -/
theorem marksPlacedSuperscript_primes {count : Nat} {sup : Option Node}
    (placed : ∀ node ∈ sup, marksPlaced node = true) :
    marksPlacedSuperscript (some (.group
      (List.replicate (count + 1) (.symbol "\\prime") ++ sup.toList))) = true := by
  have primesPlaced : ∀ part ∈ List.replicate (count + 1) (Node.symbol "\\prime") ++ sup.toList,
      marksPlaced part = true := by
    intro part member
    rcases List.mem_append.mp member with isPrime | isSup
    · rw [List.eq_of_mem_replicate isPrime]
      rfl
    · exact placed part (Option.mem_toList.mp isSup)
  cases sup with
  | none =>
    refine marksPlacedSuperscript_of_marksPlaced (marksPlaced_group primesPlaced ?_)
    intro part member
    rw [Option.toList_none, List.append_nil] at member
    rw [List.eq_of_mem_replicate member]
    rfl
  | some node =>
    -- At least one prime stands before the script, so that there are two parts or more.
    have grouped : Node.group
        (List.replicate (count + 1) (Node.symbol "\\prime") ++ (some node).toList) =
        .ordgroup "" (.symbol "\\prime" :: (List.replicate count (.symbol "\\prime") ++ [node])) := by
      cases count <;> rfl
    have unmarked : unmarkedParts
        (Node.symbol "\\prime" :: (List.replicate count (.symbol "\\prime") ++ [node])) =
        List.replicate count (.symbol "\\prime") := by
      rw [unmarkedParts, List.dropLast_concat]
    rw [grouped, marksPlacedSuperscript, unmarked, Bool.and_eq_true, List.all_eq_true,
      marksPlacedEach_iff]
    refine ⟨fun part member => ?_, primesPlaced⟩
    rw [List.eq_of_mem_replicate member]
    rfl

theorem marksPlaced_attach {base : Node} {scripts : Tex.Parser.Scripts}
    (basePlaced : marksPlaced base = true)
    (supPlaced : ∀ node ∈ scripts.sup, marksPlaced node = true)
    (subPlaced : ∀ node ∈ scripts.sub, marksPlaced node = true) :
    marksPlaced (scripts.attach base) = true := by
  have superscriptPlaced : marksPlacedSuperscript scripts.superscript = true := by
    unfold Tex.Parser.Scripts.superscript
    split
    · cases isSup : scripts.sup with
      | none => rfl
      | some node => exact marksPlacedSuperscript_of_marksPlaced (supPlaced node isSup)
    · rename_i some
      obtain ⟨count, primes⟩ := Nat.exists_eq_succ_of_ne_zero some
      rw [primes]
      exact marksPlacedSuperscript_primes supPlaced
  unfold Tex.Parser.Scripts.attach
  split
  · exact basePlaced
  · rw [marksPlaced, basePlaced, superscriptPlaced, marksPlacedOptional_iff.mpr subPlaced]
    rfl

/-- In a parsed tree every cell mark is the base of scripts, a script or an argument. -/
theorem marksPlaced_of_shape {options : Tex.ParseOptions} {tree : Node}
    (shape : Tex.Grammar.Shape options tree) : marksPlaced tree = true := by
  induction shape with
  | leaf plain =>
    obtain ⟨kind, content, rfl, -⟩ := Tex.Grammar.eq_leaf_of_leafOf? plain
    rfl
  | empty => rfl
  | constant arity single => rfl
  | group shapes noMark inductionHypothesis => exact marksPlaced_group inductionHypothesis noMark
  | scripted baseShape supShape subShape basePlaced supPlaced subPlaced =>
    exact marksPlaced_attach basePlaced supPlaced subPlaced
  | operator content => rfl
  | root argShape indexShape noMark argPlaced indexPlaced =>
    have unmarked : Option.all (!isCellMark ·) _ = true :=
      (Option.all_eq_true _ _).mpr (by simpa using noMark)
    rw [marksPlaced, argPlaced, unmarked, marksPlacedOptional_iff.mpr indexPlaced]
    rfl
  | unaryFunc arity math argShape argPlaced =>
    simpa [marksPlaced, marksPlacedOptional] using argPlaced
  | binaryFunc arity firstShape secondShape firstPlaced secondPlaced =>
    simpa [marksPlaced] using ⟨firstPlaced, secondPlaced⟩
  | leftright opens closes bodyShape noMark bodyPlaced =>
    have noDelimiter (token : Tex.Token) : isCellMark (Tex.Parser.delimiter token) = false := by
      unfold Tex.Parser.delimiter
      split <;> rfl
    simp [marksPlaced, noDelimiter, noMark, bodyPlaced]
  | emptyCell => rfl
  | beginend cells noMark inductionHypothesis =>
    simpa [marksPlaced, marksPlacedRows_iff] using ⟨noMark, inductionHypothesis⟩

end Places

end MathMarkup.Conversion
