import MathMarkup.Typst.Writer

/-!
# Writing a tree that is not Typst

A writer takes a TeX tree as far as its nodes are of kinds that Typst has too. At the
first other node it stops: the pieces before it stay in the queue, and the calls
around it stay open.
-/

namespace MathMarkup.Typst

/-- The pieces of a TeX tree up to the first node that stops the writer, with the
number of calls that are open there. -/
structure Excerpt where
  pieces : List Piece := []
  stop : Option (Tex.Node × Nat) := none

namespace Excerpt

/-- Pieces that nothing stops. -/
def ofPieces (pieces : List Piece) : Excerpt := { pieces }

/-- One excerpt after another. What follows a stop is left out. -/
def followedBy (first second : Excerpt) : Excerpt :=
  match first.stop with
  | some _ => first
  | none => { pieces := first.pieces ++ second.pieces, stop := second.stop }

/-- The excerpt of a node of a kind that Typst does not have. -/
def stopped (node : Tex.Node) (openCalls : Nat) : Excerpt :=
  { stop := some (node, openCalls) }

/-- The kinds of nodes that are one item as a script. -/
def isSingle : Tex.Node → Bool
  | .leaf kind _ => kind == .symbol || kind == .text
  | .unaryFunc _ _ _ | .binaryFunc _ _ _ => true
  | _ => false

/-- An excerpt in parentheses unless its node is one item. -/
def asItem (node : Tex.Node) (excerpt : Excerpt) : Excerpt :=
  if isSingle node then excerpt
  else (ofPieces [.atom "("]).followedBy (excerpt.followedBy (ofPieces [.atom ")"]))

/-- The excerpt of a script after its mark; none if there is no script. -/
def script (mark : String) (node : Option Tex.Node) (excerpt : Excerpt) : Excerpt :=
  match node with
  | none => {}
  | some node => (ofPieces [.atom mark]).followedBy (asItem node excerpt)

/-- The superscript is a single prime, which is written right after the base. -/
def isPrime : Option Tex.Node → Bool
  | some (.leaf .symbol content) => content == primeSign
  | _ => false

/-- The excerpt of a base with scripts. -/
def scripted (base : Excerpt) (sup sub : Option Tex.Node) (supExcerpt subExcerpt : Excerpt) :
    Excerpt :=
  let rest := if isPrime sup then none else sup
  let primes := if isPrime sup then [Piece.atom primeSign] else []
  let endsInItem := ((rest <|> sub).map isSingle).getD false
  base.followedBy <| (ofPieces primes).followedBy <| (script "_" sub subExcerpt).followedBy <|
    (script "^" rest supExcerpt).followedBy <|
      ofPieces (if endsInItem then [⟨.softSpace, ""⟩] else [])

/-- The excerpt of a call. -/
def call (name : String) : List Excerpt → Excerpt
  | [] => ofPieces (callPieces name [])
  | first :: rest =>
    let arguments := rest.foldl
      (fun before next => before.followedBy ((ofPieces [.atom ","]).followedBy next)) first
    (ofPieces [.symbol name, .atom "("]).followedBy (arguments.followedBy (ofPieces [.atom ")"]))

/-- The excerpt of a leaf. -/
def leaf (openCalls : Nat) (kind : Tex.LeafKind) (content : String) : Excerpt :=
  match kind with
  | .empty => {}
  | .symbol => ofPieces (leafPieces (openCalls > 0) .symbol content)
  | .text => ofPieces (leafPieces (openCalls > 0) .text content)
  | .comment => ofPieces (leafPieces (openCalls > 0) .comment content)
  | .newline => ofPieces (leafPieces (openCalls > 0) .newline content)
  | _ => stopped (.leaf kind content) openCalls

mutual

/-- The excerpt of a TeX tree inside the given number of calls. -/
def ofTex (openCalls : Nat) : Tex.Node → Excerpt
  | .leaf kind content => leaf openCalls kind content
  | .supsub _ base sup sub =>
    scripted (asItem base (ofTex openCalls base)) sup sub (ofOptionalTex openCalls sup)
      (ofOptionalTex openCalls sub)
  | .unaryFunc command arg _ => call command [ofTex (openCalls + 1) arg]
  | .binaryFunc command first second =>
    call command [ofTex (openCalls + 1) first, ofTex (openCalls + 1) second]
  | .ordgroup content args => stopped (.ordgroup content args) openCalls
  | .leftright content opening body closing =>
    stopped (.leftright content opening body closing) openCalls
  | .beginend name rows => stopped (.beginend name rows) openCalls

/-- The excerpt of a TeX tree that may be absent. -/
def ofOptionalTex (openCalls : Nat) : Option Tex.Node → Excerpt
  | none => {}
  | some node => ofTex openCalls node

end

end Excerpt

/-- Puts the pieces of a TeX tree in the queue, up to the first node that Typst does
not have. -/
def Writer.appendTex (node : Tex.Node) (writer : Writer) : Writer × Option WriteError :=
  let excerpt := Excerpt.ofTex writer.openCalls node
  let queued := { writer with queue := writer.queue ++ excerpt.pieces }
  match excerpt.stop with
  | none => (queued, none)
  | some (stop, openCalls) => ({ queued with openCalls }, some (.unwritableNode stop))

end MathMarkup.Typst
