import PhpSymbols.Template.Tag

/-!
Templates as trees. Compiling settles the white space around tags first and then nests the blocks.
A block tag or comment that stands alone on its line takes the line with it; a tag with a tilde
takes all white space on that side.
-/

namespace PhpSymbols.Template
open Text

inductive Node where
  | text (s : String)
  /-- Prints a value. -/
  | value (r : Reference)
  /-- A helper without a block prints nothing of its own. -/
  | call (c : Call)
  | block (c : Call) (body otherwise : List Node)
  deriving Repr, Inhabited

/-! ### White space -/

def isLineBlank (c : Char) : Bool := c == ' ' || c == '\t'

def isLineEnd (c : Char) : Bool := c == '\n' || c == '\r'

/-- Whether the last line of the text before a tag is blank. The text before the first tag also
starts a line. -/
def endsWithBlankLine (isFirst : Bool) (before : List Char) : Bool :=
  match (trimEndWhile isLineBlank before).getLast? with
  | none => isFirst
  | some c => isLineEnd c

/-- Whether the first line of the text behind a tag is blank. The text behind the last tag also
ends with a line if there is none of it. -/
def startsWithBlankLine (isLast : Bool) (behind : List Char) : Bool :=
  match behind.dropWhile isLineBlank with
  | [] => isLast && behind.isEmpty
  | c :: _ => isLineEnd c

/-- Drops the rest of a blank line with its end. -/
def dropLine (s : List Char) : List Char :=
  match s.dropWhile isLineBlank with
  | '\r' :: '\n' :: rest => rest
  | '\n' :: rest => rest
  | rest => rest

/-- Tags that take their line if they stand alone on it. -/
def Tag.isLineTag : Tag → Bool
  | opening _ | otherwise _ | closing _ | comment => true
  | value _ | call _ => false

/-- What the tags so far ask of the next text. -/
structure Gap where
  /-- White space at its start goes. -/
  trims : Bool := false
  /-- The rest of its first line goes. -/
  dropsLine : Bool := false
  deriving DecidableEq, Repr, Inhabited

namespace Gap

/-- The text between two tags, cut at its start. -/
def cut (g : Gap) (s : List Char) : List Char :=
  if g.trims then trimStart s else if g.dropsLine then dropLine s else s

/-- Whether the wish to drop a line outlives the text `s`: if there is no text, or none but white
space that goes anyway. -/
def stillDrops (g : Gap) (s : List Char) : Bool :=
  g.dropsLine && (s.isEmpty || (g.trims && s.all isTagBlank))

end Gap

/-- The pieces with their texts cut as the tags around them ask. -/
def Piece.settleAll (g : Gap) (isFirst : Bool) (last : List Char) :
    List Piece → List (String × Tag) × String
  | [] => ([], String.ofList (g.cut last))
  | p :: ps =>
    let behind := (ps.head?.map (·.before)).getD last
    let isAlone := p.tag.isLineTag && endsWithBlankLine isFirst p.before &&
      startsWithBlankLine ps.isEmpty behind
    let text := g.cut p.before
    let text := if p.trimsBefore then trimEnd text else text
    let text := if isAlone then trimEndWhile isLineBlank text else text
    let next : Gap := {
      trims := if p.tag = .comment then g.trims else p.trimsAfter
      dropsLine := if p.tag.isLineTag then isAlone else g.stillDrops p.before }
    let (settled, last) := settleAll next false last ps
    ((String.ofList text, p.tag) :: settled, last)

def Document.settle (d : Document) : List (String × Tag) × String :=
  Piece.settleAll {} true d.last d.pieces

/-! ### Blocks -/

/-- A block whose closing tag is still to come. -/
structure OpenBlock where
  call : Call
  /-- Whether it is the alternative of the block around it and closes with that one. -/
  isChained : Bool := false
  /-- The body, once the block has come to its last alternative. -/
  body : Option (List Node) := none
  /-- The nodes of the current part, the latest first. -/
  nodes : List Node := []
  deriving Repr, Inhabited

namespace OpenBlock

def add (o : OpenBlock) (n : Node) : OpenBlock := { o with nodes := n :: o.nodes }

/-- The block, if it were closed here. -/
def toNode (o : OpenBlock) : Node :=
  match o.body with
  | none => .block o.call o.nodes.reverse []
  | some body => .block o.call body o.nodes.reverse

/-- Goes on to the alternative. -/
def toAlternative (o : OpenBlock) : OpenBlock :=
  { o with body := some o.nodes.reverse, nodes := [] }

end OpenBlock

/-- The blocks that are open, the innermost first, and the nodes outside them, the latest first. -/
structure Nesting where
  blocks : List OpenBlock := []
  nodes : List Node := []
  deriving Repr, Inhabited

namespace Nesting

def add (n : Nesting) (node : Node) : Nesting :=
  match n.blocks with
  | [] => { n with nodes := node :: n.nodes }
  | o :: os => { n with blocks := o.add node :: os }

def addText (n : Nesting) (s : String) : Nesting := if s.isEmpty then n else n.add (.text s)

/-- Closes blocks up to the first that is no alternative of another, which is called `name`. -/
def closeBlocks (name : String) (inner : Option Node) :
    List OpenBlock → Except CompileFault (Node × List OpenBlock)
  | [] => .error .misplaced
  | o :: os =>
    let o := match inner with
      | some node => o.add node
      | none => o
    if o.isChained then closeBlocks name (some o.toNode) os
    else if o.call.name = name then .ok (o.toNode, os)
    else .error (.mismatched o.call.name name)

/-- Takes the next tag. -/
def step (n : Nesting) : Tag → Except CompileFault Nesting
  | .value r => .ok (n.add (.value r))
  | .call c => .ok (n.add (.call c))
  | .comment => .ok n
  | .opening c => .ok { n with blocks := { call := c } :: n.blocks }
  | .otherwise c =>
    match n.blocks with
    | [] => .error .misplaced
    | o :: os =>
      if o.body.isSome then .error .misplaced
      else
        let blocks := o.toAlternative :: os
        match c with
        | none => .ok { n with blocks }
        | some c => .ok { n with blocks := { call := c, isChained := true } :: blocks }
  | .closing name => do
    let (node, blocks) ← closeBlocks name none n.blocks
    return ({ n with blocks } : Nesting).add node

def run (n : Nesting) : List (String × Tag) → Except CompileFault Nesting
  | [] => .ok n
  | (text, tag) :: rest => do ((← (n.addText text).step tag).run rest)

end Nesting

end PhpSymbols.Template

namespace PhpSymbols

/-- A compiled template. -/
structure Template where
  nodes : List Template.Node := []
  deriving Repr, Inhabited

namespace Template

/-- Compiles the text of a template. -/
def compile (source : String) : Except CompileFault Template := do
  let document ← Document.scan source.toList
  let (settled, last) := document.settle
  let nesting ← ({} : Nesting).run settled
  match nesting.blocks with
  | [] => return ⟨(nesting.addText last).nodes.reverse⟩
  | o :: _ => throw (.unclosed o.call.name)

end Template
end PhpSymbols
