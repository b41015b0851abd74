import PhpSymbols.Text.Cut

/-!
Tags. A template is text in which tags stand between doubled braces. `Document.scan` cuts it into
pieces, each a text and the tag behind it, and the text behind the last tag.
-/

namespace PhpSymbols.Template
open Text

/-- Which value a tag asks for. -/
structure Reference where
  /-- How many blocks to leave before looking. -/
  up : Nat := 0
  /-- Whether the loop itself is asked, and not its data. -/
  isLocal : Bool := false
  /-- The steps into the value; none asks for the value itself. -/
  segments : List String := []
  deriving DecidableEq, Repr, Inhabited

/-- What decides whether and how often the body of a block is rendered. -/
inductive Helper where
  | ifTrue
  | unlessTrue
  | each
  | within
  | unknown (name : String)
  deriving DecidableEq, Repr, Inhabited

def Helper.ofName : String → Helper
  | "if" => .ifTrue
  | "unless" => .unlessTrue
  | "each" => .each
  | "with" => .within
  | name => .unknown name

/-- A helper and what it is applied to. -/
structure Call where
  name : String
  arguments : List Reference := []
  deriving DecidableEq, Repr, Inhabited

def Call.helper (c : Call) : Helper := .ofName c.name

inductive Tag where
  | value (r : Reference)
  | call (c : Call)
  | opening (c : Call)
  /-- The alternative of a block, perhaps with a condition of its own. -/
  | otherwise (c : Option Call)
  | closing (name : String)
  | comment
  deriving DecidableEq, Repr, Inhabited

/-- Why a text is no template. -/
inductive CompileFault where
  /-- What opens here is no tag, or never closes. -/
  | badTag (rest : String)
  | unclosed (name : String)
  | mismatched (opened closed : String)
  /-- The tag needs an open block, or comes after the last alternative of one. -/
  | misplaced
  deriving DecidableEq, Repr, Inhabited

/-! ### References -/

/-- The characters of names: ASCII letters and digits, a few signs, and everything beyond ASCII. -/
def isNameChar (c : Char) : Bool :=
  c.isAlphanum || c == '_' || c == '-' || c == '$' || 0x80 ≤ c.toNat

/-- The white space inside a tag. -/
def isTagBlank (c : Char) : Bool := c == ' ' || c == '\t' || c == '\n' || c == '\r'

def isSeparator (c : Char) : Bool := c == '.' || c == '/'

/-- Splits at the separators outside brackets, keeping brackets with their segment. -/
def splitSegments (inBrackets : Bool) (current : List Char) : List Char → List (List Char)
  | [] => [current.reverse]
  | c :: s =>
    if inBrackets then splitSegments (c != ']') (c :: current) s
    else if isSeparator c then current.reverse :: splitSegments false [] s
    else splitSegments (c == '[') (c :: current) s

/-- A segment by itself: a name, or any text in brackets. -/
def segment? (s : List Char) : Option String :=
  match s with
  | [] => none
  | '[' :: inner =>
    match beforeLast? ']' inner with
    | some name => if name.contains ']' then none else some (String.ofList name)
    | none => none
  | _ => if s.all isNameChar then some (String.ofList s) else none

/-- The number of leading steps out of a block, and the text behind them. -/
def leaveBlocks (up : Nat) : List Char → Nat × List Char
  | '.' :: '.' :: c :: s =>
    if isSeparator c then leaveBlocks (up + 1) s else (up, '.' :: '.' :: c :: s)
  | s => (up, s)

/-- Reads a reference. A segment that names the current value is no step. -/
def Reference.read? (s : List Char) : Option Reference := do
  let s := match s with
    | '.' :: '/' :: rest => rest
    | _ => s
  let (isLocal, s) := match s with
    | '@' :: rest => (true, rest)
    | _ => (false, s)
  let (up, s) := leaveBlocks 0 s
  let segments ← (splitSegments false [] s).mapM segment?
  return { up, isLocal, segments := segments.filter (· ≠ "this") }

/-! ### Tags -/

/-- Without the white space of tags at both ends. -/
def trimTag (s : List Char) : List Char := trimEndWhile isTagBlank (s.dropWhile isTagBlank)

/-- The words of a tag. -/
def tagWords (s : List Char) : List (List Char) := (s.splitOnP isTagBlank).filter (!·.isEmpty)

/-- The name of a helper, which may hold slashes. -/
def helperName? (s : List Char) : Option String :=
  match s with
  | [] => none
  | c :: rest =>
    if isNameChar c && rest.all fun d => isNameChar d || d == '/' then some (String.ofList s)
    else none

def Call.read? (s : List Char) : Option Call :=
  match tagWords s with
  | [] => none
  | name :: arguments => do
    return ⟨← helperName? name, ← arguments.mapM Reference.read?⟩

/-- The condition behind the word of an alternative. -/
def alternative? (s : List Char) : Option (List Char) :=
  match s with
  | '^' :: rest => some rest
  | 'e' :: 'l' :: 's' :: 'e' :: rest =>
    match rest with
    | [] => some []
    | c :: _ => if isTagBlank c then some rest else none
  | _ => none

/-- Reads what stands between the braces of a tag that is no comment. -/
def Tag.read? (s : List Char) : Option Tag :=
  match s with
  | '#' :: rest => Tag.opening <$> Call.read? rest
  | '/' :: rest => Tag.closing <$> helperName? (trimTag rest)
  | '&' :: rest => Tag.value <$> Reference.read? (trimTag rest)
  | _ =>
    match alternative? s with
    | some condition =>
      if (trimTag condition).isEmpty then some (.otherwise none)
      else (Tag.otherwise ∘ some) <$> Call.read? condition
    | none =>
      match tagWords s with
      | [one] => Tag.value <$> Reference.read? one
      | _ => Tag.call <$> Call.read? s

/-- Drops a tilde at the start, and says whether there was one. -/
def leadingTilde (s : List Char) : Bool × List Char :=
  match s with
  | '~' :: rest => (true, trimTag rest)
  | _ => (false, s)

/-- Drops a tilde at the end, and says whether there was one. -/
def trailingTilde (s : List Char) : Bool × List Char :=
  match beforeLast? '~' s with
  | some rest => (true, trimTag rest)
  | none => (false, s)

/-! ### Documents -/

/-- A tag with the text before it. -/
structure Piece where
  before : List Char
  tag : Tag
  /-- Whether the tag takes the white space before it. -/
  trimsBefore : Bool := false
  /-- Whether the tag takes the white space behind it. -/
  trimsAfter : Bool := false
  deriving DecidableEq, Repr, Inhabited

/-- The text before the first `part`, and the text behind it. -/
def splitAtText (part : List Char) : List Char → Option (List Char × List Char)
  | [] => none
  | c :: s =>
    match behind? part (c :: s) with
    | some rest => some ([], rest)
    | none => (splitAtText part s).map fun (before, rest) => (c :: before, rest)

/-- The content of a tag with a third brace on both sides. -/
def inThirdBrace? (s rest : List Char) : Option (List Char × Bool × List Char) :=
  match s with
  | '\x7b' :: inner =>
    match rest with
    | '\x7d' :: rest => some (trimTag inner, false, rest)
    | _ =>
      match trailingTilde inner with
      | (true, inner) => (beforeLast? '\x7d' inner).map fun inner => (trimTag inner, true, rest)
      | _ => none
  | _ => none

/-- The text of a comment and the text behind it. Between doubled dashes a comment may hold
closing braces. -/
def afterComment? (body : List Char) : Option (List Char × List Char) :=
  let dashed := match body with
    | '-' :: '-' :: inner => splitAtText "--\x7d\x7d".toList inner
    | _ => none
  dashed.or (splitAtText "\x7d\x7d".toList body)

/-- Reads a tag behind its opening braces: a piece without its text, and the rest. -/
def readTag (s : List Char) : Option (Piece × List Char) :=
  match s with
  | '!' :: body => do
    let (_, rest) ← afterComment? body
    return (⟨[], .comment, false, false⟩, rest)
  | _ => do
    let (content, rest) ← splitAtText "\x7d\x7d".toList s
    let (trimsBefore, content) := leadingTilde (trimTag content)
    match inThirdBrace? content rest with
    | some (inner, trimsAfter, rest) =>
      let words := tagWords inner
      let tag ← match words with
        | [one] => Tag.value <$> Reference.read? one
        | _ => Tag.call <$> Call.read? inner
      return (⟨[], tag, trimsBefore, trimsAfter⟩, rest)
    | none =>
      let (trimsAfter, content) := trailingTilde content
      return (⟨[], ← Tag.read? content, trimsBefore, trimsAfter⟩, rest)

structure Document where
  pieces : List Piece := []
  /-- The text behind the last tag. -/
  last : List Char := []
  deriving DecidableEq, Repr, Inhabited

/-- Cuts a template into pieces, at most `fuel` of them. -/
def Document.scanUpTo (fuel : Nat) (s : List Char) : Except CompileFault Document :=
  match fuel with
  | 0 => .ok ⟨[], s⟩
  | fuel + 1 =>
    match splitAtText "\x7b\x7b".toList s with
    | none => .ok ⟨[], s⟩
    | some (before, behind) =>
      match readTag behind with
      | none => .error (.badTag (String.ofList behind))
      | some (piece, rest) => do
        let d ← scanUpTo fuel rest
        return { d with pieces := { piece with before } :: d.pieces }

/-- Cuts a template into pieces. Each tag takes characters, so their number bounds the pieces. -/
def Document.scan (s : List Char) : Except CompileFault Document := scanUpTo (s.length + 1) s

end PhpSymbols.Template
