import PhpSymbols.Php.Grammar.Statement
import PhpSymbols.Text.Letter

/-!
Method headers without an end. While a method is being written, its header stands without a body
or semicolon, and the grammar would drop it. A semicolon is put behind each such header and the
text is read again; places in the text as given are shifted past the semicolons before them.
-/

namespace PhpSymbols.Php
open Text

/-- Whether `c` can end a signature. -/
def endsSignature (c : Char) : Bool := c == ')' || c == '_' || c == '\\' || isAlphanumeric c

/-- The text behind the last brace or semicolon. -/
def sinceBoundary (before : List Char) : List Char :=
  (before.reverse.takeWhile fun c => c != '{' && c != '}' && c != ';').reverse

/-- The place behind the function header that stands before a fault where only an opening brace
would have fitted. -/
def headerEnd? (text : List Char) (fault : Fault) : Option Nat := do
  if fault.expected ≠ some "\x7b" ∨ fault.found.kind = .ending then none
  else
    let before ← takeBytes? fault.found.span.start text
    let rest := sinceBoundary before
    let header := trimEnd rest
    if containsText "function".toList header ∧ header.getLast?.any endsSignature then
      some (byteLength before - byteLength rest + byteLength header)
    else none

/-- `xs` without an element that equals the one before it. -/
def withoutRepeats : List Nat → List Nat
  | [] => []
  | [x] => [x]
  | x :: y :: xs => if x = y then withoutRepeats (y :: xs) else x :: withoutRepeats (y :: xs)

/-- The places behind all unfinished headers, in order. -/
def headerEnds (text : List Char) (faults : List Fault) : List Nat :=
  withoutRepeats ((faults.filterMap (headerEnd? text)).mergeSort (· ≤ ·))

/-- `s` with a semicolon at each of the ascending `places`; `s` starts at byte `at_`. -/
def insertSemicolons (at_ : Nat) (places : List Nat) (s : List Char) : List Char :=
  match places, s with
  | [], s => s
  | _ :: _, [] => places.map fun _ => ';'
  | p :: ps, c :: s =>
    if p ≤ at_ then ';' :: insertSemicolons at_ ps (c :: s)
    else c :: insertSemicolons (at_ + c.utf8Size) (p :: ps) s
termination_by places.length + s.length

/-- A source as read, and the places in the given text at which it was mended. -/
structure Reading where
  /-- The text that the program's places refer to. -/
  text : List Char := []
  program : Program := {}
  inserted : List Nat := []

/-- The place in the text as read of a place in the text as given. It is within the limit for
offsets where the text as read is. -/
def Reading.shifted (r : Reading) (offset : Nat) : Nat :=
  offset + (r.inserted.filter (· ≤ offset)).length

/-- Reads a source, and once more if it has unfinished headers. -/
def Reading.of [Frontend] (source : String) : Reading :=
  let text := source.toList
  let first := Frontend.parse source
  match headerEnds text first.faults with
  | [] => ⟨text, first, []⟩
  | places =>
    let mended := insertSemicolons 0 places text
    ⟨mended, Frontend.parse (String.ofList mended), places⟩

/-- The text between two places. -/
def Reading.textAt (r : Reading) (span : Span) : String :=
  String.ofList (slice span.start span.stop r.text)

/-- The doc comment among `comments`, the nearest first, that belongs to what starts at `start`:
only white space and other comments stand between the two. -/
def attached? (text : List Char) (start : Nat) : (comments : List Comment) → Option String
  | [] => none
  | c :: comments =>
    if (slice c.span.stop start text).all isAsciiBlank then
      if c.isDoc then some c.text else attached? text c.span.start comments
    else none

/-- The doc comment of the declaration that starts at `start`. -/
def Reading.docComment? (r : Reading) (start : Nat) : Option String :=
  attached? r.text start (r.program.comments.filter (·.span.start < start)).reverse

end PhpSymbols.Php
