import PhpSymbols.Php.Token

/-!
Cutting PHP source into lexemes. Every lexeme is the longest that its kind allows at its place.
The lexemes put together are the source again (`flatten_lexemes`), so no character is lost.
-/

namespace PhpSymbols.Php
open Text

/-- Letters, the underscore and everything beyond ASCII may start a name. -/
def isNameStart (c : Char) : Bool := c.isAlpha || c == '_' || 128 ≤ c.toNat

def isNameChar (c : Char) : Bool := isNameStart c || c.isDigit

def isCodeBlank (c : Char) : Bool := isAsciiBlank c || c == '\x0b'

/-- How many characters at the start of `s` satisfy `p`. -/
def runLength (p : Char → Bool) (s : List Char) : Nat := (s.takeWhile p).length

/-- Whether `s` starts with `word`, in any letter case. -/
def startsIgnoringCase (word : String) (s : List Char) : Bool :=
  word.toList.isPrefixOf (lower (s.take word.length))

/-! ### Names -/

/-- The length of the name at the start of `s`, with the segments after its backslashes. -/
def nameLength : List Char → Nat
  | [] => 0
  | '\\' :: c :: rest => if isNameStart c then 2 + nameLength rest else 0
  | c :: rest => if isNameChar c then 1 + nameLength rest else 0

/-- A visibility with `(set)` right behind it is one word. -/
def wordLength (s : List Char) : Nat :=
  let n := nameLength s
  let word := String.ofList (lower (s.take n))
  if (word = "public" ∨ word = "protected" ∨ word = "private") ∧
      startsIgnoringCase "(set)" (s.drop n) then n + 5
  else n

/-! ### Numbers -/

def isNumberChar (c : Char) : Bool := c.isDigit || c == '_'

def isHexChar (c : Char) : Bool :=
  c.isDigit || ('a' ≤ c && c ≤ 'f') || ('A' ≤ c && c ≤ 'F') || c == '_'

/-- The length of the exponent at the start of `s`, or 0. -/
def exponentLength (s : List Char) : Nat :=
  match s with
  | e :: rest =>
    if e = 'e' ∨ e = 'E' then
      match rest with
      | sign :: digits@(d :: _) =>
        if (sign = '+' ∨ sign = '-') ∧ d.isDigit then 2 + runLength isNumberChar digits
        else if sign.isDigit then 1 + runLength isNumberChar rest
        else 0
      | [d] => if d.isDigit then 2 else 0
      | [] => 0
    else 0
  | [] => 0

/-- The length of a point and the digits after it, or 0. Two points are no fraction. -/
def fractionLength : List Char → Nat
  | '.' :: '.' :: _ => 0
  | '.' :: rest => 1 + runLength isNumberChar rest
  | _ => 0

def decimalLexeme (s : List Char) : LexemeKind × Nat :=
  let whole := runLength isNumberChar s
  let fraction := fractionLength (s.drop whole)
  let exponent := exponentLength (s.drop (whole + fraction))
  (if fraction + exponent = 0 then .integer else .float, whole + fraction + exponent)

def numberLexeme (s : List Char) : LexemeKind × Nat :=
  match s with
  | '0' :: x :: rest =>
    if x = 'x' ∨ x = 'X' then (.integer, 2 + runLength isHexChar rest)
    else if x = 'b' ∨ x = 'B' ∨ x = 'o' ∨ x = 'O' then (.integer, 2 + runLength isNumberChar rest)
    else decimalLexeme s
  | _ => decimalLexeme s

/-! ### Strings -/

/-- What the reader of a string is inside of. -/
inductive Enclosure where
  /-- Text up to this quote, in which variables and braced code are interpolated. -/
  | text (quote : Char)
  /-- Code up to a closing brace. -/
  | code
  /-- Text up to a single quote. -/
  | plain
  deriving DecidableEq, Repr

/-- The enclosures after the character `c` of code. -/
def Enclosure.afterCode (c : Char) (outer : List Enclosure) : List Enclosure :=
  if c = '}' then outer
  else if c = '{' then .code :: .code :: outer
  else if c = '"' then .text '"' :: .code :: outer
  else if c = '\'' then .plain :: .code :: outer
  else .code :: outer

/-- Reads on, `n` characters after the opening quote, until every enclosure is closed. The number
of characters read and whether any was interpolated; `none` when the text ends first. -/
def stringEnd (inside : List Enclosure) (n : Nat) (interpolated : Bool) (s : List Char) :
    Option (Nat × Bool) :=
  match inside, s with
  | [], _ => some (n, interpolated)
  | _ :: _, [] => none
  | .text q :: outer, '\\' :: _ :: rest => stringEnd (.text q :: outer) (n + 2) interpolated rest
  | .text q :: outer, '$' :: '{' :: rest => stringEnd (.code :: .text q :: outer) (n + 2) true rest
  | .text q :: outer, '{' :: '$' :: rest => stringEnd (.code :: .text q :: outer) (n + 2) true rest
  | .text q :: outer, '$' :: c :: rest =>
    stringEnd (.text q :: outer) (n + 1) (interpolated || isNameStart c) (c :: rest)
  | .text q :: outer, c :: rest =>
    stringEnd (if c = q then outer else .text q :: outer) (n + 1) interpolated rest
  | .plain :: outer, '\\' :: _ :: rest => stringEnd (.plain :: outer) (n + 2) interpolated rest
  | .plain :: outer, c :: rest =>
    stringEnd (if c = '\'' then outer else .plain :: outer) (n + 1) interpolated rest
  | .code :: outer, c :: rest =>
    stringEnd (Enclosure.afterCode c outer) (n + 1) interpolated rest

/-- The string that opens with the first character of `s`. -/
def stringLexeme (s : List Char) (enclosure : Enclosure) : LexemeKind × Nat :=
  match stringEnd [enclosure] 1 false (s.drop 1) with
  | none => (.stray, s.length)
  | some (n, interpolated) =>
    (if interpolated || enclosure == .text '\x60' then .template else .string, n)

/-- Where the heredoc with this label ends, `n` characters after its start: the label stands
first on its line, indented or not, and no name goes on behind it. -/
def heredocEnd (label : List Char) (lineStart : Bool) (n : Nat) : List Char → Option Nat
  | [] => none
  | c :: rest =>
    let indent := runLength (fun d => d == ' ' || d == '\t') (c :: rest)
    match lineStart, behind? label ((c :: rest).drop indent) with
    | true, some behind =>
      if behind.head?.any isNameChar then heredocEnd label (c == '\n' || c == '\r') (n + 1) rest
      else some (n + indent + label.length)
    | _, _ => heredocEnd label (c == '\n' || c == '\r') (n + 1) rest

/-- The length of the heredoc or nowdoc that opens with the three less-than signs of `s`, or
`none` when they open none. -/
def heredocLexeme? (s : List Char) : Option (LexemeKind × Nat) :=
  let lead := 3 + runLength (fun c => c == ' ' || c == '\t') (s.drop 3)
  let (quote, opened) := match s.drop lead with
    | '\'' :: _ => (['\''], lead + 1)
    | '"' :: _ => (['"'], lead + 1)
    | _ => ([], lead)
  let label := (s.drop opened).takeWhile isNameChar
  let body := opened + label.length + quote.length
  let closed := (s.drop (opened + label.length)).take quote.length == quote
  let ended := match s.drop body with
    | '\n' :: _ | '\r' :: _ => true
    | _ => false
  if closed && ended && label.head?.any isNameStart then
    some <| match heredocEnd label true body (s.drop body) with
      | some n => (.template, n)
      | none => (.stray, s.length)
  else none

/-! ### Comments and tags -/

/-- The length of a comment that ends with its line or before a closing tag. -/
def lineCommentLength : List Char → Nat
  | [] => 0
  | '?' :: '>' :: _ => 0
  | c :: rest => if c = '\n' ∨ c = '\r' then 0 else 1 + lineCommentLength rest

/-- The length of the rest of a comment up to its closing delimiter. -/
def blockCommentLength (n : Nat) : List Char → Nat
  | [] => n
  | '*' :: '/' :: _ => n + 2
  | _ :: rest => blockCommentLength (n + 1) rest

/-- A comment is a doc comment if it opens with two stars and is not empty. -/
def blockCommentLexeme (s : List Char) : LexemeKind × Nat :=
  let kind := match s.drop 2 with
    | '*' :: '/' :: _ => .comment
    | '*' :: _ => .docComment
    | _ => .comment
  (kind, blockCommentLength 2 (s.drop 2))

/-- The length of the text before the next opening tag. -/
def outsideLength (n : Nat) : List Char → Nat
  | [] => n
  | '<' :: '?' :: _ => n
  | _ :: rest => outsideLength (n + 1) rest

def openTagLexeme (s : List Char) : LexemeKind × Nat :=
  if startsIgnoringCase "<?php" s then (.openTag, 5)
  else if startsIgnoringCase "<?=" s then (.openEcho, 3)
  else (.openTag, 2)

/-! ### Casts and punctuation -/

def castNames : List String := [
  "array", "bool", "boolean", "double", "real", "float", "int", "integer", "object", "unset",
  "string", "binary", "void"]

/-- The length of a cast: the name of a type between parentheses. -/
def castLength? (s : List Char) : Option Nat :=
  let isPad := fun c => c == ' ' || c == '\t'
  let lead := 1 + runLength isPad (s.drop 1)
  let name := (s.drop lead).takeWhile isNameChar
  let stop := lead + name.length
  let close := stop + runLength isPad (s.drop stop)
  if castNames.contains (String.ofList (lower name)) ∧ (s.drop close).head? = some ')' then
    some (close + 1)
  else none

/-- Operators of more than one character; a longer one stands before its beginnings. -/
def operators : List String := [
  "<=>", "**=", "...", "<<=", ">>=", "===", "!==", "??=", "?->", "+=", "-=", "*=", "/=", ".=",
  "%=", "&=", "|=", "^=", "==", "!=", "<>", "<=", ">=", "&&", "||", "??", "++", "--", "<<", ">>",
  "->", "=>", "::", "**", "|>", "#["]

def singles : List Char := "+-*/%=<>!.,;:?()[]\x7b\x7d&|^~@$\\".toList

def punctuationLexeme (s : List Char) : LexemeKind × Nat :=
  match operators.find? (fun o => o.toList.isPrefixOf s) with
  | some o => (.punctuation, o.length)
  | none => match s with
    | c :: _ => if singles.contains c then (.punctuation, 1) else (.stray, 1)
    | [] => (.stray, 1)

/-! ### Lexemes -/

/-- The kind and length of the lexeme of code at the start of `s`. -/
def codeLexeme (s : List Char) : LexemeKind × Nat :=
  match s with
  | [] => (.stray, 0)
  | '?' :: '>' :: _ => (.closeTag, 2)
  | '/' :: '/' :: rest => (.comment, 2 + lineCommentLength rest)
  | '/' :: '*' :: _ => blockCommentLexeme s
  | '\'' :: _ => stringLexeme s .plain
  | '"' :: _ => stringLexeme s (.text '"')
  | '\x60' :: _ => stringLexeme s (.text '\x60')
  | '<' :: '<' :: '<' :: _ => (heredocLexeme? s).getD (punctuationLexeme s)
  | '#' :: rest =>
    if rest.head? = some '[' then (.punctuation, 2) else (.comment, 1 + lineCommentLength rest)
  | '\\' :: rest =>
    if rest.head?.any isNameStart then (.rooted, 1 + nameLength rest) else (.punctuation, 1)
  | '$' :: rest =>
    if rest.head?.any isNameStart then (.var, 1 + runLength isNameChar rest)
    else (.punctuation, 1)
  | '(' :: _ => match castLength? s with
    | some n => (.cast, n)
    | none => (.punctuation, 1)
  | c :: rest =>
    if isCodeBlank c then (.blank, runLength isCodeBlank s)
    else if isNameStart c then
      let n := wordLength s
      (if (s.take n).contains '\\' then .qualified else .word, n)
    else if c.isDigit || (c == '.' && rest.head?.any Char.isDigit) then numberLexeme s
    else punctuationLexeme s

/-- The kind and length of the lexeme at the start of `s`. -/
def headLexeme (inCode : Bool) (s : List Char) : LexemeKind × Nat :=
  if inCode then codeLexeme s
  else match s with
    | '<' :: '?' :: _ => openTagLexeme s
    | _ => (.outside, outsideLength 0 s)

/-- Whether code follows a lexeme of this kind. -/
def codeFollows (inCode : Bool) : LexemeKind → Bool
  | .openTag | .openEcho => true
  | .closeTag => false
  | _ => inCode

/-- The lexemes of `s`. A text starts outside code. -/
def lexemes (inCode : Bool) (s : List Char) : List Lexeme :=
  match s with
  | [] => []
  | c :: rest =>
    let (kind, n) := headLexeme inCode (c :: rest)
    ⟨kind, c :: rest.take (n - 1)⟩ :: lexemes (codeFollows inCode kind) (rest.drop (n - 1))
termination_by s.length
decreasing_by
  simp only [List.length_drop, List.length_cons]
  omega

/-- Scans a source: its tokens, and the comments between them. -/
def scan (source : String) : Scanned := Scanned.ofLexemes (lexemes false source.toList)

theorem flatten_lexemes (inCode : Bool) (s : List Char) :
    ((lexemes inCode s).map (·.text)).flatten = s := by
  fun_induction lexemes inCode s with
  | case1 => rfl
  | case2 inCode c rest kind n h ih =>
    simp only [List.map_cons, List.flatten_cons, ih, List.cons_append, List.take_append_drop]

end PhpSymbols.Php
