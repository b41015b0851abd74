import PhpSymbols.Text.Bytes

/-!
Lexemes and tokens of PHP source. Lexemes cover the whole text, white space and comments included;
tokens are the lexemes that the grammar sees, each with the bytes that it covers.
-/

namespace PhpSymbols.Php
open Text (byteLength)

/-- The bytes from `start` up to but not including `stop`. -/
structure Span where
  start : Nat
  stop : Nat
  deriving DecidableEq, Repr, Inhabited

inductive LexemeKind where
  /-- Text outside the code tags. -/
  | outside
  /-- `<?php` or `<?`. -/
  | openTag
  /-- `<?=`. -/
  | openEcho
  /-- `?>`. -/
  | closeTag
  | blank
  | comment
  | docComment
  /-- `$name`. -/
  | var
  /-- An unqualified name or a keyword. -/
  | word
  /-- A name with a backslash inside. -/
  | qualified
  /-- A name with a leading backslash. -/
  | rooted
  | integer
  | float
  /-- A string without interpolation. -/
  | string
  /-- A string with interpolation, a heredoc, a nowdoc or a shell command. -/
  | template
  /-- A type name in parentheses, used as an operator. -/
  | cast
  | punctuation
  /-- A string that is never closed, or a character that belongs to no token. -/
  | stray
  /-- The end of the text. -/
  | ending
  deriving DecidableEq, Repr, Inhabited

structure Lexeme where
  kind : LexemeKind
  text : List Char
  deriving DecidableEq, Repr, Inhabited

structure Token where
  kind : LexemeKind
  text : String
  span : Span
  /-- What the grammar knows the token by: punctuation as it is, a word in lower case, and
  nothing for all other tokens. -/
  key : String
  deriving DecidableEq, Repr, Inhabited

/-- A comment; only a doc comment can document a declaration. -/
structure Comment where
  span : Span
  isDoc : Bool
  text : String
  deriving DecidableEq, Repr, Inhabited

def Lexeme.key (l : Lexeme) : String :=
  match l.kind with
  | .punctuation => String.ofList l.text
  | .word => String.ofList (Text.lower l.text)
  | _ => ""

/-- A text taken apart: what the grammar sees, ended by an end token, and the comments. -/
structure Scanned where
  tokens : Array Token := #[]
  comments : List Comment := []
  deriving Repr, Inhabited

/-- Adds a lexeme that starts at byte `at_`. -/
def Scanned.add (s : Scanned) (at_ : Nat) (l : Lexeme) : Scanned :=
  let span : Span := ⟨at_, at_ + byteLength l.text⟩
  match l.kind with
  | .blank => s
  | .comment => { s with comments := ⟨span, false, String.ofList l.text⟩ :: s.comments }
  | .docComment => { s with comments := ⟨span, true, String.ofList l.text⟩ :: s.comments }
  | kind => { s with tokens := s.tokens.push ⟨kind, String.ofList l.text, span, l.key⟩ }

/-- Places the lexemes one after the other, from byte 0 on. Comments come out in source order. -/
def Scanned.ofLexemes (ls : List Lexeme) : Scanned :=
  let (scanned, stop) := ls.foldl
    (fun (acc : Scanned × Nat) l => (acc.1.add acc.2 l, acc.2 + byteLength l.text)) ({}, 0)
  { tokens := scanned.tokens.push ⟨.ending, "", ⟨stop, stop⟩, ""⟩
    comments := scanned.comments.reverse }

end PhpSymbols.Php
