import PhpSymbols.Php.Cursor
import PhpSymbols.Php.Tree

/-!
The parts of functions: type hints, attributes, parameters, bodies and arguments. A grammar rule
takes the rules for nested expressions and statements as an argument (`Nested`), so that each
rule is a plain definition and only the depth of nesting is recursive.
-/

namespace PhpSymbols.Php
open PhpSymbols.Php.Parser

/-- The rules one level deeper: an expression that binds at least as tightly as a level, and a
statement. -/
structure Nested where
  expr : Nat → Parser Expr
  statement : Parser Stmt

namespace Grammar

def isNameToken (t : Token) : Bool :=
  t.kind == .word || t.kind == .qualified || t.kind == .rooted

/-- A name as written. -/
def name : Parser String := do
  let t ← peek
  if isNameToken t then return (← take).text else fail

/-- A single word, keyword or not. -/
def word : Parser String := do
  if (← peek).kind == .word then return (← take).text else fail

/-! ### Type hints -/

/-- Whether a hint may start with this token. -/
def startsHint (t : Token) : Bool := isNameToken t || t.key == "?" || t.key == "("

/-- One name of a hint, with `open_` parentheses open before it, and the sign that joins it to the
next name. An ampersand that no name follows belongs to the parameter. -/
def hintPart (open_ : Nat) : Parser (Option Nat) := do
  let opened ← many do
    if ← accept "(" then return some true
    else if ← accept "?" then return some false
    else return none
  let _ ← name
  let left ← following (fun n => do
    if n = 0 then return none
    else if ← accept ")" then return some (n - 1)
    else return none) (open_ + (opened.filter id).length)
  let t ← peek
  if t.key == "|" || (t.key == "&" && isNameToken (← peekAt 1)) then
    let _ ← take
    return some left
  else if left = 0 then return none
  else fail (some ")")

/-- A type hint, of which the tree keeps the place. -/
def hint : Parser Span := do
  let start ← here
  let _ ← following hintPart 0
  spanFrom start

def hintIfAny : Parser (Option Span) := do
  if startsHint (← peek) then return some (← hint) else return none

/-! ### Attributes and modifiers -/

def opens (t : Token) : Bool := t.key == "(" || t.key == "[" || t.key == "\x7b" || t.key == "#["

def closes (t : Token) : Bool := t.key == ")" || t.key == "]" || t.key == "\x7d"

/-- Takes an opening bracket and all tokens up to the one that closes it. -/
def skipBracketed : Parser Unit := do
  let _ ← take
  let left ← following (fun n => do
    let t ← peek
    if n = 0 then return none
    else if t.kind == .ending then fail
    else
      let _ ← take
      return some (if opens t then n + 1 else if closes t then n - 1 else n)) 1
  if left ≠ 0 then fail

/-- Takes the attribute lists that stand here. -/
def attributes : Parser Unit := do
  let _ ← many do
    if ← sees "#[" then
      skipBracketed
      return some ()
    else return none

def modifierOf? (t : Token) : Option Modifier :=
  match t.key with
  | "public" => some .pub
  | "protected" => some .prot
  | "private" => some .priv
  | "public(set)" | "protected(set)" | "private(set)" => some .writeScope
  | "abstract" => some .abstract
  | "final" => some .final
  | "static" => some .static
  | "readonly" => some .readonly
  | _ => none

def modifiers : Parser (List Modifier) :=
  many do
    match modifierOf? (← peek) with
    | some m =>
      let _ ← take
      return some m
    | none => return none

/-! ### Parameters, bodies and arguments -/

/-- A variable as written. -/
def writtenVariable : Parser String := do
  if (← peek).kind == .var then return (← take).text else fail

def variable_ : Parser String := plainName <$> writtenVariable

/-- A value after an equals sign. -/
def initialIfAny (g : Nested) : Parser (Option Expr) := do
  if ← accept "=" then return some (← g.expr 0) else return none

def parameter (g : Nested) : Parser Param := do
  attributes
  let ms ← modifiers
  let type ← hintIfAny
  let isReference ← accept "&"
  let isVariadic ← accept "..."
  let name ← writtenVariable
  let initial ← initialIfAny g
  let hasHooks ← sees "\x7b"
  if hasHooks then skipBracketed
  return .mk ms type isReference isVariadic name initial hasHooks

def parameters (g : Nested) : Parser (List Param) := do
  let _ ← expect "("
  let ps ← commaSeparated [")"] (parameter g)
  let _ ← expect ")"
  return ps

def returnHint : Parser (Option Span) := do
  if ← accept ":" then return some (← hint) else return none

/-- Statements between braces. -/
def body (g : Nested) : Parser Body := do
  let start ← here
  let _ ← expect "\x7b"
  let statements ← itemsUntil (·.key == "\x7d") g.statement
  let _ ← expect "\x7d"
  return .mk (← spanFrom start) statements

/-- One argument: a value, a spread or a named value. -/
def argument (g : Nested) : Parser Expr := do
  let _ ← accept "..."
  if (← peek).kind == .word && (← peekAt 1).key == ":" then
    let _ ← take
    let _ ← take
  g.expr 0

/-- The arguments of a call. Three points alone make a function of the callee instead. -/
def arguments (g : Nested) : Parser (Option (List Expr)) := do
  let _ ← expect "("
  if (← sees "...") && (← peekAt 1).key == ")" then
    let _ ← take
    let _ ← take
    return none
  let values ← commaSeparated [")"] (argument g)
  let _ ← expect ")"
  return some values

/-- A named function, from its keyword on. -/
def functionDecl (g : Nested) (start : Nat) : Parser FunctionDecl := do
  let _ ← expect "function"
  let _ ← accept "&"
  let name ← word
  let ps ← parameters g
  let type ← returnHint
  let b ← body g
  return .mk (← spanFrom start) name ps type b

end Grammar
end PhpSymbols.Php
