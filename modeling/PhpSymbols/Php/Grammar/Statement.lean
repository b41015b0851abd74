import PhpSymbols.Php.Grammar.Expression
import PhpSymbols.Php.Lexer

/-!
Statements and programs. The statements of a block, a branch or the whole source form a list that
goes on after a fault.
-/

namespace PhpSymbols.Php

def ClassDecl.span : ClassDecl → Span
  | .mk span .. => span

def ClassDecl.name : ClassDecl → String
  | .mk _ _ _ name _ _ _ _ => name

def ClassDecl.braces : ClassDecl → Span
  | .mk _ _ _ _ _ _ braces _ => braces

def FunctionDecl.span : FunctionDecl → Span
  | .mk span .. => span

def FunctionDecl.name : FunctionDecl → String
  | .mk _ name _ _ _ => name

def Stmt.span : Stmt → Span
  | .markup s | .expression s _ | .block s _ | .ifElse s _ _ _ _ | .foreach s _ _ _ _ _
  | .forLoop s _ _ _ _ | .whileLoop s _ _ | .doWhile s _ _ | .tryCatch s _ _ _ | .global s _
  | .staticVars s _ _ | .ret s _ | .echo s _ | .switch s _ _ | .declare s _ | .ns s _ _
  | .use s _ | .other s _ => s
  | .classLike d => d.span
  | .function d => d.span

namespace Grammar
open PhpSymbols.Php.Parser

/-! ### Bodies of control statements -/

/-- An expression between parentheses. -/
def condition (g : Nested) : Parser Expr := do
  let _ ← expect "("
  let e ← g.expr 0
  let _ ← expect ")"
  return e

def statementsUntil (g : Nested) (keys : List String) : Parser (List Stmt) :=
  itemsUntil (fun t => keys.contains t.key) g.statement

/-- One statement, or after a colon all statements up to the keyword `ending`. -/
def controlled (g : Nested) (ending : String) : Parser (Span × List Stmt) := do
  let start ← here
  if ← accept ":" then
    let ss ← statementsUntil g [ending]
    let _ ← expect ending
    terminator
    return (← spanFrom start, ss)
  else
    let s ← g.statement
    return (s.span, [s])

/-- The branches after the body of an `if` whose bodies are single statements. -/
def elseBranches (g : Nested) : Parser (List ElseIf × List Stmt) := do
  let elseIfs ← many do
    if ← accept "elseif" then
      let c ← condition g
      return some (.mk c [← g.statement])
    else return none
  let otherwise ← if ← accept "else" then (fun s => [s]) <$> g.statement else pure []
  return (elseIfs, otherwise)

/-- The branches of an `if` whose bodies follow colons. -/
def colonBranches (g : Nested) : Parser (List ElseIf × List Stmt) := do
  let ends := ["elseif", "else", "endif"]
  let elseIfs ← many do
    if ← accept "elseif" then
      let c ← condition g
      let _ ← expect ":"
      return some (.mk c (← statementsUntil g ends))
    else return none
  let otherwise ←
    if ← accept "else" then
      let _ ← expect ":"
      statementsUntil g ["endif"]
    else pure []
  let _ ← expect "endif"
  terminator
  return (elseIfs, otherwise)

def ifStatement (g : Nested) (start : Nat) : Parser Stmt := do
  let _ ← expect "if"
  let c ← condition g
  if ← accept ":" then
    let ss ← statementsUntil g ["elseif", "else", "endif"]
    let (elseIfs, otherwise) ← colonBranches g
    return .ifElse (← spanFrom start) c ss elseIfs otherwise
  else
    let s ← g.statement
    let (elseIfs, otherwise) ← elseBranches g
    return .ifElse (← spanFrom start) c [s] elseIfs otherwise

def foreachStatement (g : Nested) (start : Nat) : Parser Stmt := do
  let _ ← expect "foreach"
  let _ ← expect "("
  let subject ← g.expr 0
  let _ ← expect "as"
  let first ← g.expr 0
  let second ← if ← accept "=>" then some <$> g.expr 0 else pure none
  let _ ← expect ")"
  let (bodySpan, ss) ← controlled g "endforeach"
  let span ← spanFrom start
  match second with
  | none => return .foreach span subject none first bodySpan ss
  | some value => return .foreach span subject (some first) value bodySpan ss

def forStatement (g : Nested) (start : Nat) : Parser Stmt := do
  let _ ← expect "for"
  let _ ← expect "("
  let inits ← commaSeparated [";"] (g.expr 0)
  let _ ← expect ";"
  let conditions ← commaSeparated [";"] (g.expr 0)
  let _ ← expect ";"
  let steps ← commaSeparated [")"] (g.expr 0)
  let _ ← expect ")"
  let (_, ss) ← controlled g "endfor"
  return .forLoop (← spanFrom start) inits conditions steps ss

def whileStatement (g : Nested) (start : Nat) : Parser Stmt := do
  let _ ← expect "while"
  let c ← condition g
  let (_, ss) ← controlled g "endwhile"
  return .whileLoop (← spanFrom start) c ss

def doStatement (g : Nested) (start : Nat) : Parser Stmt := do
  let _ ← expect "do"
  let s ← g.statement
  let _ ← expect "while"
  let c ← condition g
  terminator
  return .doWhile (← spanFrom start) [s] c

/-- The statements of a body. -/
def block (g : Nested) : Parser (List Stmt) := do
  let .mk _ ss ← body g
  return ss

def catchClause (g : Nested) : Parser (Option Catch) := do
  let start ← here
  if ← accept "catch" then
    let _ ← expect "("
    let type ← hint
    let caught ← if (← peek).kind == .var then some <$> variable_ else pure none
    let _ ← expect ")"
    let ss ← block g
    return some (.mk (← spanFrom start) type caught ss)
  else return none

def tryStatement (g : Nested) (start : Nat) : Parser Stmt := do
  let _ ← expect "try"
  let ss ← block g
  let catches ← many (catchClause g)
  let ensureStart ← here
  let ensure ←
    if ← accept "finally" then
      let inner ← block g
      pure (some (Ensure.mk (← spanFrom ensureStart) inner))
    else pure none
  return .tryCatch (← spanFrom start) ss catches ensure

/-! ### Switches -/

def switchCase (g : Nested) (ending : String) : Parser Case := do
  let label ←
    if ← accept "default" then pure none
    else
      let _ ← expect "case"
      some <$> g.expr 0
  if !(← accept ":") then
    let _ ← accept ";"
  return .mk label (← statementsUntil g ["case", "default", ending])

def switchStatement (g : Nested) (start : Nat) : Parser Stmt := do
  let _ ← expect "switch"
  let subject ← condition g
  let ending ←
    if ← accept ":" then pure "endswitch"
    else
      let _ ← expect "\x7b"
      pure "\x7d"
  let _ ← many do
    let t ← peek
    if t.key == ";" || t.kind == .closeTag || t.kind == .openTag then
      let _ ← take
      return some ()
    else return none
  let cases ← itemsUntil (·.key == ending) (switchCase g ending)
  let _ ← expect ending
  if ending = "endswitch" then terminator
  return .switch (← spanFrom start) subject cases

/-! ### Namespaces and imports -/

def importKind : Parser (Option ImportKind) := do
  let ahead ← peekAt 1
  if !isNameToken ahead then return none
  if ← accept "function" then return some .function
  if ← accept "const" then return some .constant
  return none

def importItem : Parser ImportItem := do
  let kind ← importKind
  let path ← name
  let local_ ← if ← accept "as" then some <$> word else pure none
  return ⟨kind, path, local_⟩

def useStatement (start : Nat) : Parser Stmt := do
  let _ ← expect "use"
  let kind ← importKind
  if (← peekAt 1).key == "\\" then
    let group ← name
    let _ ← expect "\\"
    let _ ← expect "\x7b"
    let items ← commaSeparated ["\x7d"] importItem
    let _ ← expect "\x7d"
    terminator
    return .use (← spanFrom start) ⟨kind, some group, items⟩
  else
    let items ← commaSeparated [";"] importItem
    terminator
    return .use (← spanFrom start) ⟨kind, none, items⟩

def namespaceStatement (g : Nested) (start : Nat) : Parser Stmt := do
  let _ ← expect "namespace"
  let path ← if isNameToken (← peek) then some <$> name else pure none
  if ← sees "\x7b" then
    let ss ← block g
    return .ns (← spanFrom start) path ss
  else
    terminator
    let ss ← statementsUntil g ["namespace"]
    return .ns (← spanFrom start) path ss

/-! ### Other statements -/

/-- Names of the plain variables in a list of variables. -/
def globalStatement (g : Nested) (start : Nat) : Parser Stmt := do
  let _ ← expect "global"
  let names ← commaSeparated [";"] do
    match ← g.expr unaryLevel with
    | .var _ name => return [name]
    | _ => return []
  terminator
  return .global (← spanFrom start) names.flatten

def staticStatement (g : Nested) (start : Nat) : Parser Stmt := do
  let _ ← expect "static"
  let items ← commaSeparated [";"] do
    let name ← variable_
    return (name, ← initialIfAny g)
  terminator
  return .staticVars (← spanFrom start) (items.map (·.1)) (items.filterMap (·.2))

/-- The value of a `return` or `break`, if there is one before the end of the statement. -/
def valueIfAny (g : Nested) : Parser (Option Expr) := do
  let t ← peek
  if t.key == ";" || t.key == "\x7d" || t.kind == .closeTag || t.kind == .ending then return none
  else return some (← g.expr 0)

def declareStatement (g : Nested) (start : Nat) : Parser Stmt := do
  let _ ← expect "declare"
  let _ ← expect "("
  let _ ← commaSeparated [")"] do
    let _ ← word
    initialIfAny g
  let _ ← expect ")"
  if ← accept ";" then return .declare (← spanFrom start) []
  else
    let (_, ss) ← controlled g "enddeclare"
    return .declare (← spanFrom start) ss

/-- A keyword and expressions between commas. -/
def listStatement (g : Nested) (start : Nat) : Parser Stmt := do
  let _ ← take
  let values ← commaSeparated [";"] (g.expr 0)
  terminator
  return .other (← spanFrom start) values

/-- A keyword and expressions between commas and parentheses. -/
def enclosedStatement (g : Nested) (start : Nat) : Parser Stmt := do
  let _ ← take
  let _ ← expect "("
  let values ← commaSeparated [")"] (g.expr 0)
  let _ ← expect ")"
  terminator
  return .other (← spanFrom start) values

def constStatement (g : Nested) (start : Nat) : Parser Stmt := do
  let _ ← expect "const"
  let items ← commaSeparated [";"] (constantItem g)
  terminator
  return .other (← spanFrom start) (items.map fun | .mk _ value => value)

/-- Nothing behind the call that halts the compiler is source. -/
def haltStatement (start : Nat) : Parser Stmt := do
  let _ ← take
  let _ ← many do
    if (← peek).kind == .ending then return none
    else
      let _ ← take
      return some ()
  return .other ⟨start, start⟩ []

def expressionStatement (g : Nested) (start : Nat) : Parser Stmt := do
  let e ← g.expr 0
  terminator
  return .expression (← spanFrom start) e

/-- Whether a class-like is declared here, perhaps after modifiers. An enum is one only if a name
follows, because `enum` is no reserved word. -/
def startsClassLike : Parser Bool := do
  let t ← peek
  let ahead ← peekAt 1
  match t.key with
  | "class" | "interface" | "trait" | "abstract" | "final" => return true
  | "enum" => return ahead.kind == .word && ahead.key != "extends" && ahead.key != "implements"
  | "readonly" => return ahead.kind == .word
  | _ => return false

def startsFunction : Parser Bool := do
  let ahead ← peekAt 1
  let behind ← peekAt 2
  return (← sees "function") &&
    (ahead.kind == .word || (ahead.key == "&" && behind.kind == .word))

/-- A statement that starts with a word. -/
def wordStatement (g : Nested) (start : Nat) : Parser Stmt := do
  if ← startsClassLike then return .classLike (← classDecl g start)
  if ← startsFunction then return .function (← functionDecl g start)
  let t ← peek
  let ahead ← peekAt 1
  match t.key with
  | "if" => ifStatement g start
  | "foreach" => foreachStatement g start
  | "for" => forStatement g start
  | "while" => whileStatement g start
  | "do" => doStatement g start
  | "try" => tryStatement g start
  | "switch" => switchStatement g start
  | "namespace" => namespaceStatement g start
  | "use" => useStatement start
  | "const" => constStatement g start
  | "declare" => declareStatement g start
  | "global" => globalStatement g start
  | "unset" => enclosedStatement g start
  | "echo" =>
    let _ ← take
    let values ← commaSeparated [";"] (g.expr 0)
    terminator
    return .echo (← spanFrom start) values
  | "return" =>
    let _ ← take
    let value ← valueIfAny g
    terminator
    return .ret (← spanFrom start) value
  | "break" | "continue" =>
    let _ ← take
    let value ← valueIfAny g
    terminator
    return .other (← spanFrom start) value.toList
  | "goto" =>
    let _ ← take
    let _ ← word
    terminator
    return .other (← spanFrom start) []
  | "static" =>
    if ahead.kind == .var then staticStatement g start else expressionStatement g start
  | "__halt_compiler" => haltStatement start
  | key =>
    if ahead.key == ":" && !reserved.contains key then
      let _ ← take
      let _ ← take
      return .other (← spanFrom start) []
    else expressionStatement g start

def statement (g : Nested) : Parser Stmt := do
  let start ← here
  let t ← peek
  match t.kind with
  | .outside | .openTag | .closeTag =>
    let _ ← take
    return .markup t.span
  | .openEcho => listStatement g start
  | .word => wordStatement g start
  | _ =>
    match t.key with
    | "\x7b" =>
      let .mk span ss ← body g
      return .block span ss
    | ";" =>
      let _ ← take
      return .other t.span []
    | "#[" =>
      let before ← get
      attributes
      if (← peek).kind == .word && ((← startsClassLike) || (← startsFunction)) then
        wordStatement g start
      else
        set before
        expressionStatement g start
    | _ => expressionStatement g start

/-- The rules around those for one level less of nesting. -/
def around (g : Nested) : Nested := ⟨expression g, statement g⟩

/-- The rules for nestings of at most `depth` levels. -/
def nested : (depth : Nat) → Nested
  | 0 => ⟨fun _ => fail, fail⟩
  | depth + 1 => around (nested depth)

/-- All statements of a source. -/
def program (depth : Nat) : Parser (List Stmt) :=
  itemsUntil (fun _ => false) (nested depth).statement

end Grammar

/-- What a source is read as. -/
structure Program where
  statements : List Stmt := []
  comments : List Comment := []
  /-- Where the grammar could not go on, in source order. -/
  faults : List Fault := []

/-- Reads a source. Each level of nesting takes a token or goes from a statement to its
expression, so twice the number of tokens bounds the depth. -/
def Program.parse (source : String) : Program :=
  let scanned := scan source
  let depth := 2 * scanned.tokens.size + 2
  let (result, cursor) := (Grammar.program depth).run scanned.tokens {}
  { statements := result.toOption.getD []
    comments := scanned.comments
    faults := cursor.faults.reverse }

/-- What reads sources. It reads every text as some program, with faults where it could not go
on. -/
class Frontend where
  parse : String → Program

/-- Unless something else is said, sources are read by the grammar. -/
instance Program.frontend : Frontend := ⟨Program.parse⟩

end PhpSymbols.Php
