import PhpSymbols.Php.Grammar.ClassLike

/-!
Expressions. Operators bind by level, from `or` at 1 up to the power operator at 22. An assignment
takes the operand next to it, however tightly that operand is bound on its other side: `!$a = 1`
and `$b && $a = 1` both assign to `$a`.
-/

namespace PhpSymbols.Php

def Expr.span : Expr → Span
  | .var s _ | .name s _ | .classWord s _ | .literal s _ | .template s | .array s _
  | .longArray s _ | .listing s _ | .assign s _ _ _ | .paren s _ | .closure s _ _ _
  | .arrow s _ _ | .call s _ _ | .new s _ _ | .anonymousClass s _ _ | .binary s _ _
  | .conditional s _ _ _ | .unary s _ | .throw s _ | .construct s _ => s

namespace Grammar
open PhpSymbols.Php.Parser

/-! ### Levels -/

def assignmentLevel : Nat := 5

def conditionalLevel : Nat := 6

def unaryLevel : Nat := 21

/-- The level of a binary operator and the level that its right operand needs. -/
def binaryLevel? (t : Token) : Option (Nat × Nat) :=
  match t.key with
  | "or" => some (1, 2)
  | "xor" => some (2, 3)
  | "and" => some (3, 4)
  | "??" => some (7, 7)
  | "||" => some (8, 9)
  | "&&" => some (9, 10)
  | "|" => some (10, 11)
  | "^" => some (11, 12)
  | "&" => some (12, 13)
  | "==" | "!=" | "===" | "!==" | "<>" | "<=>" => some (13, 14)
  | "<" | "<=" | ">" | ">=" => some (14, 15)
  | "|>" => some (15, 16)
  | "." => some (16, 17)
  | "<<" | ">>" => some (17, 18)
  | "+" | "-" => some (18, 19)
  | "*" | "/" | "%" => some (19, 20)
  | "instanceof" => some (20, 21)
  | "**" => some (22, 22)
  | _ => none

def isAssignment (t : Token) : Bool :=
  ["=", "+=", "-=", "*=", "/=", ".=", "%=", "**=", "??=", "&=", "|=", "^=", "<<=", ">>="].contains
    t.key

/-- The level that the operand of a sign before it needs. -/
def operandLevel? (t : Token) : Option Nat :=
  if t.kind == .cast then some unaryLevel
  else match t.key with
    | "!" => some 20
    | "-" | "+" | "~" | "@" | "&" | "++" | "--" => some unaryLevel
    | _ => none

/-- Keywords with which no expression starts. -/
def reserved : List String := [
  "abstract", "and", "as", "break", "callable", "case", "catch", "class", "const", "continue",
  "declare", "default", "do", "echo", "else", "elseif", "enddeclare", "endfor", "endforeach",
  "endif", "endswitch", "endwhile", "extends", "final", "finally", "for", "foreach", "global",
  "goto", "if", "implements", "instanceof", "insteadof", "interface", "namespace", "or",
  "private", "protected", "public", "public(set)", "protected(set)", "private(set)", "return",
  "switch", "trait", "try", "unset", "use", "var", "while", "xor", "__halt_compiler"]

/-! ### Assignments -/

/-- `left operator value`, assigned to the last operand of `left`. -/
def assignTo (operator : String) (value : Expr) : Expr → Expr
  | .unary s operand =>
    .unary ⟨s.start, value.span.stop⟩ (assignTo operator value operand)
  | .binary s left right =>
    .binary ⟨s.start, value.span.stop⟩ left (assignTo operator value right)
  | .conditional s condition yes no =>
    .conditional ⟨s.start, value.span.stop⟩ condition yes (assignTo operator value no)
  | target => .assign ⟨target.span.start, value.span.stop⟩ operator target value

/-! ### Operands -/

/-- An operand that the source leaves out, before a token with which none starts. -/
def missingOperand : Parser Expr := do
  let t ← peek
  if t.kind == .ending then fail
  else return .construct ⟨t.span.start, t.span.start⟩ []

/-- An array element; two commas in a row leave one out. -/
def element (g : Nested) : Parser Element := do
  if ← sees "," then return .missing
  if ← accept "..." then return .spread (← g.expr 0)
  let first ← g.expr 0
  if ← accept "=>" then return .pair first (← g.expr 0) else return .value first

/-- The elements up to the token `closing`, which is taken too. -/
def elementsTo (g : Nested) (closing : String) : Parser (List Element) := do
  let es ← commaSeparated [closing] (element g)
  let _ ← expect closing
  return es

/-- The values between parentheses, if these stand here. -/
def parenthesised (g : Nested) : Parser (List Expr) := do
  if ← accept "(" then
    let values ← commaSeparated [")"] (g.expr 0)
    let _ ← expect ")"
    return values
  else return []

/-- The expressions after a word, up to one of a few ends. -/
def operandIfAny (g : Nested) : Parser (List Expr) := do
  let t ← peek
  if [";", ")", ",", "]", "\x7d", "=>"].contains t.key || t.kind == .closeTag ||
      t.kind == .ending then return []
  let value ← g.expr assignmentLevel
  if ← accept "=>" then return [value, ← g.expr assignmentLevel] else return [value]

def captured : Parser (List String) := do
  if ← accept "use" then
    let _ ← expect "("
    let names ← commaSeparated [")"] do
      let _ ← accept "&"
      variable_
    let _ ← expect ")"
    return names
  else return []

/-- A closure or arrow function, from its keyword on. -/
def lambda (g : Nested) (start : Nat) : Parser Expr := do
  if ← accept "fn" then
    let _ ← accept "&"
    let ps ← parameters g
    let _ ← returnHint
    let _ ← expect "=>"
    let value ← g.expr 0
    return .arrow (← spanFrom start) ps value
  let _ ← expect "function"
  let _ ← accept "&"
  let ps ← parameters g
  let names ← captured
  let _ ← returnHint
  let b ← body g
  return .closure (← spanFrom start) ps names b

/-- One arm of a `match`: its conditions and its value. -/
def matchArm (g : Nested) : Parser (List Expr) := do
  let conditions ←
    if ← accept "default" then
      let _ ← accept ","
      pure []
    else commaSeparated ["=>"] (g.expr 0)
  let _ ← expect "=>"
  return conditions ++ [← g.expr 0]

def matchExpr (g : Nested) (start : Nat) : Parser Expr := do
  let _ ← expect "match"
  let subject ← parenthesised g
  let _ ← expect "\x7b"
  let arms ← commaSeparated ["\x7d"] (matchArm g)
  let _ ← expect "\x7d"
  return .construct (← spanFrom start) (subject ++ arms.flatten)

/-- What stands behind an arrow or a double colon to name a member. It may be left out. -/
def selector (g : Nested) : Parser (List Expr) := do
  let t ← peek
  if t.kind == .word || t.kind == .var then
    let _ ← take
    return []
  else if t.key == "\x7b" then
    let _ ← take
    let inner ← g.expr 0
    let _ ← expect "\x7d"
    return [inner]
  else if t.key == "$" then
    let _ ← many do
      if ← accept "$" then return some () else return none
    if ← accept "\x7b" then
      let inner ← g.expr 0
      let _ ← expect "\x7d"
      return [inner]
    else
      let _ ← variable_
      return []
  else if t.kind == .ending then fail
  else return []

/-- One step behind an operand: an index, a member or, where `calls` allows it, a call. -/
def postfixStep (g : Nested) (calls : Bool) (left : Expr) : Parser (Option Expr) := do
  let start := left.span.start
  let t ← peek
  match t.key with
  | "[" =>
    let _ ← take
    let index ← if ← sees "]" then pure [] else (fun e => [e]) <$> g.expr 0
    let _ ← expect "]"
    return some (.construct (← spanFrom start) (left :: index))
  | "->" | "?->" | "::" =>
    let _ ← take
    let parts ← selector g
    if calls && (← sees "(") then
      match ← arguments g with
      | some args => return some (.call (← spanFrom start) left args)
      | none => return some (.construct (← spanFrom start) (left :: parts))
    else return some (.construct (← spanFrom start) (left :: parts))
  | "(" =>
    if calls then
      match ← arguments g with
      | some args => return some (.call (← spanFrom start) left args)
      | none => return some (.construct (← spanFrom start) [left])
    else return none
  | "++" | "--" =>
    if calls then
      let _ ← take
      return some (.construct (← spanFrom start) [left])
    else return none
  | _ => return none

/-- A variable whose name is computed. -/
def indirectVariable (g : Nested) (start : Nat) : Parser Expr := do
  let parts ← selector g
  return .construct (← spanFrom start) parts

/-- What `new` creates: a named or computed class, without the arguments. -/
def newTarget (g : Nested) : Parser Expr := do
  let start ← here
  let t ← peek
  if ← accept "(" then
    let inner ← g.expr 0
    let _ ← expect ")"
    return .paren (← spanFrom start) inner
  else if t.key == "self" then
    let _ ← take
    return .classWord t.span .self
  else if t.key == "static" then
    let _ ← take
    return .classWord t.span .static
  else if t.key == "parent" then
    let _ ← take
    return .classWord t.span .parent
  else if isNameToken t && !reserved.contains t.key then
    let _ ← take
    return .name t.span t.text
  else if t.kind == .var then
    let _ ← take
    following (postfixStep g false) (.var t.span (plainName t.text))
  else if t.key == "$" then
    following (postfixStep g false) (← indirectVariable g start)
  else missingOperand

def argumentsIfAny (g : Nested) : Parser (List Expr) := do
  if ← sees "(" then return (← arguments g).getD [] else return []

def newExpr (g : Nested) (start : Nat) : Parser Expr := do
  let _ ← expect "new"
  attributes
  let _ ← modifiersBeforeClass
  if ← accept "class" then
    let args ← argumentsIfAny g
    let _ ← namesAfter "extends"
    let _ ← namesAfter "implements"
    let (_, ms) ← members g
    return .anonymousClass (← spanFrom start) args ms
  let target ← newTarget g
  let args ← argumentsIfAny g
  return .new (← spanFrom start) target args
where
  /-- `readonly` and the like before `class`; `static` alone names the class of the object. -/
  modifiersBeforeClass : Parser (List Modifier) := do
    if (← sees "readonly") || (← sees "final") then modifiers else return []

/-- An expression that starts with a word. -/
def wordOperand (g : Nested) (start : Nat) : Parser Expr := do
  let t ← peek
  let ahead ← peekAt 1
  let constructAfter (parts : Parser (List Expr)) : Parser Expr := do
    let _ ← take
    let ps ← parts
    return .construct (← spanFrom start) ps
  let literal (kind : LiteralKind) : Parser Expr := do
    let _ ← take
    return .literal t.span kind
  let classWord (w : ClassWord) : Parser Expr := do
    let _ ← take
    return .classWord t.span w
  match t.key with
  | "true" | "false" => literal .boolean
  | "null" => literal .null
  | "self" => classWord .self
  | "parent" => classWord .parent
  | "static" =>
    if ahead.key == "function" || ahead.key == "fn" then
      let _ ← take
      lambda g start
    else classWord .static
  | "function" | "fn" => lambda g start
  | "new" => newExpr g start
  | "array" =>
    if ahead.key == "(" then
      let _ ← take
      let _ ← take
      let es ← elementsTo g ")"
      return .longArray (← spanFrom start) es
    else missingOperand
  | "list" =>
    if ahead.key == "(" then
      let _ ← take
      let _ ← take
      let es ← elementsTo g ")"
      return .listing (← spanFrom start) es
    else missingOperand
  | "isset" | "empty" | "eval" | "exit" | "die" => constructAfter (parenthesised g)
  | "print" | "include" | "include_once" | "require" | "require_once" =>
    constructAfter do return [← g.expr assignmentLevel]
  | "clone" => constructAfter do return [← g.expr unaryLevel]
  | "yield" => constructAfter do
      if ← accept "from" then return [← g.expr assignmentLevel] else operandIfAny g
  | "throw" =>
    let _ ← take
    let e ← g.expr 0
    return .throw (← spanFrom start) e
  | "match" => if ahead.key == "(" then matchExpr g start else missingOperand
  | key =>
    if reserved.contains key then missingOperand
    else
      let _ ← take
      return .name t.span t.text

/-- An operand without what may follow it. -/
def operand (g : Nested) : Parser Expr := do
  let start ← here
  let t ← peek
  match t.kind with
  | .var =>
    let _ ← take
    return .var t.span (plainName t.text)
  | .integer =>
    let _ ← take
    return .literal t.span .integer
  | .float =>
    let _ ← take
    return .literal t.span .float
  | .string =>
    let _ ← take
    return .literal t.span .string
  | .template =>
    let _ ← take
    return .template t.span
  | .qualified | .rooted =>
    let _ ← take
    return .name t.span t.text
  | .word => wordOperand g start
  | .punctuation =>
    match t.key with
    | "[" =>
      let _ ← take
      let es ← elementsTo g "]"
      return .array (← spanFrom start) es
    | "(" =>
      let _ ← take
      let inner ← g.expr 0
      let _ ← expect ")"
      return .paren (← spanFrom start) inner
    | "$" => indirectVariable g start
    | "#[" =>
      attributes
      let _ ← accept "static"
      lambda g start
    | _ => missingOperand
  | _ => missingOperand

/-- An operand with the signs before it and the steps behind it. -/
def prefixed (g : Nested) : Parser Expr := do
  let start ← here
  match operandLevel? (← peek) with
  | some level =>
    let _ ← take
    let e ← g.expr level
    return .unary (← spanFrom start) e
  | none => following (postfixStep g true) (← operand g)

/-! ### Operators -/

/-- One operator behind `left`, if it binds at least as tightly as `level`. -/
def operatorStep (g : Nested) (level : Nat) (left : Expr) : Parser (Option Expr) := do
  let start := left.span.start
  let t ← peek
  if isAssignment t then
    if level ≤ assignmentLevel then
      let _ ← take
      return some (assignTo t.key (← g.expr assignmentLevel) left)
    else return none
  else if t.key == "?" then
    if level ≤ conditionalLevel then
      let _ ← take
      if ← accept ":" then
        let no ← g.expr (conditionalLevel + 1)
        return some (.conditional (← spanFrom start) left none no)
      else
        let yes ← g.expr assignmentLevel
        let _ ← expect ":"
        let no ← g.expr (conditionalLevel + 1)
        return some (.conditional (← spanFrom start) left (some yes) no)
    else return none
  else match binaryLevel? t with
    | some (own, right) =>
      if level ≤ own then
        let _ ← take
        let r ← g.expr right
        return some (.binary (← spanFrom start) left r)
      else return none
    | none => return none

/-- An expression of operators that bind at least as tightly as `level`. -/
def expression (g : Nested) (level : Nat) : Parser Expr := do
  following (operatorStep g level) (← prefixed g)

end Grammar
end PhpSymbols.Php
