import PhpSymbols.Php.Grammar.Function

/-!
Declarations of class-likes and their members. A member with a fault is dropped and the body goes
on behind it; a body that the source never closes drops the declaration.
-/

namespace PhpSymbols.Php.Grammar
open PhpSymbols.Php.Parser

/-- One name or more between commas. -/
def nameList : Parser (List String) := do
  let first ← name
  let more ← many do
    if ← accept "," then some <$> name else return none
  return first :: more

/-! ### Members -/

def constantItem (g : Nested) : Parser ConstantItem := do
  let name ← word
  let _ ← expect "="
  return .mk name (← g.expr 0)

/-- A constant starts at its first modifier, even when attributes stand before it. -/
def constantMember (g : Nested) (start : Nat) (ms : List Modifier) : Parser Member := do
  let _ ← expect "const"
  let type ← if (← peekAt 1).key == "=" then pure none else some <$> hint
  let items ← commaSeparated [";"] (constantItem g)
  terminator
  return .constant (← spanFrom start) ms type items

/-- A method without a body ends with a semicolon. -/
def methodMember (g : Nested) (start : Nat) (ms : List Modifier) : Parser Member := do
  let _ ← expect "function"
  let _ ← accept "&"
  let name ← word
  let ps ← parameters g
  let type ← returnHint
  if ← accept ";" then return .method (← spanFrom start) ms name ps type none
  let b ← body g
  return .method (← spanFrom start) ms name ps type (some b)

def propertyItem (g : Nested) : Parser PropertyItem := do
  let name ← writtenVariable
  return .mk name (← initialIfAny g)

def propertyMember (g : Nested) (start : Nat) (ms : List Modifier) : Parser Member := do
  let _ ← accept "var"
  let type ← hintIfAny
  let first ← propertyItem g
  if ← sees "\x7b" then
    skipBracketed
    let .mk name _ := first
    return .hookedProperty (← spanFrom start) ms type name
  let more ← many do
    if ← accept "," then some <$> propertyItem g else return none
  terminator
  return .property (← spanFrom start) ms type (first :: more)

def caseMember (g : Nested) (start : Nat) : Parser Member := do
  let _ ← expect "case"
  let itemStart ← here
  let name ← word
  let _ ← initialIfAny g
  let item ← spanFrom itemStart
  terminator
  return .enumCase (← spanFrom start) name item

/-- The used traits; rules for their conflicts are skipped. -/
def traitUseMember (start : Nat) : Parser Member := do
  let _ ← expect "use"
  let names ← nameList
  if ← sees "\x7b" then skipBracketed else terminator
  return .traitUse (← spanFrom start) names

def member (g : Nested) : Parser Member := do
  let start ← here
  attributes
  let afterAttributes ← here
  let ms ← modifiers
  match (← peek).key with
  | "const" => constantMember g afterAttributes ms
  | "function" => methodMember g start ms
  | "case" => caseMember g start
  | "use" => traitUseMember start
  | _ => propertyMember g start ms

/-- The members between braces, and the place of the braces. -/
def members (g : Nested) : Parser (Span × List Member) := do
  let start ← here
  let _ ← expect "\x7b"
  let ms ← itemsUntil (·.key == "\x7d") (member g)
  let _ ← expect "\x7d"
  return (← spanFrom start, ms)

/-! ### Declarations -/

/-- The names after `keyword`, or none if it does not stand here. -/
def namesAfter (keyword : String) : Parser (List String) := do
  if ← accept keyword then nameList else return []

def classKindOf? (t : Token) : Option ClassKind :=
  match t.key with
  | "class" => some .classDecl
  | "interface" => some .interfaceDecl
  | "trait" => some .traitDecl
  | "enum" => some .enumDecl
  | _ => none

/-- A declaration from its modifiers on. -/
def classDecl (g : Nested) (start : Nat) : Parser ClassDecl := do
  let ms ← modifiers
  match classKindOf? (← peek) with
  | none => fail
  | some kind =>
    let _ ← take
    let name ← word
    if kind = .enumDecl then
      let _ ← returnHint
    let parents ←
      if kind = .classDecl ∨ kind = .interfaceDecl then namesAfter "extends" else pure []
    let interfaces ←
      if kind = .classDecl ∨ kind = .enumDecl then namesAfter "implements" else pure []
    let (braces, ms') ← members g
    return .mk (← spanFrom start) kind ms name parents interfaces braces ms'

end PhpSymbols.Php.Grammar
