import PhpSymbols.Php.Token

/-!
A cursor over the tokens of a source, and parsers that move it; the tokens themselves stay the
same for the whole parse. A parser that fails leaves the cursor where it stopped, so the list
around it can drop the item and go on from there. Loops are bounded by the tokens that remain,
since each round takes at least one.
-/

namespace PhpSymbols.Php

/-- Where the grammar could not go on. -/
structure Fault where
  /-- The token that had to stand here, if there was only one. -/
  expected : Option String
  found : Token
  deriving DecidableEq, Repr, Inhabited

structure Cursor where
  /-- The index of the next token. -/
  index : Nat := 0
  /-- The end of the last token taken. -/
  stop : Nat := 0
  /-- The faults so far, the latest first. -/
  faults : List Fault := []
  deriving Repr, Inhabited

abbrev Parser := ReaderT (Array Token) (ExceptT Fault (StateM Cursor))

namespace Parser
variable {α : Type}

/-- The token `k` places ahead. Behind the last token stands an end token. -/
def peekAt (k : Nat) : Parser Token := do
  let tokens ← read
  let c ← get
  return tokens.getD (c.index + k) ⟨.ending, "", ⟨c.stop, c.stop⟩, ""⟩

def peek : Parser Token := peekAt 0

/-- Takes the next token; the end token stays. -/
def take : Parser Token := do
  let t ← peek
  if t.kind != .ending then
    modify fun c => { c with index := c.index + 1, stop := t.span.stop }
  return t

def sees (key : String) : Parser Bool := return (← peek).key == key

/-- The next token does not fit. -/
def fail (expected : Option String := none) : Parser α := do throw ⟨expected, ← peek⟩

def expect (key : String) : Parser Token := do
  if ← sees key then take else fail (some key)

/-- Takes the token `key` if it is next. -/
def accept (key : String) : Parser Bool := do
  if ← sees key then
    let _ ← take
    return true
  else return false

/-- The byte at which the next token starts. -/
def here : Parser Nat := return (← peek).span.start

/-- From `start` to the end of the last token taken. -/
def spanFrom (start : Nat) : Parser Span := return ⟨start, (← get).stop⟩

/-- A bound for the rounds of a loop over the tokens that remain. -/
def rounds : Parser Nat := do
  let tokens ← read
  let c ← get
  return tokens.size - c.index + 1

/-- Collects what `step` gives, for at most `n` rounds, until it gives nothing. -/
def collect (step : Parser (Option α)) (n : Nat) : Parser (List α) :=
  match n with
  | 0 => return []
  | n + 1 => do
    match ← step with
    | none => return []
    | some a => return a :: (← collect step n)

/-- Feeds `step` its own result, for at most `n` rounds, until it gives nothing. -/
def iterate (step : α → Parser (Option α)) (n : Nat) (a : α) : Parser α :=
  match n with
  | 0 => return a
  | n + 1 => do
    match ← step a with
    | none => return a
    | some b => iterate step n b

def many (step : Parser (Option α)) : Parser (List α) := do collect step (← rounds)

def following (step : α → Parser (Option α)) (a : α) : Parser α := do iterate step (← rounds) a

/-- Items between commas. A comma may stand before one of the tokens `closing`. -/
def commaSeparated (closing : List String) (item : Parser α) : Parser (List α) := do
  let more : Parser (Option α) := do
    if closing.contains (← peek).key then return none else return some (← item)
  match ← more with
  | none => return []
  | some first =>
    let rest ← many do
      if ← accept "," then more else return none
    return first :: rest

/-- An item of a list that goes on after a fault. If no token was taken for the item, one is
skipped. -/
def recovered (item : Parser α) : Parser (Option α) := do
  let before := (← get).index
  let found ← try some <$> item
    catch fault =>
      modify fun c => { c with faults := fault :: c.faults }
      pure none
  if (← get).index = before then
    let _ ← take
  return found

/-- Items up to a token at which `stops` holds or to the end; an item with a fault is dropped. -/
def itemsUntil (stops : Token → Bool) (item : Parser α) : Parser (List α) := do
  let items ← many do
    let t ← peek
    if t.kind == .ending || stops t then return none else return some (← recovered item)
  return items.filterMap id

/-- The end of a statement: a semicolon or a closing tag, and nothing where it was left out. -/
def terminator : Parser Unit := do
  let t ← peek
  if t.key == ";" || t.kind == .closeTag then
    let _ ← take

end Parser
end PhpSymbols.Php
