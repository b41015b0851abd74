import PhpSymbols.Text.Cut
import PhpSymbols.Toml.Basic

/-!
Reading TOML text. `Toml.read?` gives the entries of the document, or nothing if the text breaks a
rule of the format.
-/

namespace PhpSymbols.Toml
open Text

/-- A reader takes characters from the front of the text, or fails. -/
abbrev Reader := StateT (List Char) Option

namespace Reader
variable {α : Type}

def next? : Reader (Option Char) := return (← get).head?

/-- Takes a character on which `p` holds. -/
def one (p : Char → Bool) : Reader Char := do
  match ← get with
  | c :: s => if p c then set s; return c else failure
  | [] => failure

/-- Takes a text that stands here, and says whether it did. -/
def accept (part : String) : Reader Bool := do
  match behind? part.toList (← get) with
  | some rest => set rest; return true
  | none => return false

def expect (part : String) : Reader Unit := do
  if !(← accept part) then failure

def takeWhile (p : Char → Bool) : Reader (List Char) := do
  let s ← get
  set (s.dropWhile p)
  return s.takeWhile p

/-- Repeats `step` for at most `n` rounds until it gives nothing. -/
def collect (step : Reader (Option α)) : (n : Nat) → Reader (List α)
  | 0 => return []
  | n + 1 => do
    match ← step with
    | none => return []
    | some a => return a :: (← collect step n)

/-- Repeats `step` until it gives nothing. Each round takes a character, so the text bounds them. -/
def many (step : Reader (Option α)) : Reader (List α) := do collect step ((← get).length + 1)

end Reader

open Reader

/-! ### Space -/

def isSpace (c : Char) : Bool := c == ' ' || c == '\t'

/-- A control character other than a tab, which no text may hold as it is. -/
def isControl (c : Char) : Bool := (c.toNat < 0x20 && c != '\t') || c.toNat == 0x7F

def space : Reader Unit := do let _ ← takeWhile isSpace

def lineEnd : Reader Bool := do
  if ← accept "\n" then return true else accept "\r\n"

def comment : Reader Bool := do
  if ← accept "#" then
    let _ ← takeWhile fun c => !isControl c
    return true
  else return false

/-- White space, line ends and comments. -/
def blank : Reader Unit := do
  let _ ← many do
    if (← lineEnd) then return some ()
    else if (← comment) then return some ()
    else if (← takeWhile isSpace).isEmpty then return none
    else return some ()

/-- The rest of a line that says nothing more. -/
def finishLine : Reader Unit := do
  space
  let _ ← comment
  if (← next?).isSome then
    if !(← lineEnd) then failure

/-! ### Strings -/

def hexValue? (c : Char) : Option Nat :=
  if c.isDigit then some (c.toNat - '0'.toNat)
  else if 'a' ≤ c ∧ c ≤ 'f' then some (c.toNat - 'a'.toNat + 10)
  else if 'A' ≤ c ∧ c ≤ 'F' then some (c.toNat - 'A'.toNat + 10)
  else none

def hexDigits : (count : Nat) → (value : Nat) → Reader Nat
  | 0, value => return value
  | count + 1, value => do
    match hexValue? (← one fun _ => true) with
    | some d => hexDigits count (16 * value + d)
    | none => failure

/-- The character of a code point. -/
def scalar (code : Nat) : Reader Char :=
  if code.isValidChar then return Char.ofNat code else failure

/-- The character that an escape stands for, behind its backslash. -/
def escaped : Reader Char := do
  match ← one fun _ => true with
  | 'b' => return '\x08'
  | 't' => return '\t'
  | 'n' => return '\n'
  | 'f' => return '\x0c'
  | 'r' => return '\r'
  | 'e' => return '\x1b'
  | '"' => return '"'
  | '\\' => return '\\'
  | 'x' => scalar (← hexDigits 2 0)
  | 'u' => scalar (← hexDigits 4 0)
  | 'U' => scalar (← hexDigits 8 0)
  | _ => failure

/-- A string on one line, behind its opening quotation mark. -/
def basicString : Reader String := do
  let cs ← many do
    match ← next? with
    | some '"' => return none
    | some '\\' =>
      let _ ← one fun _ => true
      return some (← escaped)
    | _ => return some (← one fun c => !isControl c)
  expect "\""
  return String.ofList cs

def literalString : Reader String := do
  let cs ← takeWhile fun c => c != '\'' && !isControl c
  expect "'"
  return String.ofList cs

/-- Up to two quotation marks that belong to the text before the closing three. -/
def closeMultiline (mark : Char) (cs : List Char) : Reader String := do
  let three := String.ofList [mark, mark, mark]
  expect three
  let s := String.ofList [mark]
  let mut cs := cs
  if ← accept s then cs := cs ++ [mark]
  if ← accept s then cs := cs ++ [mark]
  return String.ofList cs

/-- A line end inside a text is kept as one line feed. -/
def multilineChar : Reader Char := do
  if ← lineEnd then return '\n' else one fun c => !isControl c

/-- A backslash before a line end takes all white space up to the next text. -/
def lineContinuation : Reader Bool := do
  let before ← get
  let _ ← takeWhile isSpace
  if ← lineEnd then
    let _ ← takeWhile fun c => isSpace c || c == '\n' || c == '\r'
    return true
  else
    set before
    return false

/-- A string over several lines, behind its opening marks. -/
def multilineBasic : Reader String := do
  let _ ← lineEnd
  let parts ← many do
    if ['"', '"', '"'].isPrefixOf (← get) then return none
    if ← accept "\\" then
      if ← lineContinuation then return some []
      return some [← escaped]
    return some [← multilineChar]
  closeMultiline '"' parts.flatten

def multilineLiteral : Reader String := do
  let _ ← lineEnd
  let cs ← many do
    if ['\'', '\'', '\''].isPrefixOf (← get) then return none
    return some (← multilineChar)
  closeMultiline '\'' cs

/-! ### Keys -/

def isBareKeyChar (c : Char) : Bool := c.isAlphanum || c == '_' || c == '-'

def simpleKey : Reader String := do
  if ← accept "\"" then basicString
  else if ← accept "'" then literalString
  else
    let cs ← takeWhile isBareKeyChar
    if cs.isEmpty then failure else return String.ofList cs

def dottedKey : Reader (List String) := do
  let first ← simpleKey
  let rest ← many do
    let before ← get
    space
    if ← accept "." then
      space
      return some (← simpleKey)
    else
      set before
      return none
  return first :: rest

/-! ### Numbers and moments -/

/-- Digits with single underscores between them. -/
def isDigitRun (p : Char → Bool) (s : List Char) : Bool :=
  (s.splitOn '_').all fun part => !part.isEmpty && part.all p

def unsigned (s : List Char) : List Char :=
  match s with
  | '+' :: rest => rest
  | '-' :: rest => rest
  | _ => s

/-- Digits without a needless zero in front. -/
def isDecimal (s : List Char) : Bool :=
  isDigitRun Char.isDigit s && (s.length == 1 || s.head? != some '0')

def isExponent (s : List Char) : Bool := isDigitRun Char.isDigit (unsigned s)

/-- A number without its sign, perhaps with a fraction and an exponent. -/
def isFraction (s : List Char) : Bool :=
  let (mantissa, exponent) := breakOn (fun c => c == 'e' || c == 'E') s
  let (whole, fraction) := breakOn (· == '.') mantissa
  isDecimal whole && (exponent.isEmpty || isExponent exponent.tail) &&
    (fraction.isEmpty || isDigitRun Char.isDigit fraction.tail)

def isNumber (s : List Char) : Bool :=
  match s with
  | '0' :: 'x' :: digits => isDigitRun (fun c => (hexValue? c).isSome) digits
  | '0' :: 'o' :: digits => isDigitRun (fun c => '0' ≤ c && c ≤ '7') digits
  | '0' :: 'b' :: digits => isDigitRun (fun c => c == '0' || c == '1') digits
  | _ =>
    let s := unsigned s
    s == "inf".toList || s == "nan".toList || isFraction s

/-- Whether `s` starts with digits and signs where `shape` has zeros and those signs. -/
def afterShape? : (shape s : List Char) → Option (List Char)
  | [], s => some s
  | _ :: _, [] => none
  | d :: shape, c :: s =>
    if (d == '0' && c.isDigit) || (d != '0' && d == c) then afterShape? shape s else none

/-- The text behind a time of day, if there is one. The seconds may be left out. -/
def afterTime? (s : List Char) : Option (List Char) :=
  match afterShape? "00:00".toList s with
  | none => none
  | some s =>
    match afterShape? ":00".toList s with
    | none => some s
    | some s =>
      match s with
      | '.' :: c :: rest => if c.isDigit then some (rest.dropWhile Char.isDigit) else none
      | _ => some s

def isOffset (s : List Char) : Bool :=
  match s with
  | [] => true
  | ['Z'] => true
  | ['z'] => true
  | sign :: rest =>
    (sign == '+' || sign == '-') && afterShape? "00:00".toList rest == some []

/-- A date, a time, or both with or without an offset. -/
def isMoment (s : List Char) : Bool :=
  match afterShape? "0000-00-00".toList s with
  | some [] => true
  | some (joint :: time) =>
    (joint == 'T' || joint == 't' || joint == ' ') &&
      match afterTime? time with
      | some rest => isOffset rest
      | none => false
  | none => afterTime? s == some []

def isPlainChar (c : Char) : Bool :=
  c.isAlphanum || c == '+' || c == '-' || c == '_' || c == '.' || c == ':'

/-- A boolean, number or moment. Between a date and a time there may be a space. -/
def plainValue : Reader Toml := do
  let cs ← takeWhile isPlainChar
  let behind ← get
  let isDate := afterShape? "0000-00-00".toList cs == some []
  let cs ← match behind with
    | ' ' :: c :: _ =>
      if isDate && c.isDigit then
        let _ ← one isSpace
        pure (cs ++ ' ' :: (← takeWhile isPlainChar))
      else pure cs
    | _ => pure cs
  if cs == "true".toList then return .boolean true
  else if cs == "false".toList then return .boolean false
  else if isNumber cs then return .number (String.ofList cs)
  else if isMoment cs then return .moment (String.ofList cs)
  else failure

/-! ### Values -/

/-- Items between commas up to `closing`, with blanks around them and perhaps a comma at the end. -/
def separated {α : Type} (closing : String) (item : Reader α) : Reader (List α) := do
  let items ← many do
    blank
    if ← accept closing then return none
    let a ← item
    blank
    if !(← accept ",") then
      if !closing.toList.isPrefixOf (← get) then failure
    return some a
  return items

/-- The key and value of an entry. -/
def keyValue (value : Reader Toml) : Reader (List String × Toml) := do
  let key ← dottedKey
  space
  expect "="
  space
  return (key, ← value)

/-- A value of at most `depth` nested arrays and tables. -/
def valueUpTo : (depth : Nat) → Reader Toml
  | 0 => failure
  | depth + 1 => do
    if ← accept "\"\"\"" then return .string (← multilineBasic)
    if ← accept "\"" then return .string (← basicString)
    if ← accept "'''" then return .string (← multilineLiteral)
    if ← accept "'" then return .string (← literalString)
    if ← accept "[" then return .array (← separated "]" (valueUpTo depth))
    if ← accept "\x7b" then
      let entries ← separated "\x7d" (keyValue (valueUpTo depth))
      match entries.foldlM (fun es (key, v) => insert v key es) [] with
      | some es => return .table .inline es
      | none => failure
    plainValue

/-- A value. Each level of nesting takes a character. -/
def value : Reader Toml := do valueUpTo ((← get).length + 1)

/-! ### Documents -/

def line : Reader (Option Line) := do
  blank
  if (← next?).isNone then return none
  if ← accept "[[" then
    space
    let path ← dottedKey
    space
    expect "]]"
    finishLine
    return some (.itemHeader path)
  if ← accept "[" then
    space
    let path ← dottedKey
    space
    expect "]"
    finishLine
    return some (.header path)
  let (key, v) ← keyValue value
  finishLine
  return some (.entry key v)

/-- The lines of a text that say something. A byte order mark at its start is none of it. -/
def lines? (text : String) : Option (List Line) := do
  let (ls, rest) ← (many line).run (stripFirst '\ufeff' text.toList)
  if rest.isEmpty then return ls else none

def read? (text : String) : Option Entries := do build [] [] (← lines? text)

end PhpSymbols.Toml
