import PhpSymbols.Php.Tree
import PhpSymbols.Ty.Basic

/-!
# What expressions evaluate to

Values as far as their types go, and the assignments that an expression makes on the way.

* `Value.ty`: the type of a value;
* `literalValue`: the value that a literal spells: an integer that does not fit a machine word is
  a float;
* `Expr.eval`: evaluation from left to right, along a log of all assignments made so far;
* `Log.assigned_concat`, `Log.held_concat`: what one more assignment changes.
-/

namespace PhpSymbols.Php

inductive Value where
  /-- What a variable gives to which nothing was ever assigned. -/
  | unset
  | null
  | bool
  | int
  | float
  | string
  | array
  | object (cls : String)
  deriving DecidableEq, Repr

/-- The type of a value. Of what was never assigned none is known. -/
def Value.ty : Value → Ty
  | .unset => .unknown
  | .null => Ty.null
  | .bool => .scalar "bool"
  | .int => .scalar "int"
  | .float => .scalar "float"
  | .string => .scalar "string"
  | .array => .scalar "array"
  | .object cls => .classRef cls

/-! ### Literals and names -/

/-- The value of a literal, by what it looks like. -/
def LiteralKind.value : LiteralKind → Value
  | .string => .string
  | .integer => .int
  | .float => .float
  | .boolean => .bool
  | .null => .null

def digitValue (d : Char) : Nat :=
  if d.isDigit then d.toNat - '0'.toNat else d.toLower.toNat - 'a'.toNat + 10

/-- The number that an integer literal spells. Underscores separate digits; a leading zero makes
it octal, unless a letter behind the zero gives the base. -/
def numeral (written : List Char) : Nat :=
  let inBase (base : Nat) (digits : List Char) : Nat :=
    digits.foldl (fun n d => base * n + digitValue d) 0
  match written.filter (· != '_') with
  | '0' :: 'x' :: digits | '0' :: 'X' :: digits => inBase 16 digits
  | '0' :: 'o' :: digits | '0' :: 'O' :: digits => inBase 8 digits
  | '0' :: 'b' :: digits | '0' :: 'B' :: digits => inBase 2 digits
  | '0' :: digits => inBase 8 digits
  | digits => inBase 10 digits

/-- Integers are signed words of 64 bits. -/
def integerBound : Nat := 9223372036854775808

/-- The value that a literal spells: an integer out of bounds is a float. -/
def literalValue (written : String) (kind : LiteralKind) : Value :=
  if kind = .integer ∧ integerBound ≤ numeral written.toList then .float else kind.value

/-- Whether a class is named as one of the current namespace, with the word `namespace`. -/
def isRelativeName (written : String) : Bool :=
  "namespace\\".toList.isPrefixOf (Text.lower written.toList)

/-- The class that a name stands for in code without a namespace and without imports. -/
def globalClass (written : String) : String :=
  if isRelativeName written then String.ofList (written.toList.drop "namespace\\".length)
  else String.ofList (written.toList.dropWhile (· == '\\'))

/-! ### Assignments -/

/-- The assignments that were made, in order. -/
abbrev Log := List (String × Value)

namespace Log

/-- The variables that were assigned, in the order of their first assignments. -/
def assigned (log : Log) : List String := (log.map (·.1)).eraseDups

/-- The value that a variable holds: the last one assigned to it. -/
def held (log : Log) (x : String) : Option Value := log.reverse.lookup x

theorem assigned_concat (log : Log) (x : String) (v : Value) : assigned (log ++ [(x, v)]) =
    if x ∈ assigned log then assigned log else assigned log ++ [x] := by
  have known : x ∈ assigned log ↔ x ∈ log.map (·.1) := List.mem_eraseDups
  have last : [x].removeAll (log.map (·.1)) = if x ∈ assigned log then [] else [x] := by
    by_cases member : x ∈ log.map (·.1)
    · rw [if_pos (known.2 member)]
      simpa [List.removeAll] using member
    · rw [if_neg (mt known.1 member)]
      simpa [List.removeAll] using member
  rw [assigned, List.map_append, List.map_singleton, List.eraseDups_append, last]
  split
  · exact List.append_nil _
  · rfl

theorem held_concat (log : Log) (x : String) (v : Value) (y : String) :
    held (log ++ [(x, v)]) y = if y = x then some v else held log y := by
  rw [held, List.reverse_append, List.reverse_singleton, List.singleton_append, List.lookup_cons]
  by_cases same : y = x
  · rw [if_pos same, same, beq_self_eq_true]
  · rw [if_neg same, beq_false_of_ne same]
    rfl

end Log

/-! ### Evaluation -/

mutual

/-- Evaluates an expression behind the assignments of `log`, from left to right: its value, and
the log with the assignments that it makes. Literals have the values that `literal` gives them;
a closure is not called. Other expressions are not evaluated. -/
def Expr.eval (literal : Span → LiteralKind → Value) (log : Log) : Expr → Value × Log
  | .literal span kind => (literal span kind, log)
  | .var _ x => ((log.held x).getD .unset, log)
  | .array _ es | .longArray _ es => (.array, Element.evalAll literal log es)
  | .new _ (.name _ written) _ => (.object (globalClass written), log)
  | .closure .. => (.object "Closure", log)
  | .paren _ inner => inner.eval literal log
  | .assign _ _ (.var _ x) value =>
    let (v, log) := value.eval literal log
    (v, log ++ [(x, v)])
  | _ => (.unset, log)

/-- The assignments in the elements of an array; a key comes in front of its value. -/
def Element.evalAll (literal : Span → LiteralKind → Value) (log : Log) : List Element → Log
  | [] => log
  | e :: es => Element.evalAll literal (e.eval literal log) es

def Element.eval (literal : Span → LiteralKind → Value) (log : Log) : Element → Log
  | .pair key value => (value.eval literal (key.eval literal log).2).2
  | .value value | .spread value => (value.eval literal log).2
  | .missing => log

end

/-- The log behind a statement that is an expression; others do nothing. -/
def Stmt.eval (literal : Span → LiteralKind → Value) (log : Log) : Stmt → Log
  | .expression _ e => (e.eval literal log).2
  | _ => log

/-- The log behind statements one after another. -/
def Stmt.run (literal : Span → LiteralKind → Value) (ss : List Stmt) : Log :=
  ss.foldl (Stmt.eval literal) []

end PhpSymbols.Php
