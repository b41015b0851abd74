import PhpSymbols.Text.Number

/-!
The data that templates are rendered against: what a value prints, when it counts as true, and how
a reference walks from one value into another.
-/

namespace PhpSymbols.Template

inductive Value where
  | null
  | bool (b : Bool)
  | number (n : Nat)
  | text (s : String)
  | list (vs : List Value)
  /-- Named fields. -/
  | record (fields : List (String × Value))
  deriving Repr, Inhabited

/-- Why a template that compiled cannot be rendered. -/
inductive RenderFault where
  /-- A tag with arguments, or a block, names no helper. -/
  | unknownHelper (name : String)
  /-- A helper stands without its argument. -/
  | missingArgument (helper : String)
  /-- A list is asked for an item by something other than a number. -/
  | notAnIndex (segment : String)
  deriving DecidableEq, Repr, Inhabited

namespace Value

mutual

/-- What a value prints. Null prints nothing, and the inside of a record is never shown. -/
def print : Value → String
  | null => ""
  | bool b => if b then "true" else "false"
  | number n => toString n
  | text s => s
  | list vs => "[" ++ printItems vs ++ "]"
  | record _ => "[object]"

def printItems : List Value → String
  | [] => ""
  | [v] => print v
  | v :: vs => print v ++ ", " ++ printItems vs

end

/-- Null, zero and whatever is empty count as false. -/
def isTruthy : Value → Bool
  | null => false
  | bool b => b
  | number n => n != 0
  | text s => !s.isEmpty
  | list vs => !vs.isEmpty
  | record fields => !fields.isEmpty

def ofOption {α : Type} (f : α → Value) : Option α → Value
  | none => null
  | some a => f a

/-- One step into a value. What has neither fields nor items has nothing at any step. -/
def child? (v : Value) (segment : String) : Except RenderFault (Option Value) :=
  match v with
  | list vs =>
    match Text.number? segment.toList with
    | some i => .ok vs[i]?
    | none => .error (.notAnIndex segment)
  | record fields => .ok (fields.lookup segment)
  | null | bool _ | number _ | text _ => .ok none

/-- Walks along segments until one leads nowhere. -/
def descend (v : Value) : List String → Except RenderFault (Option Value)
  | [] => .ok (some v)
  | s :: ss => do
    match ← v.child? s with
    | some w => w.descend ss
    | none => .ok none

end Value
end PhpSymbols.Template
