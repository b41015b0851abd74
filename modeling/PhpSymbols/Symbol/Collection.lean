import PhpSymbols.Symbol.Basic

/-!
Collections of named symbols in declaration order. A name finds the first item that answers to
it; `insertIfAbsent` keeps the items' names apart under the rule by which they are found.
-/

namespace PhpSymbols

/-- What a failed look-up was for. -/
inductive Sought where
  | classLike
  | function
  | method
  | property
  | constant
  | source
  deriving DecidableEq, Repr, Inhabited

def Sought.word : Sought → String
  | .classLike => "class"
  | .function => "function"
  | .method => "method"
  | .property => "property"
  | .constant => "constant"
  | .source => "source"

/-- Why a question about a source has no answer. A source that cannot be read is no such reason:
every text is read as some program, and a failure of the parser itself is left out. -/
inductive ReflectError where
  /-- Nothing has the name, or there is no first item. -/
  | notFound (sought : Sought) (name : Option String)
  /-- The offset lies outside the source, inside a character or beyond the limit for offsets. -/
  | invalidOffset (offset len : Nat)
  deriving DecidableEq, Repr, Inhabited

def ReflectError.message : ReflectError → String
  | .notFound sought (some name) => sought.word ++ " \"" ++ name ++ "\" not found"
  | .notFound sought none => "No " ++ sought.word ++ " found"
  | .invalidOffset offset len =>
    "Offset " ++ toString offset ++ " is not a valid position in a source of " ++
      toString len ++ " bytes"

/-- What can be looked up by name. -/
class Named (α : Type) where
  sought : Sought
  name : α → String
  answersTo : α → String → Bool

/-- Without one leading backslash. -/
def unrooted (name : String) : String := String.ofList (Text.stripFirst '\\' name.toList)

/-- Class-likes and functions answer to their short and their qualified name, in any letter case. -/
def answersToQualified (short fqn name : String) : Bool :=
  sameIgnoringCase short (unrooted name) || sameIgnoringCase fqn (unrooted name)

instance : Named Function where
  sought := .function
  name f := f.name
  answersTo f name := answersToQualified f.name f.fqn name

/-- Methods are told apart without letter case. -/
instance : Named Method where
  sought := .method
  name m := m.name
  answersTo m name := sameIgnoringCase m.name name

/-- Properties are told apart by their exact name, asked for with or without a dollar sign. -/
instance : Named Property where
  sought := .property
  name p := p.name
  answersTo p name := p.name == String.ofList (Text.stripFirst '$' name.toList)

instance : Named Constant where
  sought := .constant
  name c := c.name
  answersTo c name := c.name == name

structure Collection (α : Type) where
  toList : List α := []
  deriving DecidableEq, Repr, Inhabited

namespace Collection
variable {α : Type} [Named α]

def ofList (items : List α) : Collection α := ⟨items⟩

def size (c : Collection α) : Nat := c.toList.length

def isEmpty (c : Collection α) : Bool := c.toList.isEmpty

def find? (c : Collection α) (name : String) : Option α :=
  c.toList.find? (Named.answersTo · name)

def contains (c : Collection α) (name : String) : Bool := (c.find? name).isSome

def get (c : Collection α) (name : String) : Except ReflectError α :=
  match c.find? name with
  | some item => .ok item
  | none => .error (.notFound (Named.sought α) (some name))

def first (c : Collection α) : Except ReflectError α :=
  match c.toList with
  | item :: _ => .ok item
  | [] => .error (.notFound (Named.sought α) none)

def push (c : Collection α) (item : α) : Collection α := ⟨c.toList ++ [item]⟩

/-- Adds `item` at the end unless an item already answers to its name. -/
def insertIfAbsent (c : Collection α) (item : α) : Collection α :=
  if c.contains (Named.name item) then c else c.push item

theorem contains_eq_any (c : Collection α) (name : String) :
    c.contains name = c.toList.any (Named.answersTo · name) := by
  unfold contains find?
  induction c.toList with
  | nil => rfl
  | cons item items ih => cases h : Named.answersTo item name <;> simp [List.find?, h, ih]

omit [Named α] in
@[simp] theorem toList_push (c : Collection α) (item : α) :
    (c.push item).toList = c.toList ++ [item] := rfl

end Collection
end PhpSymbols
