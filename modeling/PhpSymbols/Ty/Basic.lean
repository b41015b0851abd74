/-!
Types of a PHP value, as a hover shows them. `Ty.join`, `Ty.orNull` and `Ty.ofClass` build
canonical types: a union has two or more distinct members, none of them a union, a nullable,
`mixed` or `null`, and nullable never wraps what already admits null.
-/

namespace PhpSymbols

inductive Ty where
  /-- A built-in such as `string`, `int`, `array` or `void`. -/
  | scalar (name : String)
  /-- A class, interface, trait or enum. -/
  | classRef (name : String)
  /-- An array whose elements have a known type. -/
  | arrayOf (element : Ty)
  | union (members : List Ty)
  /-- The inner type or `null`. -/
  | nullable (inner : Ty)
  /-- Declared to be anything. -/
  | mixed
  /-- Nothing is known. -/
  | unknown
  deriving Repr, Inhabited

namespace Ty

mutual
protected def decEq : (a b : Ty) → Decidable (a = b)
  | .scalar m, .scalar n => if h : m = n then .isTrue (by rw [h]) else .isFalse (by simp [h])
  | .classRef m, .classRef n => if h : m = n then .isTrue (by rw [h]) else .isFalse (by simp [h])
  | .arrayOf a, .arrayOf b => match Ty.decEq a b with
      | .isTrue h => .isTrue (by rw [h])
      | .isFalse h => .isFalse (by simp [h])
  | .union as, .union bs => match Ty.decEqList as bs with
      | .isTrue h => .isTrue (by rw [h])
      | .isFalse h => .isFalse (by simp [h])
  | .nullable a, .nullable b => match Ty.decEq a b with
      | .isTrue h => .isTrue (by rw [h])
      | .isFalse h => .isFalse (by simp [h])
  | .mixed, .mixed => .isTrue rfl
  | .unknown, .unknown => .isTrue rfl
  | .scalar _, .classRef _ | .scalar _, .arrayOf _ | .scalar _, .union _ | .scalar _, .nullable _
  | .scalar _, .mixed | .scalar _, .unknown => .isFalse (by simp)
  | .classRef _, .scalar _ | .classRef _, .arrayOf _ | .classRef _, .union _
  | .classRef _, .nullable _ | .classRef _, .mixed | .classRef _, .unknown => .isFalse (by simp)
  | .arrayOf _, .scalar _ | .arrayOf _, .classRef _ | .arrayOf _, .union _
  | .arrayOf _, .nullable _ | .arrayOf _, .mixed | .arrayOf _, .unknown => .isFalse (by simp)
  | .union _, .scalar _ | .union _, .classRef _ | .union _, .arrayOf _ | .union _, .nullable _
  | .union _, .mixed | .union _, .unknown => .isFalse (by simp)
  | .nullable _, .scalar _ | .nullable _, .classRef _ | .nullable _, .arrayOf _
  | .nullable _, .union _ | .nullable _, .mixed | .nullable _, .unknown => .isFalse (by simp)
  | .mixed, .scalar _ | .mixed, .classRef _ | .mixed, .arrayOf _ | .mixed, .union _
  | .mixed, .nullable _ | .mixed, .unknown => .isFalse (by simp)
  | .unknown, .scalar _ | .unknown, .classRef _ | .unknown, .arrayOf _ | .unknown, .union _
  | .unknown, .nullable _ | .unknown, .mixed => .isFalse (by simp)

protected def decEqList : (as bs : List Ty) → Decidable (as = bs)
  | [], [] => .isTrue rfl
  | [], _ :: _ => .isFalse (by simp)
  | _ :: _, [] => .isFalse (by simp)
  | a :: as, b :: bs => match Ty.decEq a b with
      | .isFalse h => .isFalse (by simp [h])
      | .isTrue h => match Ty.decEqList as bs with
          | .isTrue hs => .isTrue (by rw [h, hs])
          | .isFalse hs => .isFalse (by simp [hs])
end

instance : DecidableEq Ty := Ty.decEq

def null : Ty := .scalar "null"

/-- The class `name`; one leading backslash only says that the name is complete. -/
def ofClass (name : String) : Ty :=
  match name.toList with
  | '\\' :: rest => .classRef (String.ofList rest)
  | _ => .classRef name

/-- `t` or null. What already admits null stays as it is, and nothing known stays unknown. -/
def orNull : Ty → Ty
  | .mixed => .mixed
  | .unknown => .unknown
  | .nullable t => .nullable t
  | .scalar n => if n = "null" then .scalar n else .nullable (.scalar n)
  | t => .nullable t

/-- A union under construction: its distinct members so far, and whether null was among them. -/
structure Alternatives where
  members : List Ty := []
  admitsNull : Bool := false
  deriving Repr, DecidableEq

namespace Alternatives

def insert (a : Alternatives) (t : Ty) : Alternatives :=
  if t ∈ a.members then a else { a with members := a.members ++ [t] }

mutual
/-- Adds what `t` stands for: the members of a union one by one, `null` as a flag, and nothing
for an unknown type. -/
def add (a : Alternatives) : Ty → Alternatives
  | .union ts => addAll a ts
  | .nullable t => add { a with admitsNull := true } t
  | .scalar n => if n = "null" then { a with admitsNull := true } else a.insert (.scalar n)
  | .classRef n => a.insert (.classRef n)
  | .arrayOf t => a.insert (.arrayOf t)
  | .mixed => a.insert .mixed
  | .unknown => a

def addAll (a : Alternatives) : List Ty → Alternatives
  | [] => a
  | t :: ts => addAll (add a t) ts
end

/-- The canonical type for the alternatives. `mixed` absorbs every other one. -/
def toTy (a : Alternatives) : Ty :=
  if .mixed ∈ a.members then .mixed
  else match a.members with
    | [] => if a.admitsNull then null else .unknown
    | [t] => if a.admitsNull then t.orNull else t
    | ts => if a.admitsNull then (Ty.union ts).orNull else .union ts

end Alternatives

/-- The canonical union of `ts`. Unknown alternatives are dropped next to any other. -/
def join (ts : List Ty) : Ty := (Alternatives.addAll {} ts).toTy

def isMixed : Ty → Bool
  | .mixed => true
  | _ => false

def isUnknown : Ty → Bool
  | .unknown => true
  | _ => false

/-- Whether a documented type may take the place of this native type: broad hints and class
names are made precise by documentation, other hints are not. -/
def isRefinable : Ty → Bool
  | .scalar n => n == "array" || n == "iterable" || n == "object"
  | .classRef _ | .mixed | .unknown => true
  | .arrayOf _ | .union _ | .nullable _ => false

/-- The word for the shape of the type. -/
def kind : Ty → String
  | .scalar _ => "scalar"
  | .classRef _ => "class"
  | .arrayOf _ => "array"
  | .union _ => "union"
  | .nullable _ => "nullable"
  | .mixed => "mixed"
  | .unknown => "unknown"

mutual
/-- The written form. An array of a union or nullable needs parentheses; null is a member at the
end of a union and a question mark before any other type. -/
def chars : Ty → List Char
  | .scalar n => n.toList
  | .classRef n => n.toList
  | .arrayOf t => match t with
      | .union _ | .nullable _ => '(' :: chars t ++ ")[]".toList
      | _ => chars t ++ "[]".toList
  | .union ts => charsList ts
  | .nullable t => match t with
      | .union _ => chars t ++ "|null".toList
      | _ => '?' :: chars t
  | .mixed => "mixed".toList
  | .unknown => "<unknown>".toList

/-- The members of a union, with a bar between any two. -/
def charsList : List Ty → List Char
  | [] => []
  | [t] => chars t
  | t :: ts => chars t ++ '|' :: charsList ts
end

def text (t : Ty) : String := String.ofList t.chars

instance : ToString Ty := ⟨text⟩

end Ty
end PhpSymbols
