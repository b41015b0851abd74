import PhpSymbols.Symbol.ClassLike

/-!
The variables in scope. Names are distinct and keep the order in which they were first bound:
binding a name again changes its type in place, and removing a name closes the gap.
-/

namespace PhpSymbols

structure Bindings where
  toList : List (String × Ty) := []
  deriving DecidableEq, Repr, Inhabited

namespace Bindings

def get? (b : Bindings) (name : String) : Option Ty := b.toList.lookup name

/-- Gives `name` the type `t`: in its place if it is bound, at the end if it is not. -/
def bindIn (name : String) (t : Ty) : List (String × Ty) → List (String × Ty)
  | [] => [(name, t)]
  | (m, s) :: rest => if m = name then (m, t) :: rest else (m, s) :: bindIn name t rest

def bind (b : Bindings) (name : String) (t : Ty) : Bindings := ⟨bindIn name t b.toList⟩

def remove (b : Bindings) (name : String) : Bindings := ⟨b.toList.filter (·.1 != name)⟩

/-- Binds `name` only if it is not bound yet. -/
def bindIfAbsent (b : Bindings) (name : String) (t : Ty) : Bindings :=
  match b.get? name with
  | some _ => b
  | none => b.bind name t

def names (b : Bindings) : List String := b.toList.map (·.1)

end Bindings

/-- What is known at an offset: the innermost declaration around it and the variables bound
before it. -/
structure Resolution where
  enclosing : Option Symbol := none
  locals : Bindings := {}
  deriving DecidableEq, Repr, Inhabited

/-- The type of a local variable, asked for with or without its dollar sign. -/
def Resolution.local? (r : Resolution) (name : String) : Option Ty :=
  r.locals.get? (String.ofList (Text.stripFirst '$' name.toList))

end PhpSymbols
