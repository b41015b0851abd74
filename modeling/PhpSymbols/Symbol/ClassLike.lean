import PhpSymbols.Symbol.Collection

/-!
Class-likes and the sum of all symbols.
-/

namespace PhpSymbols

structure ClassLike where
  kind : ClassKind := .classDecl
  name : String
  ns : Option String := none
  isAbstract : Bool := false
  isFinal : Bool := false
  /-- The parent class, or the parents of an interface. -/
  parents : List Supertype := []
  interfaces : List Supertype := []
  traits : List Supertype := []
  methods : Collection Method := {}
  properties : Collection Property := {}
  constants : Collection Constant := {}
  docs : Docs := {}
  /-- The byte of the brace that opens the body. -/
  startOffset : Nat := 0
  /-- One past the byte of the brace that closes the body. -/
  endOffset : Nat := 0
  deriving DecidableEq, Repr, Inhabited

namespace ClassLike

/-- The fully qualified name, without a leading backslash. -/
def fqn (c : ClassLike) : String := qualify c.ns c.name

def supertypes (c : ClassLike) : List Supertype := c.parents ++ c.interfaces ++ c.traits

end ClassLike

instance : Named ClassLike where
  sought := .classLike
  name c := c.name
  answersTo c name := answersToQualified c.name c.fqn name

/-- A member that documentation adds to a class-like. -/
inductive VirtualMember where
  | method (m : Method)
  | property (p : Property)
  | constant (c : Constant)
  deriving DecidableEq, Repr, Inhabited

inductive Symbol where
  | classLike (c : ClassLike)
  | function (f : Function)
  | method (m : Method)
  | property (p : Property)
  | constant (c : Constant)
  deriving DecidableEq, Repr, Inhabited

namespace Symbol

def name : Symbol → String
  | .classLike c => c.name
  | .function f => f.name
  | .method m => m.name
  | .property p => p.name
  | .constant c => c.name

/-- Class-likes and functions are visible everywhere. -/
def visibility : Symbol → Visibility
  | .classLike _ | .function _ => .pub
  | .method m => m.visibility
  | .property p => p.visibility
  | .constant c => c.visibility

def kindLabel : Symbol → String
  | .classLike c => c.kind.word
  | .function _ => "function"
  | .method _ => "method"
  | .property _ => "property"
  | .constant _ => "constant"

/-- The class-like or function itself, or the class-like of a member. -/
def owner : Symbol → String
  | .classLike c => c.fqn
  | .function f => f.fqn
  | .method m => m.owner
  | .property p => p.owner
  | .constant c => c.owner

end Symbol
end PhpSymbols
