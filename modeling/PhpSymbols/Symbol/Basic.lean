import PhpSymbols.Text.Cut
import PhpSymbols.Ty.Basic

/-!
Symbols: the class-likes, functions and members that a source declares or documents. A member
carries the name of its class-like, so each symbol can be shown without the others.
-/

namespace PhpSymbols

inductive Visibility where
  | pub
  | prot
  | priv
  deriving DecidableEq, Repr, Inhabited

def Visibility.word : Visibility → String
  | .pub => "public"
  | .prot => "protected"
  | .priv => "private"

inductive ClassKind where
  | classDecl
  | interfaceDecl
  | traitDecl
  | enumDecl
  deriving DecidableEq, Repr, Inhabited

/-- The keyword that opens the declaration. -/
def ClassKind.word : ClassKind → String
  | .classDecl => "class"
  | .interfaceDecl => "interface"
  | .traitDecl => "trait"
  | .enumDecl => "enum"

/-- How a property may be used from outside. -/
inductive Access where
  | readWrite
  | readOnly
  | writeOnly
  deriving DecidableEq, Repr, Inhabited

def Access.word : Access → String
  | .readWrite => "read-write"
  | .readOnly => "read-only"
  | .writeOnly => "write-only"

/-- The prose of a doc comment, and whether it marks its symbol as deprecated. -/
structure Docs where
  summary : String := ""
  description : String := ""
  isDeprecated : Bool := false
  deriving DecidableEq, Repr, Inhabited

/-- No prose; a deprecation mark alone is not prose. -/
def Docs.isEmpty (d : Docs) : Bool := d.summary.isEmpty && d.description.isEmpty

/-- A parameter; its name stands without the dollar sign. -/
structure Parameter where
  name : String
  ty : Ty := .unknown
  /-- The default value as written. -/
  initial : Option String := none
  isVariadic : Bool := false
  isReference : Bool := false
  deriving DecidableEq, Repr, Inhabited

structure Method where
  name : String
  /-- The short name of the declaring class-like. -/
  owner : String := ""
  visibility : Visibility := .pub
  isStatic : Bool := false
  isAbstract : Bool := false
  isFinal : Bool := false
  /-- Documented only, and not declared in code. -/
  isVirtual : Bool := false
  parameters : List Parameter := []
  returnType : Ty := .unknown
  docs : Docs := {}
  deriving DecidableEq, Repr, Inhabited

/-- A property; its name stands without the dollar sign. -/
structure Property where
  name : String
  owner : String := ""
  visibility : Visibility := .pub
  isStatic : Bool := false
  isVirtual : Bool := false
  isReadonly : Bool := false
  access : Access := .readWrite
  ty : Ty := .unknown
  /-- The default value as written. -/
  initial : Option String := none
  docs : Docs := {}
  deriving DecidableEq, Repr, Inhabited

/-- A class constant or an enum case. -/
structure Constant where
  name : String
  owner : String := ""
  visibility : Visibility := .pub
  isVirtual : Bool := false
  ty : Ty := .unknown
  /-- The value as written. -/
  value : String := ""
  docs : Docs := {}
  deriving DecidableEq, Repr, Inhabited

/-- `name` inside the namespace `ns`; no namespace and the empty one are the same. -/
def qualify (ns : Option String) (name : String) : String :=
  match ns with
  | none => name
  | some ns => if ns.isEmpty then name else ns ++ "\\" ++ name

structure Function where
  name : String
  ns : Option String := none
  parameters : List Parameter := []
  returnType : Ty := .unknown
  docs : Docs := {}
  deriving DecidableEq, Repr, Inhabited

/-- The fully qualified name, without a leading backslash. -/
def Function.fqn (f : Function) : String := qualify f.ns f.name

/-- A name that a class-like extends, implements or uses. -/
structure Supertype where
  name : String
  /-- What the name declares, once that is known. -/
  kind : Option ClassKind := none
  isAbstract : Bool := false
  deriving DecidableEq, Repr, Inhabited

/-- A supertype of which only the name is known; leading backslashes are not part of it. -/
def Supertype.ofName (name : String) : Supertype :=
  { name := String.ofList (name.toList.dropWhile (· == '\\')) }

def Supertype.isResolved (s : Supertype) : Bool := s.kind.isSome

end PhpSymbols
