import PhpSymbols.Symbol.Bindings

/-!
What can be shown, and the variants that templates are registered for. Class-likes have one variant
per kind; each other sort of item has one.
-/

namespace PhpSymbols

inductive Variant where
  | class_
  | interface_
  | trait_
  | enum_
  | method
  | property
  | constant
  | function
  | resolution
  | type_
  | hover
  deriving DecidableEq, Repr, Inhabited

namespace Variant

def all : List Variant :=
  [class_, interface_, trait_, enum_, method, property, constant, function, resolution, type_,
    hover]

/-- The name in messages and in the names of template files. -/
def name : Variant → String
  | class_ => "class"
  | interface_ => "interface"
  | trait_ => "trait"
  | enum_ => "enum"
  | method => "method"
  | property => "property"
  | constant => "constant"
  | function => "function"
  | resolution => "offset-resolution"
  | type_ => "type"
  | hover => "hover-information"

def ofName? (s : String) : Option Variant := all.find? (·.name == s)

def ofKind : ClassKind → Variant
  | .classDecl => class_
  | .interfaceDecl => interface_
  | .traitDecl => trait_
  | .enumDecl => enum_

/-- The variant whose template can stand in. Only class-likes have one. -/
def candidate? : Variant → Option Variant
  | class_ | trait_ | enum_ => some interface_
  | _ => none

theorem mem_all (v : Variant) : v ∈ all := by cases v <;> decide

end Variant

/-- A symbol with a title and prose from elsewhere, as shown in a hover box. -/
structure Hover where
  title : String := ""
  docs : String := ""
  symbol : Symbol
  deriving DecidableEq, Repr, Inhabited

def Symbol.variant : Symbol → Variant
  | .classLike c => .ofKind c.kind
  | .function _ => .function
  | .method _ => .method
  | .property _ => .property
  | .constant _ => .constant

end PhpSymbols
