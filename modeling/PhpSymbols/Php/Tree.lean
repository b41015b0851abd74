import PhpSymbols.Php.Token
import PhpSymbols.Symbol.Basic

/-!
Syntax trees of PHP source. Expressions and statements carry the bytes that they cover. A tree
keeps what can declare a symbol or bind a variable; a form that does neither only keeps its parts.
-/

namespace PhpSymbols.Php

/-- A variable's name without the dollar sign that it is written with. -/
def plainName (written : String) : String :=
  String.ofList (written.toList.dropWhile (· == '$'))

inductive Modifier where
  | pub
  | prot
  | priv
  /-- A visibility for writing only, such as `private(set)`. -/
  | writeScope
  | abstract
  | final
  | static
  | readonly
  deriving DecidableEq, Repr, Inhabited

inductive LiteralKind where
  | string
  | integer
  | float
  | boolean
  | null
  deriving DecidableEq, Repr, Inhabited

/-- A word that names a class by where it stands. -/
inductive ClassWord where
  | self
  | static
  | parent
  deriving DecidableEq, Repr, Inhabited

inductive ImportKind where
  | classLike
  | function
  | constant
  deriving DecidableEq, Repr, Inhabited

/-- One name of a `use` statement. -/
structure ImportItem where
  /-- The kind written before this name. -/
  kind : Option ImportKind := none
  name : String
  local_ : Option String := none
  deriving DecidableEq, Repr, Inhabited

/-- The names of a `use` statement: in a group they share a first part. -/
structure ImportClause where
  /-- The kind written before all names. -/
  kind : Option ImportKind := none
  group : Option String := none
  items : List ImportItem := []
  deriving DecidableEq, Repr, Inhabited

mutual

inductive Expr where
  /-- `$name`; the name stands without its dollar sign. -/
  | var (span : Span) (name : String)
  /-- A constant, function or class. -/
  | name (span : Span) (text : String)
  | classWord (span : Span) (word : ClassWord)
  | literal (span : Span) (kind : LiteralKind)
  /-- A string whose text is computed. -/
  | template (span : Span)
  | array (span : Span) (elements : List Element)
  /-- `array(…)`. -/
  | longArray (span : Span) (elements : List Element)
  /-- `list(…)`. -/
  | listing (span : Span) (elements : List Element)
  /-- A plain, compound or reference assignment. -/
  | assign (span : Span) (operator : String) (target value : Expr)
  | paren (span : Span) (inner : Expr)
  | closure (span : Span) (parameters : List Param) (captured : List String) (body : Body)
  | arrow (span : Span) (parameters : List Param) (value : Expr)
  /-- A call of a function, or of a method of the object or class `target`. -/
  | call (span : Span) (target : Expr) (arguments : List Expr)
  | new (span : Span) (target : Expr) (arguments : List Expr)
  | anonymousClass (span : Span) (arguments : List Expr) (members : List Member)
  | binary (span : Span) (left right : Expr)
  | conditional (span : Span) (condition : Expr) (yes : Option Expr) (no : Expr)
  /-- An operator or cast before its operand. -/
  | unary (span : Span) (operand : Expr)
  | throw (span : Span) (exception : Expr)
  /-- Any other form, with its parts in source order. -/
  | construct (span : Span) (parts : List Expr)

/-- An element of an array or of a list of targets. -/
inductive Element where
  | pair (key value : Expr)
  | value (value : Expr)
  | spread (value : Expr)
  | missing

/-- A parameter; its name stands as written. -/
inductive Param where
  | mk (modifiers : List Modifier) (hint : Option Span) (isReference isVariadic : Bool)
      (name : String) (initial : Option Expr) (hasHooks : Bool)

/-- Statements between braces; the span includes both. -/
inductive Body where
  | mk (span : Span) (statements : List Stmt)

inductive Stmt where
  /-- Text outside code, or a tag. -/
  | markup (span : Span)
  | expression (span : Span) (value : Expr)
  | block (span : Span) (statements : List Stmt)
  | ifElse (span : Span) (condition : Expr) (body : List Stmt) (elseIfs : List ElseIf)
      (otherwise : List Stmt)
  | foreach (span : Span) (subject : Expr) (key : Option Expr) (value : Expr) (bodySpan : Span)
      (body : List Stmt)
  | forLoop (span : Span) (inits conditions steps : List Expr) (body : List Stmt)
  | whileLoop (span : Span) (condition : Expr) (body : List Stmt)
  | doWhile (span : Span) (body : List Stmt) (condition : Expr)
  | tryCatch (span : Span) (body : List Stmt) (catches : List Catch) (ensure : Option Ensure)
  /-- The plain variables of a `global` statement. -/
  | global (span : Span) (names : List String)
  | staticVars (span : Span) (names : List String) (initials : List Expr)
  | ret (span : Span) (value : Option Expr)
  | echo (span : Span) (values : List Expr)
  | switch (span : Span) (subject : Expr) (cases : List Case)
  | declare (span : Span) (body : List Stmt)
  | classLike (declaration : ClassDecl)
  | function (declaration : FunctionDecl)
  /-- Without braces, the statements go on to the next namespace or the end. -/
  | ns (span : Span) (name : Option String) (statements : List Stmt)
  | use (span : Span) (clause : ImportClause)
  /-- Any other statement, with its expressions in source order. -/
  | other (span : Span) (parts : List Expr)

inductive ElseIf where
  | mk (condition : Expr) (body : List Stmt)

inductive Catch where
  | mk (span hint : Span) (name : Option String) (body : List Stmt)

/-- A `finally` clause. -/
inductive Ensure where
  | mk (span : Span) (body : List Stmt)

inductive Case where
  | mk (label : Option Expr) (body : List Stmt)

inductive FunctionDecl where
  | mk (span : Span) (name : String) (parameters : List Param) (returnHint : Option Span)
      (body : Body)

/-- A declaration of a class, interface, trait or enum; `braces` covers its body. -/
inductive ClassDecl where
  | mk (span : Span) (kind : ClassKind) (modifiers : List Modifier) (name : String)
      (parents interfaces : List String) (braces : Span) (members : List Member)

inductive Member where
  | method (span : Span) (modifiers : List Modifier) (name : String) (parameters : List Param)
      (returnHint : Option Span) (body : Option Body)
  | property (span : Span) (modifiers : List Modifier) (hint : Option Span)
      (items : List PropertyItem)
  /-- A property with accessors of its own; its name stands as written. -/
  | hookedProperty (span : Span) (modifiers : List Modifier) (hint : Option Span) (name : String)
  | constant (span : Span) (modifiers : List Modifier) (hint : Option Span)
      (items : List ConstantItem)
  /-- An enum case; `item` covers its name and value. -/
  | enumCase (span : Span) (name : String) (item : Span)
  | traitUse (span : Span) (names : List String)

/-- A declared property; its name stands as written. -/
inductive PropertyItem where
  | mk (name : String) (initial : Option Expr)

inductive ConstantItem where
  | mk (name : String) (value : Expr)

end

end PhpSymbols.Php
