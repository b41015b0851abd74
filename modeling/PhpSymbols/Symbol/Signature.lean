import PhpSymbols.Symbol.ClassLike

/-!
Signatures: a symbol on one line, in the shape of its declaration. A type that is not known is
left out, so an untyped parameter reads like its source.
-/

namespace PhpSymbols

namespace Signature

/-- `text` if `condition` holds, and nothing otherwise. -/
def only (condition : Bool) (text : String) : String := if condition then text else ""

/-- The type and a space. -/
def typed (t : Ty) : String := only (!t.isUnknown) (t.text ++ " ")

/-- The type after a colon. -/
def returning (t : Ty) : String := only (!t.isUnknown) (": " ++ t.text)

def initialised : Option String → String
  | none => ""
  | some value => " = " ++ value

/-- Leads the names of a list of supertypes, if there are any. -/
def listed (keyword : String) (supertypes : List Supertype) : String :=
  only (!supertypes.isEmpty) <|
    " " ++ keyword ++ " " ++ String.intercalate ", " (supertypes.map (·.name))

end Signature

open Signature

def Parameter.signature (p : Parameter) : String :=
  typed p.ty ++ only p.isReference "&" ++ only p.isVariadic "..." ++ "$" ++ p.name ++
    initialised p.initial

/-- The parameters between parentheses. -/
def Signature.parameters (ps : List Parameter) : String :=
  "(" ++ String.intercalate ", " (ps.map (·.signature)) ++ ")"

def Method.signature (m : Method) : String :=
  only m.isFinal "final " ++ only m.isAbstract "abstract " ++ m.visibility.word ++ " " ++
    only m.isStatic "static " ++ "function " ++ m.name ++ Signature.parameters m.parameters ++
    returning m.returnType

def Function.signature (f : Function) : String :=
  "function " ++ f.name ++ Signature.parameters f.parameters ++ returning f.returnType

def Property.signature (p : Property) : String :=
  p.visibility.word ++ " " ++ only p.isStatic "static " ++ only p.isReadonly "readonly " ++
    typed p.ty ++ "$" ++ p.name ++ initialised p.initial

def Constant.signature (c : Constant) : String :=
  c.visibility.word ++ " const " ++ c.name ++ " = " ++ c.value

/-- The head of the declaration. Only classes show that they are final or abstract, because
every enum is final. -/
def ClassLike.signature (c : ClassLike) : String :=
  let isClass := c.kind == .classDecl
  only (isClass && c.isFinal) "final " ++ only (isClass && c.isAbstract) "abstract " ++
    c.kind.word ++ " " ++ c.name ++ listed "extends" c.parents ++
    listed "implements" c.interfaces

def Symbol.signature : Symbol → String
  | .classLike c => c.signature
  | .function f => f.signature
  | .method m => m.signature
  | .property p => p.signature
  | .constant c => c.signature

end PhpSymbols
