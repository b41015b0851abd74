import PhpSymbols.Php.Tree

/-!
Class names under imports. A name is looked up by its first segment without letter case; a name
that is not imported belongs to the namespace it is written in.
-/

namespace PhpSymbols
open Php

/-- The namespace of a statement list and the class names that its `use` statements import, by
their aliases in lower case; of two imports under one alias the later holds. -/
structure Imports where
  ns : Option String := none
  classes : List (String × String) := []
  deriving DecidableEq, Repr, Inhabited

namespace Imports

/-- A name without its leading backslashes. -/
def path (name : String) : List Char := name.toList.dropWhile (· == '\\')

/-- The segment behind the last backslash. -/
def lastSegment (name : List Char) : List Char :=
  match Text.splitOnceLast '\\' name with
  | some (_, last) => last
  | none => name

/-- The alias and the class that one imported name stands for. -/
def entry (group : Option String) (item : ImportItem) : String × String :=
  let full := match group with
    | none => path item.name
    | some g => path g ++ '\\' :: path item.name
  let local_ := match item.local_ with
    | some a => a.toList
    | none => lastSegment full
  (String.ofList (Text.lower local_), String.ofList full)

/-- The class imports of one statement. Imports of functions and constants name no class, and
in a group each name may have a kind of its own. -/
def entries : ImportClause → List (String × String)
  | ⟨some _, _, _⟩ => []
  | ⟨none, group, items⟩ =>
    (items.filter fun item => group.isNone || item.kind.isNone).map (entry group)

/-- The imports among `statements`, in the namespace `ns`. -/
def of (ns : Option String) (statements : List Stmt) : Imports :=
  { ns := ns
    classes := statements.flatMap fun
      | .use _ clause => entries clause
      | _ => [] }

def find? (i : Imports) (local_ : List Char) : Option String :=
  i.classes.reverse.lookup (String.ofList (Text.lower local_))

/-- The fully qualified name of the class written as `name`. -/
def resolveClass (i : Imports) (name : String) : String :=
  match name.toList with
  | '\\' :: rest => String.ofList rest
  | written =>
    let (first, rest) := Text.breakOn (· == '\\') written
    match i.find? first with
    | some imported => imported ++ String.ofList rest
    | none => qualify i.ns name

end Imports
end PhpSymbols
