import PhpSymbols.Source.FileTree

/-!
Paths as written. They are joined and cut as text, so `.` and `..` stay in them; only looking one
up reads them.
-/

namespace PhpSymbols.WrittenPath

def isAbsolute (p : String) : Bool := p.toList.head? == some '/'

/-- `p` as seen from `base`. An absolute path stays as it is, and the empty path asks for `base` as
a directory. -/
def join (base p : String) : String :=
  if isAbsolute p ∨ base.isEmpty then p
  else if base.toList.getLast? = some '/' then base ++ p
  else base ++ "/" ++ p

/-- Drops slashes and single dots at the end, but not the root. The text stands reversed. -/
def dropTrailing : List Char → List Char
  | '.' :: '/' :: s => dropTrailing ('/' :: s)
  | ['/'] => ['/']
  | '/' :: s => dropTrailing s
  | s => s
termination_by s => s.length
decreasing_by all_goals simp

/-- The path above, if there is one: without the last component. -/
def parent? (p : String) : Option String :=
  match dropTrailing p.toList.reverse with
  | [] => none
  | ['/'] => none
  | reversed => some (String.ofList (dropTrailing (reversed.dropWhile (· != '/'))).reverse)

/-- A path and those above it, at most `fuel` of them. -/
def aboveUpTo (fuel : Nat) (p : String) : List String :=
  match fuel with
  | 0 => []
  | fuel + 1 =>
    p :: match parent? p with
      | some q => aboveUpTo fuel q
      | none => []

/-- A path and those above it, the nearest first. Each step takes a character. -/
def above (p : String) : List String := aboveUpTo (p.length + 1) p

/-- Where a path leads in a tree, as seen from the directory `base`. -/
def place (base p : String) : Path := FileTree.components (join base p)

end PhpSymbols.WrittenPath
