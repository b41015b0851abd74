import PhpSymbols.Text.Cut

/-!
File trees as values. A path is a list of components from the root of the tree. Directories exist
where a file stands below them or where they are listed. Looking a path up goes through each of its
directories, so `..` leads out only of a directory that exists.
-/

namespace PhpSymbols

abbrev Path := List String

/-- What a file holds, as far as it is text. -/
inductive Content where
  | text (s : String)
  /-- The bytes are no UTF-8 text. -/
  | binary
  deriving DecidableEq, Repr, Inhabited

structure FileTree where
  files : List (Path × Content) := []
  directories : List Path := []
  deriving DecidableEq, Repr, Inhabited

namespace FileTree

/-- The components of a written path. A slash at the end asks for a directory. -/
def components (written : String) : Path :=
  let parts := (written.toList.splitOn '/').map String.ofList
  let inner := parts.filter (· ≠ "")
  if parts.getLast? = some "" ∧ !inner.isEmpty then inner ++ ["."] else inner

/-- Whether a directory stands at a path without `.` and `..`. -/
def hasDirectory (t : FileTree) (p : Path) : Bool :=
  p.isEmpty || t.directories.any p.isPrefixOf ||
    t.files.any fun f => p.isPrefixOf f.1 && p.length < f.1.length

/-- Where the components `rest` lead from the plain path `start`. Each of them needs a directory to
start from. -/
def walkFrom (t : FileTree) (start : Path) : (rest : Path) → Option Path
  | [] => some start
  | c :: rest =>
    if !t.hasDirectory start then none
    else if c = "." ∨ c = "" then t.walkFrom start rest
    else if c = ".." then t.walkFrom start.dropLast rest
    else t.walkFrom (start ++ [c]) rest

/-- The path without `.` and `..` to which a path leads. -/
def resolve? (t : FileTree) (p : Path) : Option Path := t.walkFrom [] p

def read? (t : FileTree) (p : Path) : Option Content :=
  (t.resolve? p).bind fun q => List.lookup q t.files

def isFile (t : FileTree) (p : Path) : Bool := (t.read? p).isSome

def isDirectory (t : FileTree) (p : Path) : Bool := (t.resolve? p).any t.hasDirectory

/-- The text of a file; nothing if there is no such file or it holds no text. -/
def readText? (t : FileTree) (p : Path) : Option String :=
  match t.read? p with
  | some (.text s) => some s
  | _ => none

/-! ### Changes, at paths without `.` and `..` -/

def remove (t : FileTree) (p : Path) : FileTree :=
  { t with files := t.files.filter (·.1 != p) }

/-- Writes a file, in its place if it exists. -/
def write (t : FileTree) (p : Path) (c : Content) : FileTree :=
  if t.files.any (·.1 == p) then
    { t with files := t.files.map fun f => if f.1 = p then (p, c) else f }
  else { t with files := t.files ++ [(p, c)] }

def addDirectory (t : FileTree) (p : Path) : FileTree :=
  { t with directories := t.directories ++ [p] }

end FileTree
end PhpSymbols
