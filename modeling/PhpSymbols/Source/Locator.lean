import PhpSymbols.Reflect.Declaration
import PhpSymbols.Source.Ignore

/-!
Locators: where the source of a name is found. A temporary locator holds the sources it was given
by the names they declare. A directory locator looks for the file that the name spells under each
root, and else in an index of all names declared under its roots, built when first needed.
-/

namespace PhpSymbols

/-- The key of a name in an index: no leading backslashes and no letter case. -/
def indexKey (name : String) : String :=
  String.ofList (Text.lower (name.toList.dropWhile (· == '\\')))

/-- The keys of one declared name: the qualified one, if it differs, and the short one. -/
def keysOf (short fqn : String) : List String :=
  if indexKey fqn = indexKey short then [indexKey short] else [indexKey fqn, indexKey short]

/-- The keys of all that a source declares. -/
def declaredNames [Php.Frontend] (source : String) : List String :=
  let d := Declarations.of {} source
  (d.classes.flatMap fun c => keysOf c.symbol.name c.symbol.fqn) ++
    d.functions.flatMap fun f => keysOf f.name f.fqn

/-- The failure to find the source of `name`. -/
def sourceNotFound (name : String) : ReflectError :=
  .notFound .source (some (String.ofList (name.toList.dropWhile (· == '\\'))))

/-- What is found under a key is listed with the key. -/
theorem mem_of_lookup {α β : Type} [BEq α] [LawfulBEq α] {entries : List (α × β)} {k : α} {b : β}
    (h : entries.lookup k = some b) : (k, b) ∈ entries := by
  obtain ⟨before, behind, split, -⟩ := List.lookup_eq_some_iff.1 h
  rw [split]
  exact List.mem_append_right before List.mem_cons_self

/-! ### Temporary locators -/

/-- Sources by key; a key is registered once. -/
structure TemporaryLocator where
  sources : List (String × String) := []
  deriving DecidableEq, Repr, Inhabited

namespace TemporaryLocator

def register (l : TemporaryLocator) (key source : String) : TemporaryLocator :=
  ⟨(key, source) :: l.sources.filter (·.1 != key)⟩

def insert (l : TemporaryLocator) (name source : String) : TemporaryLocator :=
  l.register (indexKey name) source

/-- Registers a source under every name that it declares. -/
def setSource [Php.Frontend] (l : TemporaryLocator) (source : String) : TemporaryLocator :=
  (declaredNames source).foldl (fun l key => l.register key source) l

def clear (_ : TemporaryLocator) : TemporaryLocator := {}

def locate (l : TemporaryLocator) (name : String) : Except ReflectError String :=
  match l.sources.lookup (indexKey name) with
  | some source => .ok source
  | none => .error (sourceNotFound name)

end TemporaryLocator

/-! ### Directory locators -/

/-- A component that stays inside its directory. -/
def isPlainComponent (c : String) : Bool :=
  c ≠ "" && c ≠ "." && c ≠ ".." && !c.toList.any fun d => d == '/' || d == '\x00'

/-- The path below a root that a name spells, if every segment of it is a plain component. -/
def conventionalSuffix? (name : String) : Option Path :=
  let segments := ((name.toList.dropWhile (· == '\\')).splitOn '\\').map String.ofList
  if segments.all isPlainComponent then
    segments.getLast?.map fun last => segments.dropLast ++ [last ++ ".php"]
  else none

/-- The keys declared under some roots with the files that declare them, the first one first. -/
abbrev Index := List (String × Path)

/-- Whether the last component has the extension of PHP files. -/
def isPhpFile (p : Path) : Bool :=
  match p.getLast? with
  | none => false
  | some c => match Text.splitOnceLast '.' c.toList with
    | some (stem, extension) => !stem.isEmpty && extension == "php".toList
    | none => false

def Index.ofRoot [Php.Frontend] [Walker] (t : FileTree) (root : Path) : Index :=
  if t.isDirectory root then
    ((Walker.walk t root).filter isPhpFile).flatMap fun p =>
      ((t.readText? p).map declaredNames).getD [] |>.map fun key => (key, p)
  else []

def Index.ofRoots [Php.Frontend] [Walker] (t : FileTree) (roots : List Path) :
    Index := roots.flatMap (Index.ofRoot t)

structure DirectoryLocator where
  tree : FileTree := {}
  roots : List Path := []
  /-- The index, once a name was not found without it. -/
  index : Option Index := none
  deriving DecidableEq, Repr, Inhabited

namespace DirectoryLocator

/-- The file that a name spells, under the first root that has it. -/
def conventionalPath? (l : DirectoryLocator) (name : String) : Option Path := do
  let suffix ← conventionalSuffix? name
  (l.roots.map (· ++ suffix)).find? l.tree.isFile

/-- The locator with its index built. An index is never built again. -/
def indexed [Php.Frontend] [Walker] (l : DirectoryLocator) : DirectoryLocator :=
  { l with index := some (l.index.getD (Index.ofRoots l.tree l.roots)) }

def indexedPath? (l : DirectoryLocator) (name : String) : Option Path :=
  l.index.bind (·.lookup (indexKey name))

/-- The text of the file found, or the failure to find one. -/
def readFound (l : DirectoryLocator) (name : String) (p : Option Path) :
    Except ReflectError String :=
  match p.bind l.tree.readText? with
  | some source => .ok source
  | none => .error (sourceNotFound name)

def locate [Php.Frontend] [Walker] (l : DirectoryLocator) (name : String) :
    Except ReflectError String × DirectoryLocator :=
  match l.conventionalPath? name with
  | some p => (l.readFound name (some p), l)
  | none =>
    let l := l.indexed
    (l.readFound name (l.indexedPath? name), l)

end DirectoryLocator

inductive Locator where
  | temporary (l : TemporaryLocator)
  | directory (l : DirectoryLocator)
  deriving DecidableEq, Repr, Inhabited

/-- Finds the source of a name; a directory locator may have built its index for it. -/
def Locator.locate [Php.Frontend] [Walker] : Locator → String → Except ReflectError String × Locator
  | .temporary l, name => (l.locate name, .temporary l)
  | .directory l, name => let (source, l) := l.locate name; (source, .directory l)

end PhpSymbols
