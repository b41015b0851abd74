import PhpSymbols.Source.WrittenPath
import PhpSymbols.Toml.Reader
import PhpSymbols.Ty.Resolver

/-!
Configuration. The nearest configuration file at or above a directory counts, and if there is none
the user's own. Paths in a file are meant from the directory of the file.
-/

namespace PhpSymbols

structure Config where
  /-- A directory of templates that go before the bundled ones. -/
  templates : Option String := none
  /-- Whether class-likes without a template are shown as interfaces. -/
  usesCandidates : Bool := true
  unresolved : UnresolvedPolicy := .mixed
  isCached : Bool := false
  /-- Directories in which supertypes are looked up. -/
  roots : List String := []
  deriving DecidableEq, Repr, Inhabited

inductive ConfigError where
  | unreadable (file : String)
  | malformed (file : String)
  deriving DecidableEq, Repr, Inhabited

def ConfigError.message : ConfigError → String
  | unreadable file => "Failed to read " ++ file
  | malformed file => "Failed to parse " ++ file

/-- The working directory, the user's configuration directory, and the files. -/
structure Surroundings where
  directory : String := "/"
  userDirectory : Option String := none
  tree : FileTree := {}
  deriving Repr, Inhabited

namespace Surroundings

def place (s : Surroundings) (written : String) : Path := WrittenPath.place s.directory written

def isFile (s : Surroundings) (written : String) : Bool := s.tree.isFile (s.place written)

def readText? (s : Surroundings) (written : String) : Option String :=
  s.tree.readText? (s.place written)

end Surroundings

namespace Config

/-- The directory of the user's configuration files: the one that is set, if it is absolute, or
`.config` in the home directory. -/
def userDirectory? (set home : Option String) : Option String :=
  home.map fun home => (set.filter WrittenPath.isAbsolute).getD (WrittenPath.join home ".config")

def fileName : String := ".phpantom-hover.toml"

/-- The user's own file below the directory for such files. -/
def userFile (directory : String) : String :=
  WrittenPath.join (WrittenPath.join directory "phpantom-hover") "config.toml"

/-! ### Values -/

/-- A setting; one that is missing keeps its default, and one of another sort spoils the file. -/
def setting {α : Type} (read : Toml → Option α) (default_ : α) (key : String) (es : Toml.Entries) :
    Option α :=
  match es.lookup key with
  | none => some default_
  | some v => read v

/-- The settings of a section, which may also be written as a list of values for `keys`. -/
def section_ (key : String) (keys : List String) (es : Toml.Entries) : Option Toml.Entries :=
  setting (fun v => v.entries?.or (v.items?.map (keys.zip ·))) [] key es

def policy? (v : Toml) : Option UnresolvedPolicy := do
  match ← v.string? with
  | "mixed" => some .mixed
  | "ignore" => some .ignore
  | _ => none

def paths? (v : Toml) : Option (List String) := do (← v.items?).mapM Toml.string?

/-- The configuration in a document. Settings that are not known are passed over. -/
def ofEntries? (es : Toml.Entries) : Option Config := do
  let templates ← section_ "templates" ["path", "interface_candidates"] es
  let types ← section_ "types" ["unresolved_in_union"] es
  let cache ← section_ "cache" ["enabled"] es
  let locator ← section_ "locator" ["roots"] es
  return {
    templates := ← setting (fun v => some <$> v.string?) none "path" templates
    usesCandidates := ← setting Toml.boolean? true "interface_candidates" templates
    unresolved := ← setting policy? .mixed "unresolved_in_union" types
    isCached := ← setting Toml.boolean? false "enabled" cache
    roots := ← setting paths? [] "roots" locator }

/-- The paths as seen from `base`. -/
def rebase (base : String) (c : Config) : Config :=
  { c with
    templates := c.templates.map (WrittenPath.join base)
    roots := c.roots.map (WrittenPath.join base) }

/-! ### Files -/

/-- Reads a configuration file. -/
def load (s : Surroundings) (file : String) : Except ConfigError Config :=
  match s.readText? file with
  | none => .error (.unreadable file)
  | some text =>
    match (Toml.read? text).bind ofEntries? with
    | none => .error (.malformed file)
    | some c =>
      match WrittenPath.parent? file with
      | none => .ok c
      | some base => .ok (c.rebase base)

/-- The configuration file at or above a directory, if there is one. -/
def nearestFile? (s : Surroundings) (directory : String) : Option String :=
  ((WrittenPath.above directory).map (WrittenPath.join · fileName)).find? s.isFile

/-- The file that counts for the working directory. -/
def currentFile? (s : Surroundings) : Option String :=
  (nearestFile? s s.directory).or ((s.userDirectory.map userFile).filter s.isFile)

def loadOptional (s : Surroundings) : Option String → Except ConfigError (Option (Config × String))
  | none => .ok none
  | some file => (fun c => some (c, file)) <$> load s file

/-- The configuration for a directory with its file, without that of the user. -/
def loadFrom (s : Surroundings) (directory : String) :
    Except ConfigError (Option (Config × String)) :=
  loadOptional s (nearestFile? s directory)

/-- The configuration for the working directory with its file. -/
def loadCurrent (s : Surroundings) : Except ConfigError (Option (Config × String)) :=
  loadOptional s (currentFile? s)

end Config
end PhpSymbols
