import PhpSymbols.Text.Number

/-!
Command line arguments: one file, one selector, and options in any order. An option takes its value
from behind an equals sign or from the next argument; an argument that starts with a dash is never
a value, unless it is the dash alone.
-/

namespace PhpSymbols.Command

/-- What is asked about the file. -/
inductive Selector where
  | offset (byte : Nat)
  | class_ (name : String)
  | function (name : String)
  /-- A class-like and a member of it, as written. -/
  | member (written : String)
  | type_ (expression : String)
  deriving DecidableEq, Repr, Inhabited

structure Request where
  file : String
  selector : Selector
  title : Option String := none
  docs : Option String := none
  templates : Option String := none
  roots : List String := []
  config : Option String := none
  deriving DecidableEq, Repr, Inhabited

/-- What the arguments ask for. -/
inductive Invocation where
  | run (r : Request)
  | showVersion
  | showHelp
  | misuse
  deriving DecidableEq, Repr, Inhabited

inductive OptionName where
  | offset
  | class_
  | function
  | member
  | type_
  | title
  | docs
  | templates
  | root
  | config
  deriving DecidableEq, Repr, Inhabited

namespace OptionName

def all : List OptionName :=
  [offset, class_, function, member, type_, title, docs, templates, root, config]

def written : OptionName → String
  | offset => "offset"
  | class_ => "class"
  | function => "function"
  | member => "member"
  | type_ => "type"
  | title => "title"
  | docs => "docs"
  | templates => "templates"
  | root => "root"
  | config => "config"

def ofWritten? (s : String) : Option OptionName := all.find? (·.written == s)

/-- Whether the value is a path, which must not be empty. -/
def takesPath : OptionName → Bool
  | templates | root | config => true
  | _ => false

end OptionName

/-- The arguments read so far. -/
structure Draft where
  files : List String := []
  /-- Options with their values, the latest first. -/
  options : List (OptionName × String) := []
  deriving DecidableEq, Repr, Inhabited

namespace Draft

/-- Takes an option. Only roots may be given more than once. -/
def addOption (d : Draft) (o : OptionName) (value : String) : Option Draft :=
  if o ≠ .root ∧ (d.options.lookup o).isSome then none
  else if o.takesPath && value.isEmpty then none
  else if o = .offset ∧ (Text.number? value.toList).isNone then none
  else some { d with options := (o, value) :: d.options }

/-- Takes the file. There is only one, and it is named. -/
def addFile (d : Draft) (file : String) : Option Draft :=
  if file.isEmpty || !d.files.isEmpty then none else some { d with files := [file] }

def selectorOf? : OptionName × String → Option Selector
  | (.offset, v) => (Text.number? v.toList).map .offset
  | (.class_, v) => some (.class_ v)
  | (.function, v) => some (.function v)
  | (.member, v) => some (.member v)
  | (.type_, v) => some (.type_ v)
  | _ => none

/-- The request, if there are a file and exactly one selector. -/
def request? (d : Draft) : Option Request :=
  match d.files, d.options.filterMap selectorOf? with
  | [file], [selector] =>
    some {
      file := file
      selector := selector
      title := d.options.lookup .title
      docs := d.options.lookup .docs
      templates := d.options.lookup .templates
      roots := (d.options.reverse.filter (·.1 = .root)).map (·.2)
      config := d.options.lookup .config }
  | _, _ => none

def finish (d : Draft) : Invocation :=
  match d.request? with
  | some r => .run r
  | none => .misuse

end Draft

/-- Whether an argument is an option by its form. -/
def looksLikeOption (a : String) : Bool :=
  match a.toList with
  | '-' :: _ :: _ => true
  | _ => false

/-- What a long option says: its name, and the value behind an equals sign. -/
def longOption (a : List Char) : String × Option String :=
  match Text.splitOnce '=' a with
  | some (name, value) => (String.ofList name, some (String.ofList value))
  | none => (String.ofList a, none)

/-- All arguments are files. -/
def readFiles (d : Draft) : List String → Invocation
  | [] => d.finish
  | a :: rest =>
    match d.addFile a with
    | some d => readFiles d rest
    | none => .misuse

/-- Reads the arguments one after the other. The first one that asks for the version or help, or
that fits nowhere, decides. -/
def readArguments (d : Draft) : List String → Invocation
  | [] => d.finish
  | a :: rest =>
    match a.toList with
    | ['-', '-'] => readFiles d rest
    | '-' :: '-' :: long =>
      match longOption long with
      | ("version", none) => .showVersion
      | ("help", none) => .showHelp
      | (name, value) =>
        match OptionName.ofWritten? name, value, rest with
        | none, _, _ => .misuse
        | some o, some v, rest =>
          match d.addOption o v with
          | some d => readArguments d rest
          | none => .misuse
        | some _, none, [] => .misuse
        | some o, none, v :: rest =>
          if looksLikeOption v then .misuse
          else
            match d.addOption o v with
            | some d => readArguments d rest
            | none => .misuse
    | '-' :: 'V' :: _ => .showVersion
    | '-' :: 'h' :: _ => .showHelp
    | '-' :: _ :: _ => .misuse
    | _ =>
      match d.addFile a with
      | some d => readArguments d rest
      | none => .misuse

def Invocation.ofArguments (arguments : List String) : Invocation := readArguments {} arguments

end PhpSymbols.Command
