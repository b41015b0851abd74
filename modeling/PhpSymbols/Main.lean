import PhpSymbols.Command.Run

/-!
The program. It reads the files that a request may need into a tree, and the tree and the arguments
decide the rest.
-/

namespace PhpSymbols.Program
open Command

/-- Reads a file into the tree, if there is one. -/
def readFile (s : Surroundings) (written : String) : IO Surroundings := do
  try
    let bytes ← IO.FS.readBinFile (WrittenPath.join s.directory written)
    let content := match String.fromUTF8? bytes with
      | some text => Content.text text
      | none => .binary
    match s.tree.resolve? (s.place written) with
    | some path => return { s with tree := s.tree.write path content }
    | none => return s
  catch _ => return s

/-- Lists the directories on the way to a path, so that it can be looked up. -/
def enterDirectories (s : Surroundings) (written : String) : Surroundings :=
  let steps := s.place written
  let paths := (List.range steps.length).filterMap fun n =>
    let taken := steps.take n
    if taken.contains ".." then none else some (taken.filter (· != "."))
  { s with tree := paths.foldl FileTree.addDirectory s.tree }

/-- Reads all files below a directory into the tree. -/
partial def readDirectory (s : Surroundings) (written : String) : IO Surroundings := do
  try
    let entries ← ((← IO.currentDir) / WrittenPath.join s.directory written).readDir
    let s := enterDirectories s (WrittenPath.join written ".")
    entries.foldlM (fun s entry => do
      let inner := WrittenPath.join written entry.fileName
      match (← entry.path.metadata).type with
      | .dir => readDirectory s inner
      | _ => readFile (enterDirectories s inner) inner) s
  catch _ => return s

def surroundings : IO Surroundings := do
  let home ← IO.getEnv "HOME"
  let set ← IO.getEnv "XDG_CONFIG_HOME"
  let directory := (← IO.currentDir).toString
  return enterDirectories
    { directory, userDirectory := Config.userDirectory? set home }
    (WrittenPath.join directory ".")

/-- Reads what a request may need. -/
def readFor (s : Surroundings) (r : Request) : IO Surroundings := do
  let read (s : Surroundings) (file : String) := readFile (enterDirectories s file) file
  let s ← (r.file :: r.configFiles s).foldlM read s
  match configFor s r with
  | .error _ => return s
  | .ok c => (r.directories c).foldlM readDirectory s

end PhpSymbols.Program

open PhpSymbols PhpSymbols.Command PhpSymbols.Program in
def main (arguments : List String) : IO UInt32 := do
  let invocation := Invocation.ofArguments arguments
  let s ← surroundings
  let s ← match invocation with
    | .run r => readFor s r
    | _ => pure s
  let outcome := invocation.outcome s
  IO.print outcome.output
  IO.eprint outcome.errors
  return outcome.exitCode.toUInt32
