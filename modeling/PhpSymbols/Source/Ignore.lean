import PhpSymbols.Source.FileTree

/-!
Which files a walk over a source tree leaves out: hidden ones, and those that an ignore file above
them excludes. A pattern without a slash inside applies at every depth below its file; of several
patterns that match, the last decides; of several ignore files, the nearest.
-/

namespace PhpSymbols.Ignore
open Text

/-! ### Patterns -/

inductive Glob where
  | literal (c : Char)
  /-- Any character but a slash. -/
  | one
  /-- Any run of characters without a slash. -/
  | run
  /-- One of some ranges of characters, or none of them. -/
  | oneOf (negated : Bool) (ranges : List (Char × Char))
  /-- Any number of directories. -/
  | directories
  /-- Everything below a directory. -/
  | below
  deriving DecidableEq, Repr

/-- The ranges up to the closing bracket of a class, and the text behind it. -/
def readClass (ranges : List (Char × Char)) : List Char → Option (List (Char × Char) × List Char)
  | [] => none
  | lo :: '-' :: hi :: rest =>
    if lo = ']' ∧ !ranges.isEmpty then some (ranges, '-' :: hi :: rest)
    else if hi = ']' then some (ranges ++ [(lo, lo), ('-', '-')], rest)
    else readClass (ranges ++ [(lo, hi)]) rest
  | c :: rest =>
    if c = ']' ∧ !ranges.isEmpty then some (ranges, rest)
    else readClass (ranges ++ [(c, c)]) rest

/-- Reads a pattern. Two stars stand for directories only where they are a whole segment, and a
bracket that never closes stands for itself. -/
def readGlob (startsSegment : Bool) (s : List Char) : List Glob :=
  match s with
  | [] => []
  | '*' :: '*' :: '/' :: rest =>
    if startsSegment then .directories :: readGlob true rest
    else .run :: readGlob false ('/' :: rest)
  | ['/', '*', '*'] => [.below]
  | '*' :: rest => .run :: readGlob false (rest.dropWhile (· == '*'))
  | '?' :: rest => .one :: readGlob false rest
  | '\\' :: c :: rest => .literal c :: readGlob (c == '/') rest
  | '[' :: rest =>
    let (negated, body) := match rest with
      | '!' :: r => (true, r)
      | '^' :: r => (true, r)
      | r => (false, r)
    match readClass [] body with
    | some (ranges, after) =>
      if after.length < rest.length then .oneOf negated ranges :: readGlob false after
      else [.literal '[']
    | none => .literal '[' :: readGlob false rest
  | c :: rest => .literal c :: readGlob (c == '/') rest
termination_by s.length
decreasing_by
  all_goals simp only [List.length_cons] at *
  all_goals first
    | omega
    | (have h := length_dropWhile_le (· == '*') rest; omega)

/-- Whether the whole of a path, written with slashes, fits a pattern. -/
def fits (g : List Glob) (s : List Char) : Bool :=
  match g, s with
  | [], [] => true
  | [], _ :: _ => false
  | .below :: _, c :: s => c == '/' && !s.isEmpty
  | .below :: _, [] => false
  | .run :: g, [] => fits g []
  | .run :: g, c :: s => fits g (c :: s) || (c != '/' && fits (.run :: g) s)
  | .directories :: g, [] => fits g []
  | .directories :: g, c :: s =>
    fits g (c :: s) ||
      match _h : (c :: s).dropWhile (· != '/') with
      | [] => false
      | _ :: rest => fits (.directories :: g) rest
  | .literal d :: g, c :: s => c == d && fits g s
  | .one :: g, c :: s => c != '/' && fits g s
  | .oneOf negated ranges :: g, c :: s =>
    c != '/' && (ranges.any fun (lo, hi) => lo ≤ c && c ≤ hi) != negated && fits g s
  | .literal _ :: _, [] | .one :: _, [] | .oneOf _ _ :: _, [] => false
termination_by g.length + s.length
decreasing_by
  all_goals simp only [List.length_cons, List.length_nil]
  all_goals first
    | omega
    | (have h := length_dropWhile_le (· != '/') (c :: s)
       rw [_h] at h
       simp only [List.length_cons] at h
       omega)

structure Rule where
  /-- Brings back what an earlier rule excludes. -/
  isWhitelist : Bool
  directoriesOnly : Bool
  glob : List Glob
  deriving DecidableEq, Repr

/-- Reads one line of an ignore file; blank lines and comments hold no rule. -/
def ruleOfLine? (line : List Char) : Option Rule :=
  let line := if "\\ ".toList.isSuffixOf line then line else trimEnd line
  match line with
  | [] => none
  | '#' :: _ => none
  | _ =>
    let (isWhitelist, body) := match line with
      | '!' :: r => (true, r)
      | '\\' :: c :: r => if c = '!' ∨ c = '#' then (false, c :: r) else (false, line)
      | r => (false, r)
    let (directoriesOnly, body) := match beforeLast? '/' body with
      | some r => (true, r)
      | none => (false, body)
    match body with
    | [] => none
    | '/' :: anchored => some ⟨isWhitelist, directoriesOnly, readGlob true anchored⟩
    | _ =>
      let glob := readGlob true body
      some ⟨isWhitelist, directoriesOnly,
        if body.contains '/' then glob else .directories :: glob⟩

def Rule.applies (r : Rule) (relative : List Char) (isDirectory : Bool) : Bool :=
  (isDirectory || !r.directoriesOnly) && fits r.glob relative

inductive Verdict where
  | excluded
  | whitelisted
  deriving DecidableEq, Repr

/-- What the rules of one ignore file say of a path below it. -/
def verdictOf? (rules : List Rule) (relative : List Char) (isDirectory : Bool) : Option Verdict :=
  (rules.reverse.find? (·.applies relative isDirectory)).map fun r =>
    if r.isWhitelist then .whitelisted else .excluded

/-! ### Walks -/

/-- A path below `directory`, written with slashes. -/
def relativeTo (directory p : Path) : List Char :=
  (String.intercalate "/" (p.drop directory.length)).toList

/-- What the ignore file `file` below `directory` says of `p`. -/
def verdictIn? (t : FileTree) (file : Path) (p : Path) (isDirectory : Bool) (directory : Path) :
    Option Verdict :=
  match t.readText? (directory ++ file) with
  | none => none
  | some text =>
    verdictOf? ((lines text.toList).filterMap ruleOfLine?) (relativeTo directory p) isDirectory

/-- The paths on the way to `p`, from the empty one to `p` itself. -/
def leading (p : Path) : List Path := (List.range (p.length + 1)).map p.take

/-- The directories above `p`, the nearest first. -/
def above (p : Path) : List Path := (leading p).dropLast.reverse

def isRepository (t : FileTree) (directory : Path) : Bool :=
  t.isDirectory (directory ++ [".git"]) || t.isFile (directory ++ [".git"])

/-- The directories whose repository rules count for `p`: those up to its repository, if it is in
one. -/
def inRepository (t : FileTree) (p : Path) : List Path :=
  let (inside, outside) := (above p).span (!isRepository t ·)
  match outside with
  | [] => []
  | repository :: _ => inside ++ [repository]

/-- What all ignore files say of `p`. The rules for walks go before those of the repository, and
those before what the repository keeps out of itself. -/
def verdict? (t : FileTree) (p : Path) (isDirectory : Bool) : Option Verdict :=
  let nearest (file : Path) (directories : List Path) : Option Verdict :=
    directories.findSome? (verdictIn? t file p isDirectory)
  (nearest [".ignore"] (above p)).or <|
    (nearest [".gitignore"] (inRepository t p)).or <|
      nearest [".git", "info", "exclude"] (inRepository t p)

def isHidden (p : Path) : Bool := (p.getLast?.bind (·.toList.head?)) == some '.'

/-- Whether a walk takes `p`, given that it takes the directory above. -/
def isTaken (t : FileTree) (p : Path) (isDirectory : Bool) : Bool :=
  match verdict? t p isDirectory with
  | some .excluded => false
  | some .whitelisted => true
  | none => !isHidden p

/-- Whether a walk from `root` reaches the file `p` below it. -/
def isReached (t : FileTree) (root p : Path) : Bool :=
  root.isPrefixOf p && root.length < p.length &&
    ((leading p).all fun q => q.length ≤ root.length || isTaken t q (q.length < p.length))

/-- The files that a walk from `root` reaches, in the order of the tree. -/
def walk (t : FileTree) (root : Path) : List Path :=
  match t.resolve? root with
  | none => []
  | some start => (t.files.map (·.1)).filter (isReached t start)

end PhpSymbols.Ignore

namespace PhpSymbols

/-- What walks directories: the files that it comes to below `root`, in order. -/
class Walker where
  walk (t : FileTree) (root : Path) : List Path

/-- Unless something else is said, walks heed ignore files. -/
instance Ignore.walker : Walker := ⟨Ignore.walk⟩

end PhpSymbols
