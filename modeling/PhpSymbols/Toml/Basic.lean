/-!
TOML values and the tables that the lines of a document build. A table is opened once, by a header
or by dotted keys; only a table that a longer header merely implied may still get a header of its
own.
-/

namespace PhpSymbols

namespace Toml

/-- How a table came to be. -/
inductive Origin where
  /-- A header of the table itself. -/
  | header
  /-- The header of a table inside it. -/
  | implied
  /-- A dotted key. -/
  | dotted
  /-- Braces in a value. Such a table is complete. -/
  | inline
  deriving DecidableEq, Repr, Inhabited

end Toml

inductive Toml where
  | string (s : String)
  | boolean (b : Bool)
  /-- A number as written. -/
  | number (written : String)
  /-- A date, a time or both, as written. -/
  | moment (written : String)
  | array (items : List Toml)
  /-- Tables under one repeated header. -/
  | tables (items : List Toml)
  | table (origin : Toml.Origin) (entries : List (String × Toml))
  deriving Repr, Inhabited

namespace Toml

abbrev Entries := List (String × Toml)

/-- One line of a document that says something. -/
inductive Line where
  | header (path : List String)
  /-- The header of one more table of a list. -/
  | itemHeader (path : List String)
  | entry (key : List String) (value : Toml)
  deriving Repr, Inhabited

/-- Replaces the value of `key`. -/
def replace (key : String) (value : Toml) (es : Entries) : Entries :=
  es.map fun e => if e.1 = key then (key, value) else e

/-- Adds a value under a dotted key. The tables on the way must not have headers of their own. -/
def insert (value : Toml) : List String → Entries → Option Entries
  | [], _ => none
  | [k], es => if (es.lookup k).isSome then none else some (es ++ [(k, value)])
  | k :: ks, es =>
    match es.lookup k with
    | none => do return es ++ [(k, .table .dotted (← insert value ks []))]
    | some (.table origin inner) =>
      if origin = .dotted ∨ origin = .implied then do
        return replace k (.table origin (← insert value ks inner)) es
      else none
    | some _ => none

/-- Changes the entries of the table at a path of headers. Of a list of tables the last is meant. -/
def modifyAt (f : Entries → Option Entries) : List String → Entries → Option Entries
  | [], es => f es
  | k :: ks, es =>
    match es.lookup k with
    | none => do return es ++ [(k, .table .implied (← modifyAt f ks []))]
    | some (.table .inline _) => none
    | some (.table origin inner) => do return replace k (.table origin (← modifyAt f ks inner)) es
    | some (.tables items) =>
      match items.getLast? with
      | some (.table origin inner) => do
        return replace k (.tables (items.dropLast ++ [.table origin (← modifyAt f ks inner)])) es
      | _ => none
    | some _ => none

/-- Opens the table `key` for its header. -/
def openTable (key : String) (es : Entries) : Option Entries :=
  match es.lookup key with
  | none => some (es ++ [(key, .table .header [])])
  | some (.table .implied inner) => some (replace key (.table .header inner) es)
  | some _ => none

/-- Opens one more table of the list `key`. -/
def openItem (key : String) (es : Entries) : Option Entries :=
  match es.lookup key with
  | none => some (es ++ [(key, .tables [.table .header []])])
  | some (.tables items) => some (replace key (.tables (items ++ [.table .header []])) es)
  | some _ => none

/-- Takes the lines of a document, with the table at the path `current` open. -/
def build (current : List String) (es : Entries) : List Line → Option Entries
  | [] => some es
  | .entry key value :: lines => do build current (← modifyAt (insert value key) current es) lines
  | .header path :: lines =>
    match path.getLast? with
    | none => none
    | some key => do build path (← modifyAt (openTable key) path.dropLast es) lines
  | .itemHeader path :: lines =>
    match path.getLast? with
    | none => none
    | some key => do build path (← modifyAt (openItem key) path.dropLast es) lines

/-- The entries of a table. -/
def entries? : Toml → Option Entries
  | .table _ es => some es
  | _ => none

def string? : Toml → Option String
  | .string s => some s
  | _ => none

def boolean? : Toml → Option Bool
  | .boolean b => some b
  | _ => none

def items? : Toml → Option (List Toml)
  | .array items => some items
  | _ => none

end Toml
end PhpSymbols
