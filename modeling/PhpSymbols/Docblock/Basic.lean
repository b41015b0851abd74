import PhpSymbols.Symbol.Basic
import PhpSymbols.Ty.Expression

/-!
Doc comments. A comment is prose, up to its first tag, and then tags. Prose falls into paragraphs
at blank lines: the first is the summary, the others are the description. Reading never fails:
what does not look like a tag is prose, or continues the tag above it.
-/

namespace PhpSymbols
open Text

/-- One `@name body`; the lines of the body are joined by single spaces. -/
structure Tag where
  name : String
  body : String
  deriving DecidableEq, Repr, Inhabited

structure Docblock where
  summary : String := ""
  description : String := ""
  tags : List Tag := []
  deriving DecidableEq, Repr, Inhabited

namespace Docblock

/-- The text between the delimiters of a comment, where it has any. -/
def withoutDelimiters (raw : List Char) : List Char :=
  let s := trim raw
  let s := (behind? "/**".toList s).getD s
  (ahead? "*/".toList s).getD s

/-- A line without its leading stars and the white space around them and at its end. -/
def lineText (line : List Char) : List Char := trim ((trim line).dropWhile (· == '*'))

/-- The name and the first line of the body, if the line opens a tag. -/
def tagOfLine? : List Char → Option (List Char × List Char)
  | '@' :: rest => match breakOn isBlank rest with
      | ([], _) => none
      | (name, body) => some (name, trim body)
  | _ => none

theorem tagOfLine?_append {name rest : List Char} (nonempty : name ≠ [])
    (solid : ∀ c ∈ name, isBlank c = false) (apart : ∀ c ∈ rest.head?, isBlank c = true) :
    tagOfLine? ('@' :: (name ++ rest)) = some (name, trim rest) := by
  obtain ⟨c, name, rfl⟩ := List.exists_cons_of_ne_nil nonempty
  rw [tagOfLine?, breakOn_append solid apart]

/-- The lines of a body that hold text, joined by single spaces. -/
def joinBody (lines : List (List Char)) : String :=
  String.ofList ([' '].intercalate (lines.filter (!·.isEmpty)))

/-- Cuts lines into those before the first tag and the tags, each with the lines up to the next. -/
def gather : List (List Char) → List (List Char) × List Tag
  | [] => ([], [])
  | line :: lines =>
    let (lead, tags) := gather lines
    match tagOfLine? line with
    | some (name, first) => ([], ⟨String.ofList name, joinBody (first :: lead)⟩ :: tags)
    | none => (line :: lead, tags)

/-- Runs of lines that hold text. -/
def paragraphs (lines : List (List Char)) : List (List (List Char)) :=
  (lines.splitOnP List.isEmpty).filter (!·.isEmpty)

/-- Reads the raw text of a doc comment. -/
def parse (raw : String) : Docblock :=
  let (prose, tags) := gather ((lines (withoutDelimiters raw.toList)).map lineText)
  let texts := (paragraphs prose).map fun p => ['\n'].intercalate p
  { summary := String.ofList (texts.headD [])
    description := String.ofList ("\n\n".toList.intercalate texts.tail)
    tags := tags }

def tagsNamed (d : Docblock) (name : String) : List Tag := d.tags.filter (·.name == name)

def isDeprecated (d : Docblock) : Bool := !(d.tagsNamed "deprecated").isEmpty

def docs (d : Docblock) : Docs := ⟨d.summary, d.description, d.isDeprecated⟩

/-- The name that a parameter tag documents, from the text after its type: the first word
without `&` and `...`, if it then starts with a dollar sign. -/
def documentedParameter? (rest : List Char) : Option (List Char) :=
  match words rest with
  | [] => none
  | word :: _ =>
    match trimStartMatches "...".toList (word.dropWhile (· == '&')) with
    | '$' :: name => some name
    | _ => none

/-- The type that a `@param` tag gives to the parameter `name`. -/
def paramTypeOfTag? (name : List Char) (tag : Tag) : Option String :=
  let (type, rest) := Ty.Expression.takeToken tag.body.toList
  if type.head? = some '$' then none
  else if documentedParameter? rest = some name then
    some (String.ofList (Ty.Expression.clean type))
  else none

/-- The documented type of a parameter, asked for with or without its dollar sign. -/
def paramType? (d : Docblock) (name : String) : Option String :=
  (d.tagsNamed "param").findSome? (paramTypeOfTag? (stripFirst '$' name.toList))

/-- The type at the start of a tag. A type that depends on a parameter is not one. -/
def leadingType? (tag : Tag) : Option String :=
  let body := tag.body.toList
  let (type, _) := Ty.Expression.takeToken body
  if type.isEmpty ∨ type.head? = some '$' ∨ "($".toList.isPrefixOf body then none
  else some (String.ofList (Ty.Expression.clean type))

def varType? (d : Docblock) : Option String := (d.tagsNamed "var").findSome? leadingType?

def returnType? (d : Docblock) : Option String := (d.tagsNamed "return").findSome? leadingType?

end Docblock
end PhpSymbols
