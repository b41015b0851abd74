import PhpSymbols.Docblock.Basic

/-!
Members that a class-level comment declares with `@property` and `@method` tags. Types stay text
here; a tag without a usable name declares nothing.
-/

namespace PhpSymbols
open Text Ty.Expression

structure PropertyTag where
  name : String
  ty : Option String := none
  access : Access := .readWrite
  deriving DecidableEq, Repr, Inhabited

structure MethodTagParameter where
  name : String
  ty : Option String := none
  /-- The default value as written. -/
  initial : Option String := none
  isVariadic : Bool := false
  isReference : Bool := false
  deriving DecidableEq, Repr, Inhabited

structure MethodTag where
  name : String
  isStatic : Bool := false
  returnType : Option String := none
  parameters : List MethodTagParameter := []
  deriving DecidableEq, Repr, Inhabited

namespace PropertyTag

/-- The access that the name of a tag grants, for the names that declare properties. -/
def accessOfName? (name : String) : Option Access :=
  if name = "property" ∨ name = "phpstan-property" ∨ name = "psalm-property" then some .readWrite
  else if name = "property-read" ∨ name = "phpstan-property-read" ∨
      name = "psalm-property-read" then some .readOnly
  else if name = "property-write" ∨ name = "phpstan-property-write" ∨
      name = "psalm-property-write" then some .writeOnly
  else none

/-- The type, if the body does not start with the name, and the text after it. -/
def splitType (body : List Char) : Option String × List Char :=
  match body with
  | '$' :: _ => (none, body)
  | _ =>
    let (type, rest) := takeToken body
    (some (String.ofList (clean type)), rest)

/-- Reads `Type $name` or `$name`. -/
def ofTag? (tag : Tag) : Option PropertyTag := do
  let access ← accessOfName? tag.name
  let (type, rest) := splitType (trim tag.body.toList)
  let word ← (words rest).find? (·.head? == some '$')
  match word.dropWhile (· == '$') with
  | [] => none
  | name => some ⟨String.ofList name, type, access⟩

end PropertyTag

namespace MethodTagParameter

/-- A dollar sign inside the declaration leads the name; what stands before it is the type. -/
def ofDeclaration? (declaration : List Char) (initial : Option String) :
    Option MethodTagParameter := do
  let (before, after) ← splitOnceLast '$' declaration
  match trim after with
  | [] => none
  | name =>
    let before := trim before
    let byValue := trimEnd (trimEndMatches "...".toList before)
    let type := trimEnd (trimEndWhile (· == '&') byValue)
    some {
      name := String.ofList name
      ty := if type.isEmpty then none else some (String.ofList (clean type))
      initial := initial
      isVariadic := "...".toList.isSuffixOf before
      isReference := byValue.getLast? == some '&' }

/-- Reads one parameter: a declaration, and a default after the first equals sign. -/
def ofText? (part : List Char) : Option MethodTagParameter :=
  match splitOnce '=' part with
  | some (declaration, initial) =>
    ofDeclaration? (trim declaration) (some (String.ofList (trim initial)))
  | none => ofDeclaration? part none

/-- Reads the parameters of a signature. Parts without a name are left out. -/
def listOfText (text : List Char) : List MethodTagParameter :=
  (splitCommas text).filterMap ofText?

end MethodTagParameter

namespace MethodTag

/-- `static` counts as the keyword only when white space follows it. -/
def splitStatic (body : List Char) : Bool × List Char :=
  match behind? "static".toList body with
  | some (c :: rest) => if isBlank c then (true, trimStart (c :: rest)) else (false, body)
  | _ => (false, body)

/-- The return type, if there is one, and the last word, which is the name. -/
def splitName (head : List Char) : Option (List Char) × List Char :=
  match breakOn isBlank head.reverse with
  | (name, []) => (none, name.reverse)
  | (name, rest) => (some (clean rest.reverse), name.reverse)

/-- Letters, digits and underscores. -/
def isName (name : List Char) : Bool :=
  !name.isEmpty && name.all fun c => c == '_' || isAlphanumeric c

/-- The text up to the last closing parenthesis, or all of it. -/
def parameterText (afterParen : List Char) : List Char :=
  match splitOnceLast ')' afterParen with
  | some (inside, _) => trim inside
  | none => trim afterParen

/-- Reads `[static] [Type] name(parameters)`. -/
def ofBody? (body : List Char) : Option MethodTag := do
  let (isStatic, rest) := splitStatic (trim body)
  let (head, afterParen) ← splitOnce '(' rest
  let (type, name) := splitName (trim head)
  if isName name then
    some {
      name := String.ofList name
      isStatic := isStatic
      returnType := (type.filter (!·.isEmpty)).map String.ofList
      parameters := MethodTagParameter.listOfText (parameterText afterParen) }
  else none

end MethodTag

namespace Docblock

def propertyTags (d : Docblock) : List PropertyTag := d.tags.filterMap PropertyTag.ofTag?

def methodTags (d : Docblock) : List MethodTag :=
  (d.tagsNamed "method").filterMap fun tag => MethodTag.ofBody? tag.body.toList

end Docblock
end PhpSymbols
