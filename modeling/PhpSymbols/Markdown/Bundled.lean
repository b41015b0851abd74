import PhpSymbols.Markdown.Variant
import PhpSymbols.Template.Basic

/-!
The templates that come with the program, as trees. There is none for enums, which are shown by
the template for interfaces.
-/

namespace PhpSymbols.Markdown
open Template

/-! ### Parts -/

def fieldOf (name : String) : Reference := { segments := [name] }

def field (name : String) : Node := .value (fieldOf name)

/-- `body` where the field counts as true, and else `otherwise`. -/
def when_ (name : String) (body : List Node) (otherwise : List Node := []) : Node :=
  .block ⟨"if", [fieldOf name]⟩ body otherwise

def forEach (name : String) (body : List Node) : Node := .block ⟨"each", [fieldOf name]⟩ body []

/-- The signature in a fence, the prose and the mark of what is deprecated. -/
def heading : List Node := [
  .text "```php\n", field "signature", .text "\n```",
  when_ "docs" [.text "\n\n", field "docs"],
  when_ "is_deprecated" [.text "\n\n**Deprecated**"]]

/-- A section with a title and one entry for each item, if there are items. -/
def section_ (name title : String) (entry : List Node) : Node :=
  when_ name [.text ("\n\n#### " ++ title), forEach name entry]

def supertypeEntry : List Node := [
  .text "\n- ", field "relation", .text " ",
  when_ "label" [field "label", .text " "],
  .text "`", field "name", .text "`"]

def memberEntry : List Node := [
  .text "\n- `", field "signature", .text "`",
  when_ "is_virtual" [.text " *(virtual)*"]]

def supertypeSection : Node := section_ "supertypes" "Supertypes" supertypeEntry

def constantSection : Node := section_ "constants" "Constants" memberEntry

def propertySection : Node := section_ "properties" "Properties" memberEntry

def methodSection : Node := section_ "methods" "Methods" memberEntry

/-- Where a member is declared. -/
def ownerLine : List Node := [
  .text "\n\nDeclared in `", field "class_name", .text "`",
  when_ "is_virtual" [.text " (virtual)"],
  .text "\n"]

/-! ### Templates -/

def classTemplate : Template :=
  ⟨heading ++ [supertypeSection, constantSection, propertySection, methodSection, .text "\n"]⟩

/-- Interfaces have no properties of their own. -/
def interfaceTemplate : Template :=
  ⟨heading ++ [supertypeSection, constantSection, methodSection, .text "\n"]⟩

def memberTemplate : Template := ⟨heading ++ ownerLine⟩

def constantTemplate : Template :=
  ⟨heading ++ [when_ "type" [.text "\n\nType: `", field "type", .text "`"]] ++ ownerLine⟩

def functionTemplate : Template :=
  ⟨heading ++ [
    when_ "namespace" [.text "\n\nNamespace: `", field "namespace", .text "`"], .text "\n"]⟩

def resolutionTemplate : Template := ⟨[
  .text "Scope: ",
  when_ "enclosing_kind"
    [field "enclosing_kind", .text " `", field "enclosing_name", .text "`"] [.text "top level"],
  section_ "locals" "Variables"
    [.text "\n- `$", field "name", .text "`: `", field "type", .text "`"],
  .text "\n"]⟩

def typeTemplate : Template := ⟨[.text "Type: `", field "name", .text "`\n"]⟩

def hoverTemplate : Template := ⟨[
  when_ "title" [.text "**", field "title", .text "**\n\n"],
  when_ "docs" [field "docs", .text "\n\n---\n\n"],
  field "symbol", .text "\n"]⟩

def bundled : List (Variant × Template) := [
  (.class_, classTemplate),
  (.interface_, interfaceTemplate),
  (.trait_, classTemplate),
  (.method, memberTemplate),
  (.property, memberTemplate),
  (.constant, constantTemplate),
  (.function, functionTemplate),
  (.resolution, resolutionTemplate),
  (.type_, typeTemplate),
  (.hover, hoverTemplate)]

end PhpSymbols.Markdown
