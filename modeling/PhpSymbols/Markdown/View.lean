import PhpSymbols.Docblock.Markup
import PhpSymbols.Markdown.Variant
import PhpSymbols.Symbol.Signature
import PhpSymbols.Template.Value

/-!
Views: the data that templates see of an item. A type that is not known is null in a view, so a
template can leave it out; members come with their signatures.
-/

namespace PhpSymbols.Markdown
open Template

def optionalText : Option String → Value := Value.ofOption .text

/-- The text of a type that is known. -/
def known (t : Ty) : Value := if t.isUnknown then .null else .text t.text

def trimmed (s : String) : String := String.ofList (Text.trim s.toList)

/-- Summary and description, with a blank line between them if there are both. -/
def prose (d : Docs) : String :=
  String.intercalate "\n\n" (([d.summary, d.description].map trimmed).filter (!·.isEmpty))

/-! ### Parts -/

/-- What a supertype is, if that is known. -/
def supertypeLabel (s : Supertype) : Option String :=
  s.kind.map fun kind =>
    if kind = .classDecl ∧ s.isAbstract then "abstract class" else kind.word

def supertypeView (relation : String) (s : Supertype) : Value :=
  .record [
    ("relation", .text relation),
    ("label", optionalText (supertypeLabel s)),
    ("name", .text s.name)]

def parameterView (p : Parameter) : Value :=
  .record [
    ("name", .text p.name),
    ("type", known p.ty),
    ("default", optionalText p.initial),
    ("is_variadic", .bool p.isVariadic),
    ("is_reference", .bool p.isReference)]

/-- A member in the list of its class-like. -/
structure Listed where
  name : String
  signature : String
  visibility : Visibility
  isStatic : Bool := false
  isAbstract : Bool := false
  isFinal : Bool := false
  isVirtual : Bool := false

def Listed.view (m : Listed) : Value :=
  .record [
    ("name", .text m.name),
    ("signature", .text m.signature),
    ("visibility", .text m.visibility.word),
    ("is_static", .bool m.isStatic),
    ("is_abstract", .bool m.isAbstract),
    ("is_final", .bool m.isFinal),
    ("is_virtual", .bool m.isVirtual)]

/-- A constant belongs to its class-like and not to its objects. -/
def listedConstant (c : Constant) : Listed where
  name := c.name
  signature := c.signature
  visibility := c.visibility
  isStatic := true
  isVirtual := c.isVirtual

def listedProperty (p : Property) : Listed where
  name := p.name
  signature := p.signature
  visibility := p.visibility
  isStatic := p.isStatic
  isVirtual := p.isVirtual

def listedMethod (m : Method) : Listed where
  name := m.name
  signature := m.signature
  visibility := m.visibility
  isStatic := m.isStatic
  isAbstract := m.isAbstract
  isFinal := m.isFinal
  isVirtual := m.isVirtual

/-! ### Symbols -/

def supertypeViews (c : ClassLike) : List Value :=
  c.parents.map (supertypeView "extends") ++ c.interfaces.map (supertypeView "implements") ++
    c.traits.map (supertypeView "uses")

def classView (c : ClassLike) : Value :=
  .record [
    ("name", .text c.name),
    ("fqn", .text c.fqn),
    ("namespace", optionalText c.ns),
    ("kind", .text c.kind.word),
    ("signature", .text c.signature),
    ("docs", .text (prose c.docs)),
    ("is_deprecated", .bool c.docs.isDeprecated),
    ("is_abstract", .bool c.isAbstract),
    ("is_final", .bool c.isFinal),
    ("supertypes", .list (supertypeViews c)),
    ("constants", .list (c.constants.toList.map fun k => (listedConstant k).view)),
    ("properties", .list (c.properties.toList.map fun p => (listedProperty p).view)),
    ("methods", .list (c.methods.toList.map fun m => (listedMethod m).view))]

def methodView (m : Method) : Value :=
  .record [
    ("name", .text m.name),
    ("class_name", .text m.owner),
    ("signature", .text m.signature),
    ("visibility", .text m.visibility.word),
    ("is_static", .bool m.isStatic),
    ("is_abstract", .bool m.isAbstract),
    ("is_final", .bool m.isFinal),
    ("is_virtual", .bool m.isVirtual),
    ("parameters", .list (m.parameters.map parameterView)),
    ("return_type", known m.returnType),
    ("docs", .text (prose m.docs)),
    ("is_deprecated", .bool m.docs.isDeprecated)]

def propertyView (p : Property) : Value :=
  .record [
    ("name", .text p.name),
    ("class_name", .text p.owner),
    ("signature", .text p.signature),
    ("visibility", .text p.visibility.word),
    ("is_static", .bool p.isStatic),
    ("is_readonly", .bool p.isReadonly),
    ("access", .text p.access.word),
    ("is_virtual", .bool p.isVirtual),
    ("type", known p.ty),
    ("default", optionalText p.initial),
    ("docs", .text (prose p.docs)),
    ("is_deprecated", .bool p.docs.isDeprecated)]

def constantView (c : Constant) : Value :=
  .record [
    ("name", .text c.name),
    ("class_name", .text c.owner),
    ("signature", .text c.signature),
    ("visibility", .text c.visibility.word),
    ("is_virtual", .bool c.isVirtual),
    ("type", known c.ty),
    ("value", .text c.value),
    ("docs", .text (prose c.docs)),
    ("is_deprecated", .bool c.docs.isDeprecated)]

def functionView (f : Function) : Value :=
  .record [
    ("name", .text f.name),
    ("fqn", .text f.fqn),
    ("namespace", optionalText f.ns),
    ("signature", .text f.signature),
    ("parameters", .list (f.parameters.map parameterView)),
    ("return_type", known f.returnType),
    ("docs", .text (prose f.docs)),
    ("is_deprecated", .bool f.docs.isDeprecated)]

def symbolView : Symbol → Value
  | .classLike c => classView c
  | .function f => functionView f
  | .method m => methodView m
  | .property p => propertyView p
  | .constant c => constantView c

/-! ### Other items -/

def typeView (t : Ty) : Value := .record [("name", .text t.text), ("kind", .text t.kind)]

/-- The name by which a declaration around an offset is shown. -/
def placeName : Symbol → String
  | .classLike c => c.fqn
  | .function f => f.fqn
  | .method m => m.owner ++ "::" ++ m.name
  | .property p => p.owner ++ "::$" ++ p.name
  | .constant c => c.owner ++ "::" ++ c.name

def localView (binding : String × Ty) : Value :=
  .record [("name", .text binding.1), ("type", .text binding.2.text)]

def resolutionView (r : Resolution) : Value :=
  .record [
    ("enclosing_kind", optionalText (r.enclosing.map (·.kindLabel))),
    ("enclosing_name", optionalText (r.enclosing.map placeName)),
    ("locals", .list (r.locals.toList.map localView))]

/-- Prose from elsewhere may hold markup, which is taken out. The symbol comes as its markdown,
without the white space at its end. -/
def hoverView (h : Hover) (shownSymbol : String) : Value :=
  .record [
    ("title", .text h.title),
    ("docs", .text (trimmed (Markup.strip h.docs))),
    ("symbol", .text (String.ofList (Text.trimEnd shownSymbol.toList)))]

end PhpSymbols.Markdown
