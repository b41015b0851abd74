import PhpSymbols.Proofs.Markdown.Writes
import PhpSymbols.Proofs.Text.LineEnd

/-!
# The texts of the bundled templates

What each template makes of its item, as a function of the item: `classText`, `functionText`,
`methodText`, `propertyText`, `constantText`, `typeText`, `resolutionText` and `hoverText`. They
are put together from the texts of the parts that the templates share, and each comes with the
lemma that its template writes it.
-/

namespace PhpSymbols.Markdown
open Template Signature

variable {data : Value} {name title s t : String} {ns : List Node}

/-! ### Parts -/

def headingText (signature docs : String) (isDeprecated : Bool) : String :=
  "```php\n" ++ signature ++ "\n```" ++ only (!docs.isEmpty) ("\n\n" ++ docs) ++
    only isDeprecated "\n\n**Deprecated**"

def sectionText (title : String) (entries : List String) : String :=
  only (!entries.isEmpty) ("\n\n#### " ++ title ++ String.join entries)

/-- The label and the space behind it, if there is a label. -/
def labelText (s : Supertype) : String := ((supertypeLabel s).map (· ++ " ")).getD ""

def supertypeText (relation : String) (s : Supertype) : String :=
  "\n- " ++ relation ++ " " ++ labelText s ++ "`" ++ s.name ++ "`"

def memberText (m : Listed) : String :=
  "\n- `" ++ m.signature ++ "`" ++ only m.isVirtual " *(virtual)*"

def ownerText (owner : String) (isVirtual : Bool) : String :=
  "\n\nDeclared in `" ++ owner ++ "`" ++ only isVirtual " (virtual)"

theorem writes_heading {signature docs : String} {isDeprecated : Bool}
    (hasSignature : Holds data "signature" (.text signature))
    (hasDocs : Holds data "docs" (.text docs))
    (hasMark : Holds data "is_deprecated" (.bool isDeprecated)) :
    Writes data heading (headingText signature docs isDeprecated) := by
  have parts : Writes data heading _ :=
    .text <| .field rfl hasSignature <| .text <|
      .when_ hasDocs (.text <| .field rfl hasDocs .nil) .nil <|
      .when_ hasMark (.text .nil) .nil .nil
  simpa only [headingText, only, Value.print, Value.isTruthy, String.append_assoc,
    String.append_empty] using parts

theorem writes_section {α : Type} {view : α → Value} {text : α → String} {entry : List Node}
    {xs : List α} (holds : Holds data name (.list (xs.map view)))
    (writes : ∀ x ∈ xs, Writes (view x) entry (text x)) (rest : Writes data ns t) :
    Writes data (section_ name title entry :: ns) (sectionText title (xs.map text) ++ t) := by
  have parts : Writes data (section_ name title entry :: ns) _ :=
    .when_ holds (.text <| .forEach holds writes .nil) .nil rest
  simpa only [sectionText, only, Value.isTruthy, List.isEmpty_map, String.append_assoc,
    String.append_empty] using parts

theorem isEmpty_word (kind : ClassKind) : kind.word.isEmpty = false := by cases kind <;> rfl

/-- A supertype of which anything is known has a label that shows. -/
theorem isEmpty_supertypeLabel {s : Supertype} {label : String}
    (known : supertypeLabel s = some label) : label.isEmpty = false := by
  obtain ⟨kind, -, rfl⟩ := Option.map_eq_some_iff.1 known
  split
  · rfl
  · exact isEmpty_word kind

theorem labelText_eq (s : Supertype) :
    (if (optionalText (supertypeLabel s)).isTruthy then
      (optionalText (supertypeLabel s)).print ++ " " else "") = labelText s := by
  unfold labelText
  cases known : supertypeLabel s with
  | none => rfl
  | some label =>
    simp [optionalText, Value.ofOption, Value.isTruthy, Value.print, isEmpty_supertypeLabel known]

theorem writes_supertype (relation : String) (s : Supertype) :
    Writes (supertypeView relation s) supertypeEntry (supertypeText relation s) := by
  have hasLabel : Holds (supertypeView relation s) "label" (optionalText (supertypeLabel s)) :=
    holds_of_lookup rfl rfl
  have parts : Writes (supertypeView relation s) supertypeEntry _ :=
    .text <| .field rfl (holds_of_lookup rfl rfl) <| .text <|
      .when_ hasLabel (.field rfl hasLabel <| .text .nil) .nil <|
      .text <| .field rfl (holds_of_lookup rfl rfl) <| .text .nil
  simpa only [supertypeText, labelText_eq, Value.print, String.append_assoc,
    String.append_empty] using parts

theorem writes_member (m : Listed) : Writes m.view memberEntry (memberText m) := by
  have isVirtual : Holds m.view "is_virtual" (.bool m.isVirtual) := holds_of_lookup rfl rfl
  have parts : Writes m.view memberEntry _ :=
    .text <| .field rfl (holds_of_lookup rfl rfl) <| .text <|
      .when_ isVirtual (.text .nil) .nil .nil
  simpa only [memberText, only, Value.print, Value.isTruthy, String.append_assoc,
    String.append_empty] using parts

theorem writes_owner {owner : String} {isVirtual : Bool}
    (hasOwner : Holds data "class_name" (.text owner))
    (hasMark : Holds data "is_virtual" (.bool isVirtual)) :
    Writes data ownerLine (ownerText owner isVirtual ++ "\n") := by
  have parts : Writes data ownerLine _ :=
    .text <| .field rfl hasOwner <| .text <|
      .when_ hasMark (.text .nil) .nil <| .text .nil
  unfold ownerText
  simpa only [only, Value.print, Value.isTruthy, String.append_assoc,
    String.append_empty] using parts

/-! ### Symbols -/

/-- The supertypes of a class-like, each with how the class-like relates to it. -/
def relations (c : ClassLike) : List (String × Supertype) :=
  c.parents.map ("extends", ·) ++ c.interfaces.map ("implements", ·) ++ c.traits.map ("uses", ·)

/-- Enums are shown as interfaces are. -/
def showsProperties : ClassKind → Bool
  | .classDecl | .traitDecl => true
  | .interfaceDecl | .enumDecl => false

def classText (c : ClassLike) : String :=
  headingText c.signature (prose c.docs) c.docs.isDeprecated ++
    sectionText "Supertypes" ((relations c).map fun r => supertypeText r.1 r.2) ++
    sectionText "Constants" (c.constants.toList.map fun k => memberText (listedConstant k)) ++
    only (showsProperties c.kind)
      (sectionText "Properties" (c.properties.toList.map fun p => memberText (listedProperty p))) ++
    sectionText "Methods" (c.methods.toList.map fun m => memberText (listedMethod m)) ++ "\n"

def functionText (f : Function) : String :=
  headingText f.signature (prose f.docs) f.docs.isDeprecated ++
    only (!(f.ns.getD "").isEmpty) ("\n\nNamespace: `" ++ f.ns.getD "" ++ "`") ++ "\n"

def methodText (m : Method) : String :=
  headingText m.signature (prose m.docs) m.docs.isDeprecated ++ ownerText m.owner m.isVirtual ++
    "\n"

def propertyText (p : Property) : String :=
  headingText p.signature (prose p.docs) p.docs.isDeprecated ++ ownerText p.owner p.isVirtual ++
    "\n"

/-- The text of a type that is known, and else nothing. -/
def knownText (t : Ty) : String := only (!t.isUnknown) t.text

def constantText (k : Constant) : String :=
  headingText k.signature (prose k.docs) k.docs.isDeprecated ++
    only (!(knownText k.ty).isEmpty) ("\n\nType: `" ++ knownText k.ty ++ "`") ++
    ownerText k.owner k.isVirtual ++ "\n"

def symbolText : Symbol → String
  | .classLike c => classText c
  | .function f => functionText f
  | .method m => methodText m
  | .property p => propertyText p
  | .constant k => constantText k

theorem supertypeViews_eq (c : ClassLike) :
    supertypeViews c = (relations c).map fun r => supertypeView r.1 r.2 := by
  simp [supertypeViews, relations, Function.comp_def]

theorem isTruthy_optionalText (o : Option String) :
    (optionalText o).isTruthy = !(o.getD "").isEmpty := by cases o <;> rfl

theorem print_optionalText (o : Option String) : (optionalText o).print = o.getD "" := by
  cases o <;> rfl

theorem known_eq (t : Ty) : (known t).isTruthy = !(knownText t).isEmpty ∧
    (known t).print = knownText t := by
  unfold known knownText
  cases t.isUnknown <;> exact ⟨rfl, rfl⟩

theorem writes_class (c : ClassLike) :
    Writes (classView c)
      (if showsProperties c.kind then classTemplate else interfaceTemplate).nodes
      (classText c) := by
  have hasSupertypes : Holds (classView c) "supertypes"
      (.list ((relations c).map fun r => supertypeView r.1 r.2)) :=
    holds_of_lookup rfl (by rw [← supertypeViews_eq]; rfl)
  have hasConstants : Holds (classView c) "constants"
      (.list (c.constants.toList.map fun k => (listedConstant k).view)) := holds_of_lookup rfl rfl
  have hasProperties : Holds (classView c) "properties"
      (.list (c.properties.toList.map fun p => (listedProperty p).view)) := holds_of_lookup rfl rfl
  have hasMethods : Holds (classView c) "methods"
      (.list (c.methods.toList.map fun m => (listedMethod m).view)) := holds_of_lookup rfl rfl
  have front : Writes (classView c) heading
      (headingText c.signature (prose c.docs) c.docs.isDeprecated) :=
    writes_heading (holds_of_lookup rfl rfl) (holds_of_lookup rfl rfl) (holds_of_lookup rfl rfl)
  have methods : Writes (classView c) [methodSection, .text "\n"] _ :=
    writes_section hasMethods (fun m _ => writes_member (listedMethod m)) <| .text .nil
  have properties : Writes (classView c) [propertySection, methodSection, .text "\n"] _ :=
    writes_section hasProperties (fun p _ => writes_member (listedProperty p)) methods
  cases shows : showsProperties c.kind with
  | true =>
    have parts : Writes (classView c) classTemplate.nodes _ := front.append <|
      writes_section hasSupertypes (fun r _ => writes_supertype r.1 r.2) <|
      writes_section hasConstants (fun k _ => writes_member (listedConstant k)) properties
    simpa only [classText, shows, only, if_true, String.append_assoc, String.append_empty]
      using parts
  | false =>
    have parts : Writes (classView c) interfaceTemplate.nodes _ := front.append <|
      writes_section hasSupertypes (fun r _ => writes_supertype r.1 r.2) <|
      writes_section hasConstants (fun k _ => writes_member (listedConstant k)) methods
    simpa only [classText, shows, only, Bool.false_eq_true, if_false, String.append_assoc,
      String.empty_append, String.append_empty] using parts

theorem writes_function (f : Function) :
    Writes (functionView f) functionTemplate.nodes (functionText f) := by
  have hasNamespace : Holds (functionView f) "namespace" (optionalText f.ns) :=
    holds_of_lookup rfl rfl
  have parts : Writes (functionView f) functionTemplate.nodes _ :=
    (writes_heading (holds_of_lookup rfl rfl) (holds_of_lookup rfl rfl)
      (holds_of_lookup rfl rfl)).append <|
    .when_ hasNamespace (.text <| .field rfl hasNamespace <| .text .nil) .nil <| .text .nil
  simpa only [functionText, only, isTruthy_optionalText, print_optionalText, String.append_assoc,
    String.append_empty] using parts

theorem writes_method (m : Method) :
    Writes (methodView m) memberTemplate.nodes (methodText m) := by
  have parts : Writes (methodView m) memberTemplate.nodes _ :=
    (writes_heading (holds_of_lookup rfl rfl) (holds_of_lookup rfl rfl)
      (holds_of_lookup rfl rfl)).append <|
    writes_owner (holds_of_lookup rfl rfl) (holds_of_lookup rfl rfl)
  simpa only [methodText, String.append_assoc] using parts

theorem writes_property (p : Property) :
    Writes (propertyView p) memberTemplate.nodes (propertyText p) := by
  have parts : Writes (propertyView p) memberTemplate.nodes _ :=
    (writes_heading (holds_of_lookup rfl rfl) (holds_of_lookup rfl rfl)
      (holds_of_lookup rfl rfl)).append <|
    writes_owner (holds_of_lookup rfl rfl) (holds_of_lookup rfl rfl)
  simpa only [propertyText, String.append_assoc] using parts

theorem writes_constant (k : Constant) :
    Writes (constantView k) constantTemplate.nodes (constantText k) := by
  have hasType : Holds (constantView k) "type" (known k.ty) := holds_of_lookup rfl rfl
  have front : Writes (constantView k) heading
      (headingText k.signature (prose k.docs) k.docs.isDeprecated) :=
    writes_heading (holds_of_lookup rfl rfl) (holds_of_lookup rfl rfl) (holds_of_lookup rfl rfl)
  have type_ : Writes (constantView k)
      [when_ "type" [.text "\n\nType: `", field "type", .text "`"]] _ :=
    .when_ hasType (.text <| .field rfl hasType <| .text .nil) .nil .nil
  have parts : Writes (constantView k) constantTemplate.nodes _ :=
    (front.append type_).append <|
    writes_owner (holds_of_lookup rfl rfl) (holds_of_lookup rfl rfl)
  simpa only [constantText, only, (known_eq k.ty).1, (known_eq k.ty).2, String.append_assoc,
    String.append_empty] using parts

/-! ### Other items -/

def typeText (t : Ty) : String := "Type: `" ++ t.text ++ "`\n"

/-- The declaration around an offset, if there is one. -/
def scopeText : Option Symbol → String
  | none => "top level"
  | some s => s.kindLabel ++ " `" ++ placeName s ++ "`"

def localText (binding : String × Ty) : String :=
  "\n- `$" ++ binding.1 ++ "`: `" ++ binding.2.text ++ "`"

def resolutionText (x : Resolution) : String :=
  "Scope: " ++ scopeText x.enclosing ++ sectionText "Variables" (x.locals.toList.map localText) ++
    "\n"

/-- The title and the prose, each set off from what follows. -/
def hoverFront (h : Hover) : String :=
  only (!h.title.isEmpty) ("**" ++ h.title ++ "**\n\n") ++
    only (!(trimmed (Markup.strip h.docs)).isEmpty)
      (trimmed (Markup.strip h.docs) ++ "\n\n---\n\n")

def hoverText (h : Hover) : String := hoverFront h ++ symbolText h.symbol

theorem writes_type (t : Ty) : Writes (typeView t) typeTemplate.nodes (typeText t) := by
  have parts : Writes (typeView t) typeTemplate.nodes _ :=
    .text <| .field rfl (holds_of_lookup rfl rfl) <| .text .nil
  simpa only [typeText, Value.print, String.append_assoc, String.append_empty] using parts

theorem writes_local (binding : String × Ty) :
    Writes (localView binding)
      [.text "\n- `$", field "name", .text "`: `", field "type", .text "`"]
      (localText binding) := by
  have parts : Writes (localView binding)
      [.text "\n- `$", field "name", .text "`: `", field "type", .text "`"] _ :=
    .text <| .field rfl (holds_of_lookup rfl rfl) <| .text <|
      .field rfl (holds_of_lookup rfl rfl) <| .text .nil
  simpa only [localText, Value.print, String.append_assoc, String.append_empty] using parts

theorem scopeText_eq (enclosing : Option Symbol) :
    (if (optionalText (enclosing.map (·.kindLabel))).isTruthy then
      (optionalText (enclosing.map (·.kindLabel))).print ++
        (" `" ++ ((optionalText (enclosing.map placeName)).print ++ "`"))
      else "top level") = scopeText enclosing := by
  cases enclosing with
  | none => rfl
  | some s =>
    have shown : s.kindLabel.isEmpty = false := by
      cases s with
      | classLike c => exact isEmpty_word c.kind
      | function | method | property | constant => rfl
    simp [scopeText, optionalText, Value.ofOption, Value.isTruthy, Value.print, shown,
      String.append_assoc]

theorem writes_resolution (x : Resolution) :
    Writes (resolutionView x) resolutionTemplate.nodes (resolutionText x) := by
  have hasKind : Holds (resolutionView x) "enclosing_kind"
      (optionalText (x.enclosing.map (·.kindLabel))) := holds_of_lookup rfl rfl
  have hasLocals : Holds (resolutionView x) "locals" (.list (x.locals.toList.map localView)) :=
    holds_of_lookup rfl rfl
  have parts : Writes (resolutionView x) resolutionTemplate.nodes _ :=
    .text <| .when_ hasKind
      (.field rfl hasKind <| .text <| .field rfl (holds_of_lookup rfl rfl) <| .text .nil)
      (.text .nil) <|
    writes_section hasLocals (fun b _ => writes_local b) <| .text .nil
  simpa only [resolutionText, ← scopeText_eq, String.append_assoc, String.append_empty]
    using parts

/-- The text of the symbol loses its line end and gets it back. -/
theorem writes_hover (h : Hover) (ends : Text.EndsLine (symbolText h.symbol)) :
    Writes (hoverView h (symbolText h.symbol)) hoverTemplate.nodes (hoverText h) := by
  have hasTitle : Holds (hoverView h (symbolText h.symbol)) "title" (.text h.title) :=
    holds_of_lookup rfl rfl
  have hasDocs : Holds (hoverView h (symbolText h.symbol)) "docs"
      (.text (trimmed (Markup.strip h.docs))) := holds_of_lookup rfl rfl
  have parts : Writes (hoverView h (symbolText h.symbol)) hoverTemplate.nodes _ :=
    .when_ hasTitle (.text <| .field rfl hasTitle <| .text .nil) .nil <|
    .when_ hasDocs (.field rfl hasDocs <| .text .nil) .nil <|
    .field rfl (holds_of_lookup rfl rfl) <| .text .nil
  simpa only [hoverText, hoverFront, only, Value.isTruthy, Value.print, String.append_assoc,
    String.append_empty, ends.trimEnd] using parts

end PhpSymbols.Markdown
