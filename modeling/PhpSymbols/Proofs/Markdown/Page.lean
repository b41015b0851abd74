import PhpSymbols.Proofs.Markdown.Shown

/-!
# The page of a class-like

* `Markdown.page`: the blocks that a page is to have, with a blank line between any two of them:
  the signature, the prose, the mark of what is deprecated and a section for each sort of members,
  with one line for each of them;
* `classText_eq`: the bundled templates write just these;
* `symbol_classLike_page`: so classes and traits are shown with all their members, and interfaces
  and enums without properties.
-/

namespace PhpSymbols.Markdown
open Signature

/-! ### Pages -/

/-- The line of a member. It is marked if the member is virtual. -/
def memberLine (signature : String) (isVirtual : Bool) : String :=
  "- `" ++ signature ++ "`" ++ if isVirtual then " *(virtual)*" else ""

/-- The line of a supertype: how it is related, what it is, if that is known, and its name. -/
def supertypeLine (relation : String) (s : Supertype) : String :=
  "- " ++ relation ++ " " ++ labelText s ++ "`" ++ s.name ++ "`"

/-- A title with lines under it; without lines there is no title either. -/
def sectionBlocks (title : String) (lines : List String) : List String :=
  if lines = [] then [] else [String.intercalate "\n" (("#### " ++ title) :: lines)]

def frontBlocks (c : ClassLike) : List String :=
  ["```php\n" ++ c.signature ++ "\n```"] ++
    (if prose c.docs = "" then [] else [prose c.docs]) ++
    if c.docs.isDeprecated then ["**Deprecated**"] else []

def supertypeBlocks (c : ClassLike) : List String :=
  sectionBlocks "Supertypes" (c.parents.map (supertypeLine "extends") ++
    c.interfaces.map (supertypeLine "implements") ++ c.traits.map (supertypeLine "uses"))

def constantBlocks (c : ClassLike) : List String :=
  sectionBlocks "Constants" (c.constants.toList.map fun k => memberLine k.signature k.isVirtual)

def propertyBlocks (c : ClassLike) : List String :=
  sectionBlocks "Properties" (c.properties.toList.map fun p => memberLine p.signature p.isVirtual)

def methodBlocks (c : ClassLike) : List String :=
  sectionBlocks "Methods" (c.methods.toList.map fun m => memberLine m.signature m.isVirtual)

/-- The blocks with blank lines between them, and the end of the last line. -/
def pageOf (blocks : List String) : String := String.intercalate "\n\n" blocks ++ "\n"

def page (c : ClassLike) : String :=
  pageOf (frontBlocks c ++ supertypeBlocks c ++ constantBlocks c ++ propertyBlocks c ++
    methodBlocks c)

def pageWithoutProperties (c : ClassLike) : String :=
  pageOf (frontBlocks c ++ supertypeBlocks c ++ constantBlocks c ++ methodBlocks c)

/-! ### What templates write -/

/-- The texts, each behind a separator. -/
def behindEach (separator : String) (texts : List String) : String :=
  String.join (texts.map (separator ++ ·))

theorem behindEach_append (separator : String) (texts more : List String) :
    behindEach separator (texts ++ more) =
      behindEach separator texts ++ behindEach separator more := by
  rw [behindEach, List.map_append, String.join_append]
  rfl

theorem intercalate_cons (separator text : String) (texts : List String) :
    String.intercalate separator (text :: texts) = text ++ behindEach separator texts := by
  induction texts generalizing text with
  | nil => simp [behindEach]
  | cons next texts ih =>
    rw [String.intercalate_cons_cons, ih, behindEach, behindEach, List.map_cons, String.join_cons,
      String.append_assoc, String.append_assoc]

theorem behindEach_singleton (separator text : String) :
    behindEach separator [text] = separator ++ text := by
  simp [behindEach]

theorem behindEach_sectionBlocks (title : String) (lines : List String) :
    behindEach "\n\n" (sectionBlocks title lines) = sectionText title (lines.map ("\n" ++ ·)) := by
  cases lines with
  | nil => rfl
  | cons line lines =>
    rw [sectionBlocks, if_neg (List.cons_ne_nil _ _), behindEach_singleton, intercalate_cons,
      sectionText, List.map_cons, List.isEmpty_cons, ← String.append_assoc, ← String.append_assoc]
    rfl

theorem intercalate_frontBlocks (c : ClassLike) (blocks : List String) :
    String.intercalate "\n\n" (frontBlocks c ++ blocks) =
      headingText c.signature (prose c.docs) c.docs.isDeprecated ++
        behindEach "\n\n" blocks := by
  have docs : behindEach "\n\n" (if prose c.docs = "" then [] else [prose c.docs]) =
      only (!(prose c.docs).isEmpty) ("\n\n" ++ prose c.docs) := by
    by_cases none : prose c.docs = ""
    · simp [none, only, behindEach]
    · simp [none, only, behindEach_singleton]
  have mark : behindEach "\n\n" (if c.docs.isDeprecated then ["**Deprecated**"] else []) =
      only c.docs.isDeprecated "\n\n**Deprecated**" := by
    cases c.docs.isDeprecated <;> rfl
  rw [frontBlocks, List.append_assoc, List.append_assoc, List.singleton_append, intercalate_cons,
    behindEach_append, behindEach_append, docs, mark, headingText]
  simp only [String.append_assoc]

theorem memberText_eq (m : Listed) : memberText m = "\n" ++ memberLine m.signature m.isVirtual := by
  simp only [memberText, memberLine, only, ← String.append_assoc]
  rfl

theorem supertypeText_eq (relation : String) (s : Supertype) :
    supertypeText relation s = "\n" ++ supertypeLine relation s := by
  simp only [supertypeText, supertypeLine, ← String.append_assoc]
  rfl

theorem behindEach_supertypeBlocks (c : ClassLike) : behindEach "\n\n" (supertypeBlocks c) =
    sectionText "Supertypes" ((relations c).map fun r => supertypeText r.1 r.2) := by
  rw [supertypeBlocks, behindEach_sectionBlocks]
  simp [relations, supertypeText_eq, Function.comp_def]

theorem behindEach_memberBlocks {α : Type} (title : String) (listed : α → Listed) (xs : List α) :
    behindEach "\n\n" (sectionBlocks title
      (xs.map fun x => memberLine (listed x).signature (listed x).isVirtual)) =
      sectionText title (xs.map fun x => memberText (listed x)) := by
  rw [behindEach_sectionBlocks]
  simp [memberText_eq, Function.comp_def]

/-- A class-like is written as its page, with properties if it is shown with them. -/
theorem classText_eq (c : ClassLike) :
    classText c = if showsProperties c.kind then page c else pageWithoutProperties c := by
  have constants := behindEach_memberBlocks "Constants" listedConstant c.constants.toList
  have properties := behindEach_memberBlocks "Properties" listedProperty c.properties.toList
  have methods := behindEach_memberBlocks "Methods" listedMethod c.methods.toList
  rw [classText, ← constants, ← properties, ← methods, ← behindEach_supertypeBlocks]
  cases showsProperties c.kind with
  | true =>
    simp only [page, pageOf, List.append_assoc, intercalate_frontBlocks, behindEach_append,
      String.append_assoc]
    rfl
  | false =>
    simp only [pageWithoutProperties, pageOf, List.append_assoc, intercalate_frontBlocks,
      behindEach_append, String.append_assoc, only, Bool.false_eq_true, if_false,
      String.empty_append]
    rfl

end PhpSymbols.Markdown

namespace PhpSymbols.Renderer
open Markdown Template

/-- For items of the variant the renderer has the template that comes with the program, if there
is one. -/
def HasBundled (r : Renderer) (v : Variant) : Prop := r.template? v = bundled.lookup v

theorem hasBundled_build [Engine] (usesCandidates : Bool) :
    ∃ r, build [.bundled] usesCandidates = .ok r ∧ (∀ v, r.HasBundled v) ∧
      r.usesCandidates = usesCandidates := by
  refine ⟨{ templates := bundled, usesCandidates }, rfl, fun v => rfl, rfl⟩

section
variable {r : Renderer} {v w : Variant} {t : Template} {c : ClassLike}

theorem choose_of_template (own : r.template? v = some t) : r.choose v = .ok (v, t) := by
  rw [choose, own]

theorem choose_of_candidate (missing : r.template? v = none) (candidates : r.usesCandidates = true)
    (candidate : v.candidate? = some w) (own : r.template? w = some t) :
    r.choose v = .ok (w, t) := by
  rw [choose, missing, if_pos candidates, candidate]
  dsimp only
  rw [own]

theorem symbol_of_classTemplate [Engine] [LawfulEngine] (shows : showsProperties c.kind = true)
    (chosen : r.choose (.ofKind c.kind) = .ok (v, classTemplate)) :
    r.symbol (.classLike c) = .ok (page c) := by
  have writes := writes_class c
  rw [classText_eq, if_pos shows, if_pos shows] at writes
  exact show_of_writes chosen writes

theorem symbol_of_interfaceTemplate [Engine] [LawfulEngine]
    (shows : ¬ showsProperties c.kind = true)
    (chosen : r.choose (.ofKind c.kind) = .ok (v, interfaceTemplate)) :
    r.symbol (.classLike c) = .ok (pageWithoutProperties c) := by
  have writes := writes_class c
  rw [classText_eq, if_neg shows, if_neg shows] at writes
  exact show_of_writes chosen writes

end

/-- The bundled templates show a class or trait as its page, and an interface, or an enum for
which the template for interfaces stands in, as its page without properties, whatever properties
it has. -/
theorem symbol_classLike_page [Engine] [LawfulEngine] (c : ClassLike) :
    (∀ r : Renderer, c.kind = .classDecl ∨ c.kind = .traitDecl → r.HasBundled (.ofKind c.kind) →
      r.symbol (.classLike c) = .ok (page c)) ∧
    (∀ r : Renderer, r.HasBundled .interface_ →
      c.kind = .interfaceDecl ∨
        c.kind = .enumDecl ∧ r.HasBundled .enum_ ∧ r.usesCandidates = true →
      ∀ properties, r.symbol (.classLike { c with properties }) =
        .ok (pageWithoutProperties c)) ∧
    ∀ usesCandidates, ∃ r, build [.bundled] usesCandidates = .ok r ∧ (∀ v, r.HasBundled v) ∧
      r.usesCandidates = usesCandidates := by
  refine ⟨?members, ?interfaces, hasBundled_build⟩
  case members =>
    intro r kind has
    have chosen : r.choose (.ofKind c.kind) = .ok (.ofKind c.kind, classTemplate) := by
      apply choose_of_template
      rw [has]
      rcases kind with kind | kind <;> rw [kind] <;> rfl
    refine symbol_of_classTemplate ?_ chosen
    rcases kind with kind | kind <;> rw [kind] <;> rfl
  case interfaces =>
    intro r has kind properties
    have chosen : r.choose (.ofKind c.kind) = .ok (.interface_, interfaceTemplate) := by
      rcases kind with kind | ⟨kind, missing, candidates⟩
      · rw [kind]
        exact choose_of_template has
      · rw [kind]
        exact choose_of_candidate missing candidates rfl has
    refine symbol_of_interfaceTemplate (c := { c with properties }) ?_ chosen
    rcases kind with kind | ⟨kind, -⟩ <;> simp [kind, showsProperties]

/-! ### A class and an enum -/

def sampleClass : ClassLike :=
  { name := "A"
    parents := [{ name := "B", kind := some .classDecl }]
    traits := [{ name := "C" }]
    methods := { toList := [{ name := "f", owner := "A", isVirtual := true }] } }

def sampleProperty : Property := { name := "p", owner := "E" }

def sampleEnum : ClassLike := { kind := .enumDecl, name := "E" }

theorem symbol_classLike_page_sample :
    bundledOnly.HasBundled .class_ ∧
    bundledOnly.symbol (.classLike sampleClass) = .ok (page sampleClass) ∧
    page sampleClass = "```php\nclass A extends B\n```\n\n#### Supertypes\n- extends class `B`" ++
      "\n- uses `C`\n\n#### Methods\n- `public function f()` *(virtual)*\n" ∧
    bundledOnly.HasBundled .interface_ ∧ bundledOnly.HasBundled .enum_ ∧
    bundledOnly.symbol (.classLike { sampleEnum with properties := ⟨[sampleProperty]⟩ }) =
      .ok (pageWithoutProperties sampleEnum) ∧
    pageWithoutProperties sampleEnum = "```php\nenum E\n```\n" := by
  have own (v : Variant) : bundledOnly.HasBundled v := rfl
  have shown := (symbol_classLike_page sampleClass).1 bundledOnly (.inl rfl) (own _)
  have enum := (symbol_classLike_page sampleEnum).2.1 bundledOnly (own _) (.inr ⟨rfl, own _, rfl⟩)
  exact ⟨own _, shown, by decide, own _, own _, enum _, by decide⟩

end PhpSymbols.Renderer
