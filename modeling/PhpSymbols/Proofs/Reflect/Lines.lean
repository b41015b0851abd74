import PhpSymbols.Proofs.Docblock.Lines
import PhpSymbols.Proofs.Markdown.Page
import PhpSymbols.Proofs.Php.Lawful
import PhpSymbols.Proofs.Reflect.Faithful
import PhpSymbols.Proofs.Reflect.Lookup

/-!
# The lines of reflected symbols

* `Reader.isTaken_methodsOf`, `Reader.isTaken_propertiesOf`, `Reader.isTaken_constantsOf`: what
  members declare is shown inline if their names stand on one line, and broken only by stretches of
  the source;
* `ClassLike.symbols`: a class-like and its members;
* `DeclaredClass.mem_members_withVirtualMembers`: each member is declared or offered by a provider;
* `Provider.docblock_folded`: what doc comments offer is shown without line feeds;
* `signatures_inline`: so the signatures of a source are broken where default and constant values
  are written on several lines, and nowhere else.
-/

namespace PhpSymbols
open Php Text

/-! ### Members -/

theorem Php.Reading.infix_textAt (reading : Reading) (span : Span) :
    (reading.textAt span).toList <:+: reading.text := by
  rw [textAt, String.toList_ofList]
  exact infix_slice _ _ _

namespace Reader
variable (r : Reader)

theorem canonical_declaredTy (hint : Option Span) (documented : Option String) :
    (r.declaredTy hint documented).Canonical Ty.IsClassPath :=
  (Resolver.ReadFrom.declared _ documented).canonical

theorem stretches_initial (initial : Option Expr) :
    ∀ text ∈ (initial.map r.valueText).toList,
      IsOneLine text ∨ text.toList <:+: r.reading.text := by
  intro text mem
  obtain ⟨value, -, rfl⟩ := Option.map_eq_some_iff.1 (Option.mem_toList.1 mem)
  exact .inr (r.reading.infix_textAt value.span)

/-- The value of a case is what stands behind the equals sign, or made up of two names. -/
theorem stretches_caseValue {owner name item : String} (ownerName : IsOneLine owner)
    (caseName : IsOneLine name) :
    IsOneLine (caseValue owner name item) ∨
      (caseValue owner name item).toList <:+: item.toList := by
  unfold caseValue
  split
  · rename_i before value cut
    obtain ⟨whole, -⟩ := splitOnce_eq_some_iff.1 cut
    rw [String.toList_ofList, whole]
    exact .inr ((infix_trim value).trans ⟨before ++ ['='], [], by simp⟩)
  · have apart : lineBreaks "::" = [] := by decide
    change lineBreaks owner = [] at ownerName
    change lineBreaks name = [] at caseName
    exact .inl (by simp [IsOneLine, apart, ownerName, caseName])

theorem isShown_parameter (doc : Option Docblock) {p : Param} (named : IsOneLine p.name) :
    (r.parameter doc p).IsShown false := by
  cases p with
  | mk ms hint isReference isVariadic name initial hasHooks =>
    exact ⟨r.canonical_declaredTy _ _, fun _ => isOneLine_dropWhile named _⟩

theorem isShown_parameters (doc : Option Docblock) {ps : List Param}
    (named : ∀ n ∈ ps.map Param.name, IsOneLine n) :
    ∀ p ∈ r.parameters doc ps, p.IsShown false := by
  rw [parameters, List.forall_mem_map]
  exact fun p mem => r.isShown_parameter doc (named _ (List.mem_map_of_mem mem))

theorem stretches_parameters (doc : Option Docblock) (ps : List Param) :
    ∀ text ∈ (r.parameters doc ps).flatMap (·.copied false),
      IsOneLine text ∨ text.toList <:+: r.reading.text := by
  intro text mem
  obtain ⟨p, among, taken⟩ := List.mem_flatMap.1 mem
  obtain ⟨written, -, rfl⟩ := List.mem_map.1 among
  cases written with
  | mk ms hint isReference isVariadic name initial hasHooks =>
    exact r.stretches_initial initial text taken

theorem isTaken_function (ns : Option String) {d : FunctionDecl}
    (named : ∀ n ∈ (Declared.function ns d).names, IsOneLine n) :
    (Symbol.function (r.function ns d)).IsTakenFrom r.reading.text := by
  cases d with
  | mk span name ps returnHint body =>
    obtain ⟨here, parameters⟩ := List.forall_mem_cons.1 named
    exact ⟨Function.isInline here (r.isShown_parameters _ parameters) (r.canonical_declaredTy _ _),
      r.stretches_parameters _ ps⟩

variable {r} {owner : String} {m : Member} (named : ∀ n ∈ m.names, IsOneLine n)
include named

theorem isTaken_methodsOf :
    ∀ f ∈ r.methodsOf owner m, (Symbol.method f).IsTakenFrom r.reading.text := by
  intro f mem
  cases m with
  | method span ms name ps returnHint body =>
    obtain rfl := List.mem_singleton.1 mem
    obtain ⟨here, parameters⟩ := List.forall_mem_cons.1 named
    exact ⟨Method.isInline here (r.isShown_parameters _ parameters) (r.canonical_declaredTy _ _),
      r.stretches_parameters _ ps⟩
  | property | hookedProperty | constant | enumCase | traitUse => cases mem

omit named in
theorem isTaken_promoted {span : Span} {name : String} {ps : List Param}
    (named : ∀ n ∈ ps.map Param.name, IsOneLine n) :
    ∀ p ∈ r.promoted owner span name ps, (Symbol.property p).IsTakenFrom r.reading.text := by
  intro p mem
  unfold promoted at mem
  split at mem
  · obtain ⟨⟨written, reflected⟩, paired, found⟩ := List.mem_filterMap.1 mem
    have shown := r.isShown_parameters _ named reflected (List.of_mem_zip paired).2
    cases written with
    | mk ms hint isReference isVariadic name initial hasHooks =>
      obtain rfl := Option.some.inj (Option.ite_none_left_eq_some.1 found).2
      exact ⟨Property.isInline (shown.named rfl) shown.typed, nofun⟩
  · cases mem

theorem isTaken_propertiesOf :
    ∀ p ∈ r.propertiesOf owner m, (Symbol.property p).IsTakenFrom r.reading.text := by
  intro p mem
  cases m with
  | method span ms name ps returnHint body =>
    exact isTaken_promoted (List.forall_mem_cons.1 named).2 p mem
  | property span ms hint items =>
    obtain ⟨⟨name, initial⟩, among, rfl⟩ := List.mem_map.1 mem
    have here : IsOneLine name := named _ (List.mem_map_of_mem among)
    exact ⟨Property.isInline (isOneLine_dropWhile here _) (r.canonical_declaredTy _ _),
      r.stretches_initial initial⟩
  | hookedProperty span ms hint name =>
    obtain rfl := List.mem_singleton.1 mem
    have here : IsOneLine name := named _ List.mem_cons_self
    exact ⟨Property.isInline (isOneLine_dropWhile here _) (r.canonical_declaredTy _ _), nofun⟩
  | constant | enumCase | traitUse => cases mem

theorem isTaken_constantsOf (ownerName : IsOneLine owner) :
    ∀ c ∈ r.constantsOf owner m, (Symbol.constant c).IsTakenFrom r.reading.text := by
  intro c mem
  cases m with
  | constant span ms hint items =>
    obtain ⟨⟨name, value⟩, among, rfl⟩ := List.mem_map.1 mem
    have here : IsOneLine name := named _ (List.mem_map_of_mem among)
    exact ⟨Constant.isInline here,
      List.forall_mem_singleton.2 (.inr (r.reading.infix_textAt value.span))⟩
  | enumCase span name item =>
    obtain rfl := List.mem_singleton.1 mem
    have here : IsOneLine name := named _ List.mem_cons_self
    exact ⟨Constant.isInline here, List.forall_mem_singleton.2
      ((stretches_caseValue ownerName here).imp_right (·.trans (r.reading.infix_textAt item)))⟩
  | method | property | hookedProperty | traitUse => cases mem

end Reader

/-! ### Members of class-likes -/

/-- The member that is added: marked as virtual, whatever its provider says. -/
def VirtualMember.symbol : VirtualMember → Symbol
  | .method m => .method { m with isVirtual := true }
  | .property p => .property { p with isVirtual := true }
  | .constant c => .constant { c with isVirtual := true }

theorem VirtualMember.isVirtual_symbol (v : VirtualMember) : v.symbol.isVirtual = true := by
  cases v <;> rfl

namespace ClassLike

/-- The methods, properties and constants, as symbols. -/
def members (c : ClassLike) : List Symbol :=
  c.methods.toList.map .method ++ c.properties.toList.map .property ++
    c.constants.toList.map .constant

/-- The class-like and its members. -/
def symbols (c : ClassLike) : List Symbol := .classLike c :: c.members

theorem mem_members {c : ClassLike} {x : Symbol} : x ∈ c.members ↔
    (∃ m ∈ c.methods.toList, .method m = x) ∨ (∃ p ∈ c.properties.toList, .property p = x) ∨
      ∃ k ∈ c.constants.toList, .constant k = x := by
  simp only [members, List.mem_append, List.mem_map, or_assoc]

theorem mem_members_addVirtual {c : ClassLike} {v : VirtualMember} {x : Symbol}
    (mem : x ∈ (c.addVirtual v).members) : x ∈ c.members ∨ x = v.symbol := by
  rw [mem_members] at mem ⊢
  cases v with
  | method m =>
    rcases mem with ⟨m, among, rfl⟩ | others
    · rcases Collection.mem_insertIfAbsent among with among | rfl
      · exact .inl (.inl ⟨m, among, rfl⟩)
      · exact .inr rfl
    · exact .inl (.inr others)
  | property p =>
    rcases mem with others | ⟨p, among, rfl⟩ | others
    · exact .inl (.inl others)
    · rcases Collection.mem_insertIfAbsent among with among | rfl
      · exact .inl (.inr (.inl ⟨p, among, rfl⟩))
      · exact .inr rfl
    · exact .inl (.inr (.inr others))
  | constant k =>
    rcases mem with others | others | ⟨k, among, rfl⟩
    · exact .inl (.inl others)
    · exact .inl (.inr (.inl others))
    · rcases Collection.mem_insertIfAbsent among with among | rfl
      · exact .inl (.inr (.inr ⟨k, among, rfl⟩))
      · exact .inr rfl

theorem mem_members_foldl_addVirtual {vs : List VirtualMember} {c : ClassLike} {x : Symbol}
    (mem : x ∈ (vs.foldl addVirtual c).members) :
    x ∈ c.members ∨ ∃ v ∈ vs, x = v.symbol := by
  induction vs generalizing c with
  | nil => exact .inl mem
  | cons v vs ih =>
    rcases ih mem with mem | ⟨w, among, same⟩
    · exact (mem_members_addVirtual mem).imp_right fun same => ⟨v, List.mem_cons_self, same⟩
    · exact .inr ⟨w, List.mem_cons_of_mem v among, same⟩

theorem exists_of_mem_offered {resolver : Resolver} {docblock : Docblock}
    {providers : List Provider} {c : ClassLike} {v : VirtualMember}
    (mem : v ∈ c.offered resolver docblock providers) :
    ∃ p ∈ providers, ∃ before, v ∈ p ⟨before, docblock, resolver⟩ := by
  induction providers generalizing c with
  | nil => cases mem
  | cons p ps ih =>
    rcases List.mem_append.1 mem with mem | mem
    · exact ⟨p, List.mem_cons_self, c, mem⟩
    · obtain ⟨q, among, offered⟩ := ih mem
      exact ⟨q, List.mem_cons_of_mem p among, offered⟩

end ClassLike

/-- The members of a class-like are those that it declares and some that providers offer. -/
theorem DeclaredClass.mem_members_withVirtualMembers {d : DeclaredClass} {resolver : Resolver}
    {providers : List Provider} {x : Symbol}
    (mem : x ∈ (d.withVirtualMembers resolver providers).members) :
    x ∈ d.symbol.members ∨ ∃ v, x = v.symbol ∧
      ∃ p ∈ providers, ∃ before, v ∈ p ⟨before, d.docblock, resolver⟩ := by
  rw [withVirtualMembers, ClassLike.foldl_addFrom] at mem
  rcases ClassLike.mem_members_foldl_addVirtual mem with mem | ⟨v, offered, same⟩
  · exact .inl mem
  · exact .inr ⟨v, same, ClassLike.exists_of_mem_offered offered⟩

/-- What tags without line feeds document is shown without them. -/
theorem Provider.docblock_folded {c : Completion}
    (unfed : ∀ t ∈ c.docblock.tags, '\n' ∉ t.body.toList) :
    ∀ v ∈ Provider.docblock c, v.symbol.IsFolded := by
  intro v offered
  rcases List.mem_append.1 offered with property | method
  · obtain ⟨named, among, added⟩ := List.mem_filterMap.1 property
    obtain ⟨tag, -, read⟩ := List.mem_filterMap.1 among
    obtain ⟨p, declared, rfl⟩ := Option.map_eq_some_iff.1 added
    exact named.isFolded read declared
  · obtain ⟨named, among, added⟩ := List.mem_filterMap.1 method
    obtain ⟨tag, tagged, read⟩ := List.mem_filterMap.1 among
    obtain ⟨m, declared, rfl⟩ := Option.map_eq_some_iff.1 added
    exact named.isFolded read (unfed tag (List.mem_filter.1 tagged).1) declared

namespace Reader
variable {r : Reader} {ns : Option String} {d : ClassDecl}

theorem unfed_docblock (r : Reader) (start : Nat) :
    ∀ t ∈ ((r.docblock? start).getD {}).tags, '\n' ∉ t.body.toList := by
  cases found : r.docblock? start with
  | none => exact nofun
  | some doc =>
    obtain ⟨raw, -, rfl⟩ := Option.map_eq_some_iff.1 found
    exact Docblock.unfed_parse raw

theorem unfed_classLike : ∀ t ∈ (r.classLike ns d).docblock.tags, '\n' ∉ t.body.toList := by
  cases d with
  | mk span => exact r.unfed_docblock span.start

variable (named : ∀ n ∈ (Declared.classLike ns d).names, IsOneLine n)
include named

/-- What a class-like declares is concrete, and shown as it is taken from the source. -/
theorem isTaken_members : ∀ x ∈ (r.classLike ns d).symbol.members,
    x.isVirtual = false ∧ x.IsTakenFrom r.reading.text := by
  cases d with
  | mk span kind ms name parents interfaces braces members =>
    have ownerName : IsOneLine name := named name (by simp [Declared.names])
    have each : ∀ m ∈ members, ∀ n ∈ m.names, IsOneLine n := fun m mem n among =>
      named n (List.mem_append_right _ (List.mem_flatMap.2 ⟨m, mem, among⟩))
    have kept {α : Type} [Named α] {x : α} {ys : List α}
        (mem : x ∈ (ys.foldl Collection.insertIfAbsent {}).toList) : x ∈ ys :=
      (Collection.mem_foldl_insertIfAbsent mem).resolve_left List.not_mem_nil
    intro x mem
    rcases ClassLike.mem_members.1 mem with ⟨m, among, rfl⟩ | ⟨p, among, rfl⟩ | ⟨k, among, rfl⟩
    · have declared := kept (r.methods_classLike ns _ ▸ among)
      obtain ⟨member, within, mem⟩ := List.mem_flatMap.1 declared
      exact ⟨r.declaredMethods_concrete _ m declared, isTaken_methodsOf (each member within) m mem⟩
    · have declared := kept (r.properties_classLike ns _ ▸ among)
      obtain ⟨member, within, mem⟩ := List.mem_flatMap.1 declared
      exact ⟨(r.declaredProperties_concrete _ p declared).1,
        isTaken_propertiesOf (each member within) p mem⟩
    · have declared := kept (r.constants_classLike ns _ ▸ among)
      obtain ⟨member, within, mem⟩ := List.mem_flatMap.1 declared
      exact ⟨r.declaredConstants_concrete _ k declared,
        isTaken_constantsOf (each member within) ownerName k mem⟩

theorem isOneLine_classLike : IsOneLine (r.classLike ns d).symbol.name ∧
    (∀ s ∈ (r.classLike ns d).symbol.parents, IsOneLine s.name) ∧
    ∀ s ∈ (r.classLike ns d).symbol.interfaces, IsOneLine s.name := by
  cases d with
  | mk span kind ms name parents interfaces braces members =>
    simp only [Declared.names, List.forall_mem_append, List.forall_mem_cons] at named
    obtain ⟨⟨⟨here, up⟩, beside⟩, -⟩ := named
    have shown {names : List String} (each : ∀ n ∈ names, IsOneLine n) :
        ∀ s ∈ names.map Supertype.ofName, IsOneLine s.name :=
      List.forall_mem_map.2 fun n mem => isOneLine_dropWhile (each n mem) _
    exact ⟨here, shown up, shown beside⟩

end Reader

/-! ### Sources -/

theorem Declarations.isOneLine_names [Frontend] [LawfulFrontend] (resolver : Resolver)
    (source : String) :
    ∀ d ∈ (⟨Reading.of source, resolver⟩ : Reader).listed, ∀ n ∈ d.names, IsOneLine n := by
  exact fun d listed => (Declared.wellRead listed).names

/-- A supertype of which more is known has the name that it had. -/
theorem isOneLine_of_resolves {before after : List Supertype}
    (resolved : List.Forall₂ Supertype.Resolves before after)
    (named : ∀ s ∈ before, IsOneLine s.name) : ∀ s ∈ after, IsOneLine s.name := by
  intro t mem
  obtain ⟨s, among, same⟩ := exists_of_forall₂ resolved mem
  rw [same]
  exact named s among

theorem Markdown.lineBreaks_memberLine (signature : String) (isVirtual : Bool) :
    lineBreaks (memberLine signature isVirtual) = lineBreaks signature := by
  have signs : lineBreaks "- `" = [] ∧ lineBreaks "`" = [] ∧
      lineBreaks " *(virtual)*" = [] := by decide
  cases isVirtual <;> simp [memberLine, signs]

namespace ReflectorBy
variable {κ : Type} {key : String → κ} {r : ReflectorBy key} {reading : Reading}
  {ns : Option String} {d : ClassDecl} {c : ClassLike}

theorem mem_members_of_completesBy {R : Supertype → Supertype → Prop} {d : DeclaredClass}
    (completes : r.CompletesBy R d c) {x : Symbol} (mem : x ∈ c.members) :
    x ∈ d.symbol.members ∨ ∃ v, x = v.symbol ∧
      ∃ p ∈ r.providers, ∃ before, v ∈ p ⟨before, d.docblock, r.resolver⟩ := by
  obtain ⟨parents, interfaces, traits, rfl, -⟩ := completes
  exact d.mem_members_withVirtualMembers mem

variable (named : ∀ n ∈ (Declared.classLike ns d).names, IsOneLine n)
  (completes : r.CompletesBy Supertype.Resolves
    ((⟨reading, r.resolver⟩ : Reader).classLike ns d) c)
include named completes

theorem isTaken_of_completesBy :
    ∀ x ∈ c.symbols, x.isVirtual = false → x.IsTakenFrom reading.text := by
  intro x mem concrete
  rcases List.mem_cons.1 mem with rfl | mem
  · obtain ⟨parents, interfaces, traits, rfl, up, beside, -⟩ := completes
    obtain ⟨here, above, next⟩ := Reader.isOneLine_classLike named
    rw [DeclaredClass.withVirtualMembers_eq]
    exact ⟨ClassLike.isInline here (isOneLine_of_resolves up above)
      (isOneLine_of_resolves beside next), nofun⟩
  · rcases mem_members_of_completesBy completes mem with declared | ⟨v, rfl, -⟩
    · exact (Reader.isTaken_members named x declared).2
    · rw [v.isVirtual_symbol] at concrete
      cases concrete

theorem isFolded_of_completesBy (documented : ∀ p ∈ r.providers, p = Provider.docblock) :
    ∀ x ∈ c.symbols, x.isVirtual = true → x.IsFolded := by
  intro x mem isVirtual
  rcases List.mem_cons.1 mem with rfl | mem
  · cases isVirtual
  · rcases mem_members_of_completesBy completes mem with
      declared | ⟨v, rfl, p, asked, before, added⟩
    · rw [(Reader.isTaken_members named x declared).1] at isVirtual
      cases isVirtual
    · rw [documented p asked] at added
      exact Provider.docblock_folded Reader.unfed_classLike v added

end ReflectorBy

open Markdown in
/-- The signature of what a source declares has the line breaks of the default values and the value
that it takes over, as they are written there, and no others; that of what tags document has no line
feed either. So a member has one line on the page of its class-like exactly if these texts are
written on one line. -/
theorem ReflectorBy.signatures_inline [Frontend] [LawfulFrontend] [Walker] [Template.Engine]
    [Template.LawfulEngine] {κ : Type} {key : String → κ} [DecidableEq κ]
    (r : ReflectorBy key) {s : SessionBy key} {source : String}
    (faithful : s.FaithfulTo r.resolver source) :
    (∀ f ∈ ((r.functionsIn source).run s).1.toList,
      (Symbol.function f).IsTakenFrom (Reading.of source).text) ∧
    ∀ c ∈ ((r.classesIn source).run s).1.toList,
      (∀ x ∈ c.symbols, x.isVirtual = false → x.IsTakenFrom (Reading.of source).text) ∧
      ((∀ p ∈ r.providers, p = Provider.docblock) →
        ∀ x ∈ c.symbols, x.isVirtual = true → x.IsFolded) ∧
      (∀ x ∈ c.symbols, x.IsInline →
        (IsOneLine (memberLine x.signature x.isVirtual) ↔ ∀ text ∈ x.copied, IsOneLine text)) ∧
      Renderer.bundledOnly.symbol (.classLike c) =
        .ok (if showsProperties c.kind then page c else pageWithoutProperties c) := by
  have named := Declarations.isOneLine_names r.resolver source
  refine ⟨fun f mem => ?_, fun c mem => ?_⟩
  · rw [r.toList_functionsIn faithful] at mem
    obtain ⟨ns, d, listed, rfl⟩ := (Reader.mem_functions _).1 mem
    exact Reader.isTaken_function ⟨.of source, r.resolver⟩ ns (named _ listed)
  · have completed := (r.completesBy_classesIn (I := fun _ => True) faithful
      (fun t s _ => ⟨r.completeSupertype_resolves _ t s, trivial⟩) trivial).1
    obtain ⟨declared, among, completes⟩ := exists_of_forall₂ completed mem
    obtain ⟨ns, d, listed, rfl⟩ := (Reader.mem_classes _).1 among
    refine ⟨isTaken_of_completesBy (named _ listed) completes,
      isFolded_of_completesBy (named _ listed) completes, fun x _ isInline => ?_, ?_⟩
    · rw [IsOneLine, lineBreaks_memberLine]
      exact isInline.isOneLine_iff
    · rw [Renderer.symbol_bundled, ← classText_eq]
      rfl

/-! ### Parameters and a value on two lines -/

/-- The list of parameters is broken, which its signature does not show. -/
def laidOut : String := "<?php /** @method g($b) */class A\x7bfunction f(\n$a);\x7d"

def laidOutClass : ClassDecl :=
  .mk ⟨26, 51⟩ .classDecl [] "A" [] [] ⟨33, 51⟩
    [.method ⟨34, 50⟩ [] "f" [.mk [] none false false "$a" none false] none none]

set_option maxRecDepth 100000 in
theorem reading_laidOut : Reading.of laidOut =
    { text := laidOut.toList
      program := {
        statements := [.markup ⟨0, 5⟩, .classLike laidOutClass]
        comments := [⟨⟨6, 26⟩, true, "/** @method g($b) */"⟩] } } := by
  cbv

def laidOutDeclared : DeclaredClass where
  symbol := {
    name := "A", startOffset := 33, endOffset := 51
    methods := ⟨[{ name := "f", owner := "A", parameters := [{ name := "a" }] }]⟩ }
  docblock := { tags := [⟨"method", "g($b)"⟩] }

set_option maxRecDepth 100000 in
theorem declarations_laidOut : Declarations.of {} laidOut = { classes := [laidOutDeclared] } := by
  rw [Declarations.of, reading_laidOut]
  rfl

def documenting : Reflector := { providers := [Provider.docblock] }

theorem offered_laidOut : Provider.docblock ⟨laidOutDeclared.symbol, laidOutDeclared.docblock, {}⟩ =
    [.method
      { name := "g", owner := "A", isVirtual := true, parameters := [{ name := "b" }] }] := by
  cbv

theorem members_laidOut :
    (laidOutDeclared.withVirtualMembers {} documenting.providers).members.map
      (fun x => (x.signature, x.isVirtual)) =
      [("public function f($a)", false), ("public function g($b)", true)] := by
  rw [DeclaredClass.withVirtualMembers, documenting, List.foldl_cons, List.foldl_nil,
    ClassLike.addFrom, offered_laidOut]
  decide

theorem signatures_inline_laidOut :
    let s : Session := {}
    s.FaithfulTo documenting.resolver laidOut ∧
    ∃ c ∈ ((documenting.classesIn laidOut).run s).1.toList,
      c.members.map (fun x => (x.signature, x.isVirtual)) =
        [("public function f($a)", false), ("public function g($b)", true)] ∧
      (∀ p ∈ documenting.providers, p = Provider.docblock) ∧
      (∀ x ∈ c.symbols, x.isVirtual = false → x.IsTakenFrom (Reading.of laidOut).text) ∧
      ∀ x ∈ c.symbols, x.isVirtual = true → x.IsFolded := by
  intro s
  have faithful : s.FaithfulTo documenting.resolver laidOut :=
    SessionBy.faithfulTo_of_uncached rfl laidOut
  have completed : List.Forall₂ documenting.Completes (Declarations.of {} laidOut).classes _ :=
    documenting.toList_classesIn faithful
  rw [declarations_laidOut] at completed
  obtain ⟨c, others, completes, -, all⟩ := List.forall₂_cons_left_iff.1 completed
  have mem : c ∈ ((documenting.classesIn laidOut).run s).1.toList := all ▸ List.mem_cons_self
  have documented : ∀ p ∈ documenting.providers, p = Provider.docblock :=
    fun p asked => List.mem_singleton.1 asked
  have shown : c.members.map (fun x => (x.signature, x.isVirtual)) =
      [("public function f($a)", false), ("public function g($b)", true)] := by
    obtain ⟨parents, interfaces, traits, rfl⟩ := completes
    exact members_laidOut
  obtain ⟨concrete, offered, -, -⟩ := (documenting.signatures_inline faithful).2 c mem
  exact ⟨faithful, c, mem, shown, documented, concrete, offered documented⟩

def brokenValue : String := "<?php class A\x7bconst X=1 +\n2;\x7d"

set_option maxRecDepth 100000 in
theorem signatures_brokenValue :
    ((({} : Reflector).classesIn brokenValue).run {}).1.toList.flatMap
      (fun c => c.symbols.map (·.signature)) = ["class A", "public const X = 1 +\n2"] := by
  cbv

/-- The value of the constant is shown on two lines, as it is written. -/
theorem signatures_inline_broken :
    ¬ ∀ source : String, ∀ c ∈ ((({} : Reflector).classesIn source).run {}).1.toList,
      ∀ x ∈ c.symbols, IsOneLine x.signature := by
  intro all
  obtain ⟨c, mem, shown⟩ := List.mem_flatMap.1
    (signatures_brokenValue ▸ List.mem_cons_of_mem "class A" (List.mem_singleton_self _))
  obtain ⟨x, among, same⟩ := List.mem_map.1 shown
  have single := all brokenValue c mem x among
  rw [same] at single
  exact absurd single (by decide)

end PhpSymbols
