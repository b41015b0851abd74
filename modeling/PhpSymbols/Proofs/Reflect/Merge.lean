import Mathlib.Data.List.Forall2
import PhpSymbols.Proofs.Php.Mended
import PhpSymbols.Proofs.Symbol.Merge
import PhpSymbols.Reflect.Session

/-!
# Members of completed class-likes

* `declaredMethods`, `declaredProperties`, `declaredConstants`: what the members of a
  declaration declare, in order;
* `offered`: what providers offer, each seeing what the ones before it added;
* `complete_merges`: completion merges the offered members with the declared ones and
  otherwise only finds out what the supertypes are.
-/

namespace PhpSymbols
open Php

/-! ### Declared members -/

namespace Reader
variable (r : Reader)

def declaredMethods : ClassDecl → List Method
  | .mk _ _ _ name _ _ _ members => members.flatMap (r.methodsOf name)

def declaredProperties : ClassDecl → List Property
  | .mk _ _ _ name _ _ _ members => members.flatMap (r.propertiesOf name)

def declaredConstants : ClassDecl → List Constant
  | .mk _ _ _ name _ _ _ members => members.flatMap (r.constantsOf name)

theorem foldl_add (owner : String) (members : List Member) (start : Members) :
    members.foldl (Members.add r owner) start =
      { methods := (members.flatMap (r.methodsOf owner)).foldl .insertIfAbsent start.methods
        properties :=
          (members.flatMap (r.propertiesOf owner)).foldl .insertIfAbsent start.properties
        constants := (members.flatMap (r.constantsOf owner)).foldl .insertIfAbsent start.constants
        traits := start.traits ++ members.flatMap usedTraits } := by
  induction members generalizing start with
  | nil => simp
  | cons m members ih =>
    rw [List.foldl_cons, ih]
    simp [Members.add, List.flatMap_cons, List.foldl_append]

theorem methods_classLike (ns : Option String) (decl : ClassDecl) :
    (r.classLike ns decl).symbol.methods =
      (r.declaredMethods decl).foldl .insertIfAbsent {} := by
  obtain ⟨_, _, _, name, _, _, _, members⟩ := decl
  exact congrArg Members.methods (r.foldl_add name members {})

theorem properties_classLike (ns : Option String) (decl : ClassDecl) :
    (r.classLike ns decl).symbol.properties =
      (r.declaredProperties decl).foldl .insertIfAbsent {} := by
  obtain ⟨_, _, _, name, _, _, _, members⟩ := decl
  exact congrArg Members.properties (r.foldl_add name members {})

theorem constants_classLike (ns : Option String) (decl : ClassDecl) :
    (r.classLike ns decl).symbol.constants =
      (r.declaredConstants decl).foldl .insertIfAbsent {} := by
  obtain ⟨_, _, _, name, _, _, _, members⟩ := decl
  exact congrArg Members.constants (r.foldl_add name members {})

theorem head?_plainName (written : String) : (plainName written).toList.head? ≠ some '$' := by
  rw [plainName, String.toList_ofList]
  intro dollar
  have := List.head?_dropWhile_not (· == '$') written.toList
  rw [dollar] at this
  exact absurd this (by decide)

theorem declaredMethods_concrete (decl : ClassDecl) :
    ∀ m ∈ r.declaredMethods decl, m.isVirtual = false := by
  obtain ⟨_, _, _, name, _, _, _, members⟩ := decl
  intro m hm
  obtain ⟨member, _, hm⟩ := List.mem_flatMap.1 hm
  cases member with
  | method =>
    obtain rfl := List.mem_singleton.1 hm
    rfl
  | property | hookedProperty | constant | enumCase | traitUse => cases hm

theorem head?_parameter (doc : Option Docblock) (p : Param) :
    (r.parameter doc p).name.toList.head? ≠ some '$' := by
  cases p with
  | mk ms hint isReference isVariadic name initial hasHooks => exact head?_plainName name

theorem promoted_concrete {owner : String} {span : Span} {name : String} {ps : List Param} :
    ∀ p ∈ r.promoted owner span name ps, p.isVirtual = false ∧ p.IsPlain := by
  intro p hp
  unfold promoted at hp
  split at hp
  · obtain ⟨⟨⟨ms, hint, byRef, variadic, written, initial, hooks⟩, reflected⟩, paired, found⟩ :=
      List.mem_filterMap.1 hp
    obtain ⟨param, _, rfl⟩ := List.mem_map.1 (List.of_mem_zip paired).2
    simp only [promoted?] at found
    split at found
    · cases found
    · obtain rfl := Option.some.inj found
      exact ⟨rfl, r.head?_parameter _ param⟩
  · cases hp

/-- Declared properties are concrete and have no dollar sign in front. -/
theorem declaredProperties_concrete (decl : ClassDecl) :
    ∀ p ∈ r.declaredProperties decl, p.isVirtual = false ∧ p.IsPlain := by
  obtain ⟨_, _, _, name, _, _, _, members⟩ := decl
  intro p hp
  obtain ⟨member, _, hp⟩ := List.mem_flatMap.1 hp
  cases member with
  | method => exact r.promoted_concrete p hp
  | property span ms hint items =>
    obtain ⟨⟨name, initial⟩, _, rfl⟩ := List.mem_map.1 hp
    exact ⟨rfl, head?_plainName _⟩
  | hookedProperty =>
    obtain rfl := List.mem_singleton.1 hp
    exact ⟨rfl, head?_plainName _⟩
  | constant | enumCase | traitUse => cases hp

theorem declaredConstants_concrete (decl : ClassDecl) :
    ∀ c ∈ r.declaredConstants decl, c.isVirtual = false := by
  obtain ⟨_, _, _, name, _, _, _, members⟩ := decl
  intro c hc
  obtain ⟨member, _, hc⟩ := List.mem_flatMap.1 hc
  cases member with
  | constant =>
    obtain ⟨⟨name, value⟩, _, rfl⟩ := List.mem_map.1 hc
    rfl
  | enumCase =>
    obtain rfl := List.mem_singleton.1 hc
    rfl
  | method | property | hookedProperty | traitUse => cases hc

end Reader

/-! ### Offered members -/

namespace VirtualMember

/-- The method that a member adds: marked as virtual, whatever its provider says. -/
def method? : VirtualMember → Option Method
  | .method m => some { m with isVirtual := true }
  | .property _ | .constant _ => none

def property? : VirtualMember → Option Property
  | .property p => some { p with isVirtual := true }
  | .method _ | .constant _ => none

def constant? : VirtualMember → Option Constant
  | .constant c => some { c with isVirtual := true }
  | .method _ | .property _ => none

theorem method?_virtual {v : VirtualMember} {m : Method} (added : v.method? = some m) :
    m.isVirtual = true := by
  cases v <;> cases added
  rfl

theorem property?_virtual {v : VirtualMember} {p : Property} (added : v.property? = some p) :
    p.isVirtual = true := by
  cases v <;> cases added
  rfl

theorem constant?_virtual {v : VirtualMember} {c : Constant} (added : v.constant? = some c) :
    c.isVirtual = true := by
  cases v <;> cases added
  rfl

end VirtualMember

/-- All that providers offer, in order; each sees what the ones before it added. -/
def ClassLike.offered (resolver : Resolver) (docblock : Docblock) :
    List Provider → ClassLike → List VirtualMember
  | [], _ => []
  | p :: ps, c =>
    p ⟨c, docblock, resolver⟩ ++ offered resolver docblock ps (c.addFrom resolver docblock p)

def DeclaredClass.offered (d : DeclaredClass) (resolver : Resolver) (providers : List Provider) :
    List VirtualMember :=
  d.symbol.offered resolver d.docblock providers

/-- Properties are offered without a dollar sign in front of their names. -/
def Provider.IsPlain (p : Provider) : Prop :=
  ∀ c q, VirtualMember.property q ∈ p c → q.IsPlain

theorem PropertyTag.head?_ofTag? {tag : Tag} {t : PropertyTag} (h : ofTag? tag = some t) :
    t.name.toList.head? ≠ some '$' := by
  simp only [ofTag?, Option.bind_eq_bind, Option.bind_eq_some_iff] at h
  obtain ⟨access, _, word, _, h⟩ := h
  split at h
  · cases h
  · obtain rfl := Option.some.inj h
    rw [String.toList_ofList]
    intro dollar
    have := List.head?_dropWhile_not (· == '$') word
    rw [dollar] at this
    exact absurd this (by decide)

/-- Tags name properties without the dollar sign that they are written with. -/
theorem Provider.docblock_plain : Provider.docblock.IsPlain := by
  intro c q h
  rcases List.mem_append.1 h with h | h
  · obtain ⟨tag, ht, added⟩ := List.mem_filterMap.1 h
    obtain ⟨named, _, read⟩ := List.mem_filterMap.1 ht
    obtain ⟨p, declared, same⟩ := Option.map_eq_some_iff.1 added
    obtain rfl := VirtualMember.property.inj same
    have name : p.name = tag.name := by
      obtain rfl := Option.some.inj (Option.ite_none_left_eq_some.1 declared).2
      rfl
    rw [Property.IsPlain, name]
    exact PropertyTag.head?_ofTag? read
  · obtain ⟨tag, _, added⟩ := List.mem_filterMap.1 h
    obtain ⟨m, _, other⟩ := Option.map_eq_some_iff.1 added
    cases other

theorem ClassLike.foldl_addFrom (resolver : Resolver) (docblock : Docblock)
    (providers : List Provider) (c : ClassLike) :
    providers.foldl (addFrom resolver docblock) c =
      (c.offered resolver docblock providers).foldl addVirtual c := by
  induction providers generalizing c with
  | nil => rfl
  | cons p ps ih =>
    rw [List.foldl_cons, ih, offered, List.foldl_append]
    rfl

theorem ClassLike.foldl_addVirtual (ms : List VirtualMember) (c : ClassLike) :
    ms.foldl addVirtual c =
      { c with
        methods := (ms.filterMap VirtualMember.method?).foldl .insertIfAbsent c.methods
        properties := (ms.filterMap VirtualMember.property?).foldl .insertIfAbsent c.properties
        constants :=
          (ms.filterMap VirtualMember.constant?).foldl .insertIfAbsent c.constants } := by
  induction ms generalizing c with
  | nil => rfl
  | cons m ms ih =>
    rw [List.foldl_cons, ih]
    cases m <;> rfl

/-- Offered members are added after the declared ones; nothing else changes. -/
theorem DeclaredClass.withVirtualMembers_eq (d : DeclaredClass) (resolver : Resolver)
    (providers : List Provider) :
    d.withVirtualMembers resolver providers =
      let offered := d.offered resolver providers
      { d.symbol with
        methods := (offered.filterMap VirtualMember.method?).foldl .insertIfAbsent d.symbol.methods
        properties :=
          (offered.filterMap VirtualMember.property?).foldl .insertIfAbsent d.symbol.properties
        constants := (offered.filterMap VirtualMember.constant?).foldl
          .insertIfAbsent d.symbol.constants } := by
  rw [withVirtualMembers, ClassLike.foldl_addFrom, ClassLike.foldl_addVirtual]
  rfl

theorem DeclaredClass.supertypes_withVirtualMembers (d : DeclaredClass) (resolver : Resolver)
    (providers : List Provider) :
    (d.withVirtualMembers resolver providers).parents = d.symbol.parents ∧
      (d.withVirtualMembers resolver providers).interfaces = d.symbol.interfaces ∧
      (d.withVirtualMembers resolver providers).traits = d.symbol.traits := by
  rw [withVirtualMembers_eq]
  exact ⟨rfl, rfl, rfl⟩

theorem ClassLike.offered_plain {resolver : Resolver} {docblock : Docblock}
    {providers : List Provider} (plain : ∀ p ∈ providers, p.IsPlain) {c : ClassLike}
    {q : Property}
    (h : q ∈ (c.offered resolver docblock providers).filterMap VirtualMember.property?) :
    q.IsPlain := by
  induction providers generalizing c with
  | nil => cases h
  | cons p ps ih =>
    rw [offered, List.filterMap_append] at h
    rcases List.mem_append.1 h with h | h
    · obtain ⟨member, hm, added⟩ := List.mem_filterMap.1 h
      cases member with
      | property p' =>
        obtain rfl := Option.some.inj added
        exact plain p List.mem_cons_self _ p' hm
      | method | constant => cases added
    · exact ih (fun p' hp => plain p' (List.mem_cons_of_mem p hp)) h

/-! ### Completion -/

/-- The same supertype, of which more may be known. -/
def Supertype.Resolves (s t : Supertype) : Prop :=
  t = { s with kind := t.kind, isAbstract := t.isAbstract }

/-- The supertype with what its declaration says of it, if there is one. -/
def Supertype.declaredBy (t : Supertype) : Option ClassLike → Supertype
  | none => t
  | some c => { t with kind := some c.kind, isAbstract := c.isAbstract }

theorem Supertype.resolves_declaredBy (t : Supertype) (found : Option ClassLike) :
    t.Resolves (t.declaredBy found) := by
  cases found <;> rfl

/-- `c` is what `decl` declares, merged with the members `offered` and with supertypes
that may be resolved; everything else in it is as declared. -/
structure IsCompletion (reader : Reader) (decl : ClassDecl) (declared : ClassLike)
    (offered : List VirtualMember) (c : ClassLike) : Prop where
  methods : IsMerge Method.key Method.isVirtual (reader.declaredMethods decl)
    (offered.filterMap VirtualMember.method?) c.methods.toList
  properties : IsMerge Property.name Property.isVirtual (reader.declaredProperties decl)
    (offered.filterMap VirtualMember.property?) c.properties.toList
  constants : IsMerge Constant.name Constant.isVirtual (reader.declaredConstants decl)
    (offered.filterMap VirtualMember.constant?) c.constants.toList
  others : ∃ parents interfaces traits,
    c = { declared with
      methods := c.methods, properties := c.properties, constants := c.constants
      parents, interfaces, traits } ∧
    List.Forall₂ Supertype.Resolves declared.parents parents ∧
    List.Forall₂ Supertype.Resolves declared.interfaces interfaces ∧
    List.Forall₂ Supertype.Resolves declared.traits traits

/-- Each step of a loop gives a related result and keeps the invariant, and so does the loop. -/
theorem forall₂_mapM {σ α β : Type} {f : α → StateM σ β} {R : α → β → Prop} {I : σ → Prop}
    (step : ∀ a s, I s → R a ((f a).run s).1 ∧ I ((f a).run s).2) (as : List α) {s : σ}
    (here : I s) : List.Forall₂ R as ((as.mapM f).run s).1 ∧ I ((as.mapM f).run s).2 := by
  induction as generalizing s with
  | nil => exact ⟨.nil, here⟩
  | cons a as ih =>
    rw [List.mapM_cons]
    obtain ⟨related, kept⟩ := step a s here
    obtain ⟨all, kept⟩ := ih kept
    exact ⟨.cons related all, kept⟩

namespace ReflectorBy
variable {κ : Type} {key : String → κ} [DecidableEq κ] (r : ReflectorBy key)

/-- `c` is the declared class-like with the members that providers offer; its supertypes are
related to the declared ones. -/
def CompletesBy (R : Supertype → Supertype → Prop) (d : DeclaredClass) (c : ClassLike) : Prop :=
  ∃ parents interfaces traits,
    c = { d.withVirtualMembers r.resolver r.providers with parents, interfaces, traits } ∧
    List.Forall₂ R d.symbol.parents parents ∧
    List.Forall₂ R d.symbol.interfaces interfaces ∧
    List.Forall₂ R d.symbol.traits traits

variable {r} in
omit [DecidableEq κ] in
theorem CompletesBy.supertypes {R : Supertype → Supertype → Prop} {d : DeclaredClass}
    {c : ClassLike} (h : r.CompletesBy R d c) :
    List.Forall₂ R d.symbol.supertypes c.supertypes := by
  obtain ⟨_, _, _, rfl, parents, interfaces, traits⟩ := h
  exact List.rel_append (List.rel_append parents interfaces) traits

/-- Completion adds the offered members and completes each supertype, and that is all. -/
theorem completesBy_complete [Frontend] [Walker] {R : Supertype → Supertype → Prop}
    {I : SessionBy key → Prop} {context : Option Declarations}
    (step : ∀ t s, I s → R t ((r.completeSupertype context t).run s).1 ∧
      I ((r.completeSupertype context t).run s).2)
    (d : DeclaredClass) {s : SessionBy key} (here : I s) :
    r.CompletesBy R d ((r.complete context d).run s).1 ∧
      I ((r.complete context d).run s).2 := by
  have loop := forall₂_mapM step
  obtain ⟨parents, here⟩ := loop (d.withVirtualMembers r.resolver r.providers).parents here
  obtain ⟨interfaces, here⟩ := loop (d.withVirtualMembers r.resolver r.providers).interfaces here
  obtain ⟨traits, here⟩ := loop (d.withVirtualMembers r.resolver r.providers).traits here
  obtain ⟨sameParents, sameInterfaces, sameTraits⟩ :=
    d.supertypes_withVirtualMembers r.resolver r.providers
  refine ⟨⟨_, _, _, rfl, ?_, ?_, ?_⟩, here⟩
  · rw [← sameParents]
    exact parents
  · rw [← sameInterfaces]
    exact interfaces
  · rw [← sameTraits]
    exact traits

/-- What a supertype is known as comes from its declaration alone. -/
theorem run_completeSupertype [Frontend] [Walker] (context : Option Declarations) (t : Supertype)
    (s : SessionBy key) :
    (r.completeSupertype context t).run s =
      (t.declaredBy ((r.supertypeDeclaration? context t.name).run s).1,
        ((r.supertypeDeclaration? context t.name).run s).2) := by
  rw [completeSupertype, StateT.run_bind]
  rcases (r.supertypeDeclaration? context t.name).run s with ⟨found, after⟩
  cases found <;> rfl

theorem completeSupertype_resolves [Frontend] [Walker] (context : Option Declarations)
    (t : Supertype) (s : SessionBy key) :
    t.Resolves ((r.completeSupertype context t).run s).1 := by
  rw [run_completeSupertype]
  exact t.resolves_declaredBy _

/-- Whatever the session, completion resolves supertypes. -/
theorem complete_eq [Frontend] [Walker] (context : Option Declarations) (d : DeclaredClass)
    (s : SessionBy key) :
    r.CompletesBy Supertype.Resolves d ((r.complete context d).run s).1 :=
  (r.completesBy_complete (I := fun _ => True)
    (fun t s _ => ⟨r.completeSupertype_resolves context t s, trivial⟩) d trivial).1

end ReflectorBy

namespace Reflector
variable (r : Reflector)

/-- Completing a class-like merges the members that providers offer with the declared
ones. Of all else in it, only what is known of the supertypes changes. -/
theorem complete_merges [Frontend] [Walker] (reader : Reader) (ns : Option String)
    (decl : ClassDecl) (plain : ∀ p ∈ r.providers, p.IsPlain) (context : Option Declarations)
    (s : Session) :
    let d := reader.classLike ns decl
    IsCompletion reader decl d.symbol (d.offered r.resolver r.providers)
      ((r.complete context d).run s).1 := by
  intro d
  let offered := d.offered r.resolver r.providers
  let c := ((r.complete context d).run s).1
  obtain ⟨parents, interfaces, traits, completed, hp, hi, ht⟩ := r.complete_eq context d s
  have merged : c = { d.withVirtualMembers r.resolver r.providers with
    parents, interfaces, traits } := completed
  rw [DeclaredClass.withVirtualMembers_eq] at merged
  have methods : c.methods = (reader.declaredMethods decl ++
      offered.filterMap VirtualMember.method?).foldl .insertIfAbsent {} := by
    rw [merged, List.foldl_append, ← reader.methods_classLike ns]
  have properties : c.properties = (reader.declaredProperties decl ++
      offered.filterMap VirtualMember.property?).foldl .insertIfAbsent {} := by
    rw [merged, List.foldl_append, ← reader.properties_classLike ns]
  have constants : c.constants = (reader.declaredConstants decl ++
      offered.filterMap VirtualMember.constant?).foldl .insertIfAbsent {} := by
    rw [merged, List.foldl_append, ← reader.constants_classLike ns]
  have others : c = { d.symbol with
      methods := c.methods, properties := c.properties, constants := c.constants
      parents, interfaces, traits } := by
    rw [merged]
  refine ⟨?_, ?_, ?_, parents, interfaces, traits, others, hp, hi, ht⟩
  · apply isMerge_firsts _ (reader.declaredMethods_concrete decl)
    · exact List.forall_mem_filterMap.2 fun _ _ _ added => VirtualMember.method?_virtual added
    · rw [methods]
      exact Collection.toList_foldl_insertIfAbsent fun m _ => m.answersTo_name
  · apply isMerge_firsts _ fun p hp => (reader.declaredProperties_concrete decl p hp).1
    · exact List.forall_mem_filterMap.2 fun _ _ _ added => VirtualMember.property?_virtual added
    · rw [properties]
      apply Collection.toList_foldl_insertIfAbsent
      intro p hp
      apply Property.answersTo_name
      rcases List.mem_append.1 hp with hp | hp
      · exact (reader.declaredProperties_concrete decl p hp).2
      · exact ClassLike.offered_plain plain hp
  · apply isMerge_firsts _ (reader.declaredConstants_concrete decl)
    · exact List.forall_mem_filterMap.2 fun _ _ _ added => VirtualMember.constant?_virtual added
    · rw [constants]
      exact Collection.toList_foldl_insertIfAbsent fun c _ => c.answersTo_name

end Reflector

/-! ### A documented class -/

def documentedComment : String := "/**@property $a\n@property $b\n@method B()*/"

def documented : String :=
  "<?php " ++ documentedComment ++ "class P\x7bvar $a;function f()\x7b\x7d\x7d"

def documentedDecl : ClassDecl :=
  .mk ⟨48, 78⟩ .classDecl [] "P" [] [] ⟨55, 78⟩ [
    .property ⟨56, 63⟩ [] none [.mk "$a" none],
    .method ⟨63, 77⟩ [] "f" [] none (some (.mk ⟨75, 77⟩ []))]

set_option maxRecDepth 100000 in
theorem reading_documented : Reading.of documented =
    { text := documented.toList
      program := {
        statements := [.markup ⟨0, 5⟩, .classLike documentedDecl]
        comments := [⟨⟨6, 48⟩, true, documentedComment⟩] } } := by
  cbv

theorem docComment?_documented :
    (Reading.of documented).docComment? 48 = some documentedComment ∧
      (Reading.of documented).docComment? 56 = none ∧
      (Reading.of documented).docComment? 63 = none := by
  rw [reading_documented]
  exact ⟨by cbv, by cbv, by cbv⟩

theorem parse_documentedComment : Docblock.parse documentedComment =
    { tags := [⟨"property", "$a"⟩, ⟨"property", "$b"⟩, ⟨"method", "B()"⟩] } := by
  cbv

/-- The class as declared, and what its comment says of it. -/
def declaredDocumented : DeclaredClass where
  symbol := {
    name := "P"
    methods := ⟨[{ name := "f", owner := "P" }]⟩
    properties := ⟨[{ name := "a", owner := "P" }]⟩
    startOffset := 55
    endOffset := 78 }
  docblock := { tags := [⟨"property", "$a"⟩, ⟨"property", "$b"⟩, ⟨"method", "B()"⟩] }

theorem members_documented (resolver : Resolver) :
    let reader : Reader := ⟨.of documented, resolver⟩
    reader.property "P" ⟨56, 63⟩ [] none "$a" none = { name := "a", owner := "P" } ∧
      reader.method "P" ⟨63, 77⟩ [] "f" [] none = { name := "f", owner := "P" } := by
  obtain ⟨-, property, method⟩ := docComment?_documented
  simp only [Reader.property, Reader.method, Reader.docblock?, property, method]
  exact ⟨rfl, rfl⟩

theorem classLike_documented (resolver : Resolver) :
    Reader.classLike ⟨.of documented, resolver⟩ none documentedDecl = declaredDocumented := by
  obtain ⟨own, -, -⟩ := docComment?_documented
  obtain ⟨property, method⟩ := members_documented resolver
  have promoted : Reader.promoted ⟨.of documented, resolver⟩ "P" ⟨63, 77⟩ "f" [] = [] := rfl
  simp only [documentedDecl, Reader.classLike, Reader.docblock?, own, Option.map_some,
    parse_documentedComment, List.foldl_cons, List.foldl_nil, Members.add, Reader.methodsOf,
    Reader.propertiesOf, Reader.constantsOf, List.map_cons, List.map_nil, property, method,
    promoted]
  rfl

/-- Offers a method for each property that the class-like has so far, the method `F` and the
constant `K`. -/
def Provider.accessors : Provider := fun c =>
  (c.symbol.properties.toList.map fun p => .method { name := p.name, owner := c.symbol.name }) ++
    [.method { name := "F", owner := c.symbol.name },
      .constant { name := "K", owner := c.symbol.name }]

theorem Provider.accessors_plain : Provider.accessors.IsPlain := by
  intro c q offered
  simp [accessors] at offered

theorem offered_documented : declaredDocumented.offered {} [.docblock, .accessors] = [
    .property { name := "a", owner := "P", isVirtual := true, ty := .mixed },
    .property { name := "b", owner := "P", isVirtual := true, ty := .mixed },
    .method { name := "B", owner := "P", isVirtual := true },
    .method { name := "a", owner := "P" },
    .method { name := "b", owner := "P" },
    .method { name := "F", owner := "P" },
    .constant { name := "K", owner := "P" }] := by
  cbv

/-- The documented property `a` and the method `F` meet declared members, and the method `b` meets
the documented `B`. There is a method `b` at all only because the property was documented. -/
theorem Reflector.complete_merges_documented :
    let r : Reflector := { providers := [.docblock, .accessors] }
    let reader : Reader := ⟨.of documented, r.resolver⟩
    let d := reader.classLike none documentedDecl
    let offered := d.offered r.resolver r.providers
    let c := ((r.complete none d).run {}).1
    (∀ p ∈ r.providers, p.IsPlain) ∧
      .classLike none documentedDecl ∈ declaredByAll none reader.reading.program.statements ∧
      IsCompletion reader documentedDecl d.symbol offered c ∧
      (offered.filterMap VirtualMember.property?).map (·.name) = ["a", "b"] ∧
      (offered.filterMap VirtualMember.method?).map (·.name) = ["B", "a", "b", "F"] ∧
      (c.properties.toList.map fun p => (p.name, p.isVirtual)) = [("a", false), ("b", true)] ∧
      (c.methods.toList.map fun m => (m.name, m.isVirtual)) =
        [("f", false), ("B", true), ("a", true)] ∧
      (c.constants.toList.map fun k => (k.name, k.isVirtual)) = [("K", true)] := by
  intro r reader d offered c
  have plain : ∀ p ∈ r.providers, p.IsPlain := by
    intro p among
    rcases List.mem_pair.1 among with rfl | rfl
    · exact Provider.docblock_plain
    · exact Provider.accessors_plain
  have listed :
      .classLike none documentedDecl ∈ declaredByAll none reader.reading.program.statements := by
    dsimp only [reader]
    rw [reading_documented]
    exact List.mem_cons_self
  have merges : IsCompletion reader documentedDecl d.symbol offered c :=
    r.complete_merges reader none documentedDecl plain none {}
  have among : offered = _ :=
    (congrArg (DeclaredClass.offered · {} r.providers) (classLike_documented {})).trans
      offered_documented
  have methods : reader.declaredMethods documentedDecl = [{ name := "f", owner := "P" }] :=
    congrArg ([·]) (members_documented {}).2
  have properties : reader.declaredProperties documentedDecl = [{ name := "a", owner := "P" }] :=
    congrArg ([·]) (members_documented {}).1
  refine ⟨plain, listed, merges, ?_⟩
  rw [merges.methods.eq_firsts, merges.properties.eq_firsts, merges.constants.eq_firsts, among,
    methods, properties]
  decide

end PhpSymbols
