import PhpSymbols.Proofs.Reflect.Qualified
import PhpSymbols.Proofs.Reflect.Registered

/-!
# What is known of supertypes

A supertype is looked up by its name without the backslash in front of it, and so by a short name
as well.

* `Php.ClassDecl.supertypes`: the supertypes of a declaration as they are written;
* `same_fqn_iff`: a declaration that answers to a name has it as its qualified name, unless the
  name has a single segment and the declaration a namespace;
* `ReflectorBy.Knows`: what is known of a supertype comes from a declaration that answers to it, in
  the source or in a text that a locator has for it;
* `knows_supertypes`: so it is for all supertypes of all class-likes of a source.
-/

namespace PhpSymbols
open Php Text

/-! ### Supertypes as written -/

def usedNames : Member → List String
  | .traitUse _ names => names
  | .method .. | .property .. | .hookedProperty .. | .constant .. | .enumCase .. => []

/-- The names that a declaration extends, implements and uses, in this order. -/
def Php.ClassDecl.supertypes : ClassDecl → List String
  | .mk _ _ _ _ parents interfaces _ members =>
    parents ++ interfaces ++ members.flatMap usedNames

theorem Reader.supertypes_classLike (r : Reader) (ns : Option String) (d : ClassDecl) :
    (r.classLike ns d).symbol.supertypes = d.supertypes.map Supertype.ofName := by
  obtain ⟨_, _, _, name, parents, interfaces, _, members⟩ := d
  have traits : (members.foldl (Members.add r name) {}).traits =
      members.flatMap usedTraits := by
    rw [r.foldl_add name members {}]
    rfl
  have used : usedTraits = fun m => (usedNames m).map Supertype.ofName := by
    funext m
    cases m <;> rfl
  change parents.map _ ++ interfaces.map _ ++ (members.foldl (Members.add r name) {}).traits =
    (parents ++ interfaces ++ members.flatMap usedNames).map _
  rw [traits, List.map_append, List.map_append, List.map_flatMap, used]

/-- The name by which a supertype is looked up has no backslash in front. -/
theorem unrooted_ofName (written : String) :
    unrooted (Supertype.ofName written).name = (Supertype.ofName written).name := by
  have plain := List.head?_dropWhile_not (· == '\\') written.toList
  rw [Supertype.ofName, unrooted, String.toList_ofList, stripFirst_of_head?_ne]
  intro starts
  rw [starts] at plain
  exact absurd plain (by decide)

/-! ### Declarations that answer to a name -/

/-- A declaration that is found in a text by a name has the name, as its short or its qualified
one. -/
theorem exists_of_findClass? [Frontend] {resolver : Resolver} {text n : String} {e : ClassLike}
    (found : (Declarations.of resolver text).findClass? n = some e) :
    (∃ d ∈ declaredIn text, e.name = d.short ∧ e.ns = d.space) ∧
      (sameIgnoringCase e.name (unrooted n) = true ∨
        sameIgnoringCase e.fqn (unrooted n) = true) := by
  have answers := List.find?_some found
  obtain ⟨d, declared, rfl⟩ := List.mem_map.1 (List.mem_of_find?_eq_some found)
  let reader : Reader := ⟨Reading.of text, resolver⟩
  obtain ⟨ns, decl, listed, rfl⟩ := reader.mem_classes.1 declared
  exact ⟨⟨.classLike ns decl, listed, reader.name_classLike ns decl⟩,
    Bool.or_eq_true_iff.1 answers⟩

/-- What is found by a name is what the name stands for if the name has several segments or the
declaration no namespace; otherwise only its short name is the same. -/
theorem same_fqn_iff [Frontend] [LawfulFrontend] {resolver : Resolver} {text n : String}
    {e : ClassLike} (found : (Declarations.of resolver text).findClass? n = some e)
    (plain : unrooted n = n) :
    sameIgnoringCase e.fqn n = true ↔ '\\' ∈ n.toList ∨ e.ns = none := by
  obtain ⟨⟨d, listed, name, space⟩, answers⟩ := exists_of_findClass? found
  rw [plain] at answers
  constructor
  · intro same
    by_cases global : e.ns = none
    · exact .inr global
    · have named : e.ns ≠ some "" := space ▸ Declared.space_ne_empty listed
      exact .inl ((mem_iff_of_same same).1 (mem_qualify global named e.name))
  · rintro (segments | global)
    · refine answers.resolve_left fun short => (Declared.wellRead listed).short ?_
      rw [← name]
      exact (mem_iff_of_same short).2 segments
    · have same : e.fqn = e.name := by
        rw [ClassLike.fqn, global]
        rfl
      rw [same] at answers ⊢
      exact answers.elim id id

/-! ### What a session knows -/

namespace ReflectorBy
variable {κ : Type} {key : String → κ}

/-- The first class-like that answers to `n` in the source itself, if the reflector looks there, or
in a text that a locator has for `n`. -/
def Offers [Frontend] (r : ReflectorBy key) (s : SessionBy key) (source n : String)
    (e : ClassLike) : Prop :=
  (r.isContextual = true ∧ (Declarations.of r.resolver source).findClass? n = some e) ∨
    ∃ l ∈ s.locators, ∃ text, l.Holds n text ∧
      (Declarations.of r.resolver text).findClass? n = some e

/-- What is known of the supertype written `w` in the source. -/
structure Knows [Frontend] (r : ReflectorBy key) (s : SessionBy key) (source w : String)
    (t : Supertype) :
    Prop where
  name : t.name = (Supertype.ofName w).name
  /-- A declaration in the source goes before all others. -/
  own : r.isContextual = true → ∀ e,
    (Declarations.of r.resolver source).findClass? t.name = some e →
    t.kind = some e.kind ∧ t.isAbstract = e.isAbstract
  /-- What is known is what a declaration says that is offered under the name. It need not be what
  the name stands for. -/
  origin : ∀ k, t.kind = some k → ∃ e, r.Offers s source t.name e ∧ e.kind = k ∧
    e.isAbstract = t.isAbstract ∧
    (sameIgnoringCase e.fqn t.name = true ↔ '\\' ∈ t.name.toList ∨ e.ns = none)
  unknown : t.kind = none → t.isAbstract = false

end ReflectorBy

namespace Reflector
variable {r : Reflector} {start s : Session}

/-- What reflection keeps: the sources, and that what is remembered of them is true. -/
structure Keeps [Frontend] (r : Reflector) (start s : Session) : Prop where
  follows : start.Follows s
  faithful : s.Faithful r.resolver

theorem Keeps.run [Frontend] [Walker] [LawfulWalker] {α : Type} {m : Reflect α}
    (traced : r.Traced m) (kept : Keeps r start s) :
    Keeps r start (m.run s).2 := by
  obtain ⟨_, parsed⟩ := traced s
  exact ⟨parsed.follows kept.follows, faithful_of_parses parsed kept.faithful⟩

/-- A supertype's declaration is looked for in the context, and then in located texts. -/
theorem offers_of_supertypeDeclaration? [Frontend] [Walker] [LawfulWalker] {source n : String}
    {e : ClassLike} (kept : Keeps r start s)
    (found : ((r.supertypeDeclaration? (r.context source) n).run s).1 = some e) :
    r.Offers start source n e := by
  rw [ReflectorBy.supertypeDeclaration?] at found
  split at found
  · rename_i c own
    obtain rfl := Option.some.inj found
    rw [ReflectorBy.context] at own
    split at own
    · rename_i contextual
      exact .inl ⟨contextual, own⟩
    · exact (Option.some_ne_none c own.symm).elim
  · have looks (text : String) := (ReflectorBy.Traced.declarations (r := r) text).bind fun d =>
      .pure (d.findClass? n)
    obtain ⟨l, mem, text, holds, s', kept, seen⟩ :=
      ReflectorBy.exists_of_searchAll Keeps.run (fun _ => Keeps.follows) looks found kept
    refine .inr ⟨l, mem, text, holds, ?_⟩
    rw [← r.run_declarations (kept.faithful.to text)]
    exact seen

theorem knows_completeSupertype [Frontend] [LawfulFrontend] [Walker] [LawfulWalker]
    {source : String} (w : String) (kept : Keeps r start s) :
    r.Knows start source w
      ((r.completeSupertype (r.context source) (Supertype.ofName w)).run s).1 := by
  rw [ReflectorBy.run_completeSupertype]
  dsimp only
  generalize sought : ((r.supertypeDeclaration? _ _).run s).1 = found
  have name : ((Supertype.ofName w).declaredBy found).name = (Supertype.ofName w).name := by
    cases found <;> rfl
  refine ⟨name, ?_, ?_, ?_⟩
  · intro contextual e own
    rw [name] at own
    rw [ReflectorBy.supertypeDeclaration?, ReflectorBy.context, if_pos contextual,
      Option.bind_some, own] at sought
    obtain rfl := sought
    exact ⟨rfl, rfl⟩
  · intro k known
    rw [name]
    cases found with
    | none => exact (Option.some_ne_none k known.symm).elim
    | some e =>
      obtain rfl := Option.some.inj known
      have offered := offers_of_supertypeDeclaration? kept sought
      refine ⟨e, offered, rfl, rfl, ?_⟩
      rcases offered with ⟨-, own⟩ | ⟨_, _, _, -, located⟩
      · exact same_fqn_iff own (unrooted_ofName w)
      · exact same_fqn_iff located (unrooted_ofName w)
  · intro unknown
    cases found with
    | none => rfl
    | some e => exact (Option.some_ne_none e.kind unknown).elim

variable (r) in
/-- Whatever a class-like of a source extends, implements or uses, with or without a backslash in
front of its name: what is known of it is what the first class-like says that answers to the name,
in the source or in a text that a locator has for the name. That is the class-like which the name
stands for exactly if the name has several segments or the class-like no namespace. -/
theorem knows_supertypes [Frontend] [LawfulFrontend] [Walker] [LawfulWalker]
    (faithful : s.Faithful r.resolver) (rooted : ∀ l ∈ s.locators, l.Rooted) (source : String) :
    ∀ c ∈ ((r.classesIn source).run s).1.toList, ∃ ns d, .classLike ns d ∈ declaredIn source ∧
      r.Completes ((r.reader source).classLike ns d) c ∧
      List.Forall₂ (r.Knows s source) d.supertypes c.supertypes := by
  intro c mem
  have kept : Keeps r s s := ⟨⟨rooted, rfl, id⟩, faithful⟩
  let R (t t' : Supertype) : Prop := ∀ w, t = .ofName w → r.Knows s source w t'
  have step (t : Supertype) (s' : Session) (kept : Keeps r s s') :
      R t ((r.completeSupertype (r.context source) t).run s').1 ∧
        Keeps r s ((r.completeSupertype (r.context source) t).run s').2 := by
    refine ⟨?_, kept.run (.completeSupertype _ t)⟩
    rintro w rfl
    exact knows_completeSupertype w kept
  obtain ⟨completed, -⟩ := r.completesBy_classesIn (R := R) (faithful.to source) step
    (kept.run (.declarations source))
  obtain ⟨_, declared, completes⟩ := exists_of_forall₂ completed mem
  obtain ⟨ns, d, listed, rfl⟩ := (r.reader source).mem_classes.1 declared
  refine ⟨ns, d, listed, ?_, ?_⟩
  · obtain ⟨parents, interfaces, traits, same, -⟩ := completes
    exact ⟨parents, interfaces, traits, same⟩
  · have known := completes.supertypes
    rw [Reader.supertypes_classLike, List.forall₂_map_left_iff] at known
    exact known.imp fun w t knows => knows w rfl

end Reflector

/-! ### Two classes with one short name -/

def child : String := "<?php namespace N; class S extends \\M\\S {}"

def childClass : ClassLike :=
  { name := "S", ns := some "N", parents := [.ofName "\\M\\S"], startOffset := 40, endOffset := 42 }

def parent : String := "<?php namespace M; abstract class S {}"

def parentClass : ClassLike :=
  { name := "S", ns := some "M", isAbstract := true, startOffset := 36, endOffset := 38 }

set_option maxRecDepth 100000 in
theorem declarations_child :
    Declarations.of {} child = { classes := [{ symbol := childClass }] } := by
  cbv

set_option maxRecDepth 100000 in
theorem declarations_parent :
    Declarations.of {} parent = { classes := [{ symbol := parentClass }] } := by
  cbv

theorem setSource_parent :
    ({} : TemporaryLocator).setSource parent = ⟨[("s", parent), ("m\\s", parent)]⟩ := by
  rw [TemporaryLocator.setSource, declaredNames, declarations_parent]
  rfl

/-- The parent is looked up where it was registered; the class that extends it has another qualified
name. -/
theorem Reflector.knows_supertypes_registered :
    let r : Reflector := {}
    let s : Session := { locators := [.temporary (({} : TemporaryLocator).setSource parent)] }
    s.Faithful r.resolver ∧ (∀ l ∈ s.locators, l.Rooted) ∧
    ∃ c ∈ ((r.classesIn child).run s).1.toList,
      c.supertypes = [⟨"M\\S", some .classDecl, true⟩] ∧
      ∃ ns d, .classLike ns d ∈ declaredIn child ∧
        r.Completes ((r.reader child).classLike ns d) c ∧
        List.Forall₂ (r.Knows s child) d.supertypes c.supertypes := by
  intro r s
  have faithful : s.Faithful r.resolver := fun _ cached => absurd cached nofun
  have rooted : ∀ l ∈ s.locators, l.Rooted := by
    intro l mem
    obtain rfl := List.mem_singleton.1 mem
    trivial
  have uses : r.Uses (({} : TemporaryLocator).setSource parent) s := ⟨faithful, rfl⟩
  have found : Supertype.declaredBy (.ofName "\\M\\S") (some parentClass) =
      ⟨"M\\S", some .classDecl, true⟩ := by decide
  have known : r.known (({} : TemporaryLocator).setSource parent) child (.ofName "\\M\\S") =
      ⟨"M\\S", some .classDecl, true⟩ := by
    rw [ReflectorBy.known, ReflectorBy.registeredClass?, TemporaryLocator.textFor?,
      setSource_parent, ← found]
    change Supertype.declaredBy _ (Option.or ((Declarations.of {} child).findClass? "M\\S")
      ((Declarations.of {} parent).findClass? "M\\S")) = _
    rw [declarations_child, declarations_parent]
    rfl
  let c := r.completed (r.known (({} : TemporaryLocator).setSource parent) child) ⟨childClass, {}⟩
  have listed : ((r.classesIn child).run s).1.toList = [c] := by
    rw [uses.run_classesIn]
    change (Declarations.of {} child).classes.map _ = _
    rw [declarations_child]
    rfl
  have mem : c ∈ ((r.classesIn child).run s).1.toList := listed ▸ List.mem_singleton_self c
  refine ⟨faithful, rooted, c, mem, ?_, r.knows_supertypes faithful rooted child c mem⟩
  change [r.known _ child (.ofName "\\M\\S")] = _
  rw [known]

def orphan : String := "<?php namespace N; class S extends \\S {}"

def orphanDecl : ClassDecl := .mk ⟨19, 40⟩ .classDecl [] "S" ["\\S"] [] ⟨38, 40⟩ []

set_option maxRecDepth 100000 in
theorem reading_orphan : Reading.of orphan =
    { text := orphan.toList
      program := { statements :=
        [.markup ⟨0, 5⟩, .ns ⟨6, 40⟩ (some "N") [.classLike orphanDecl]] } } := by
  cbv

theorem declaredIn_orphan : declaredIn orphan = [.classLike (some "N") orphanDecl] := by
  rw [declaredIn, reading_orphan]
  rfl

theorem declarations_orphan (resolver : Resolver) :
    Declarations.of resolver orphan =
      { classes := [Reader.classLike ⟨.of orphan, resolver⟩ (some "N") orphanDecl] } := by
  rw [Declarations.of, Reader.declarations, reading_orphan]
  rfl

/-- A class that extends one of no namespace is taken for its own parent, since it has the same
short name. -/
theorem Reflector.knows_supertypes_orphan :
    ¬ ∀ source : String, let r : Reflector := {}
      let s : Session := { locators := [.temporary {}] }
      ∀ c ∈ ((r.classesIn source).run s).1.toList, ∀ ns d, .classLike ns d ∈ declaredIn source →
        r.Completes ((r.reader source).classLike ns d) c →
        List.Forall₂ (fun w t => HasRoot w → ∀ k, t.kind = some k →
          ∃ e, r.Offers s source t.name e ∧ e.kind = k ∧ e.isAbstract = t.isAbstract ∧
            sameIgnoringCase e.fqn t.name = true) d.supertypes c.supertypes := by
  intro all
  let r : Reflector := {}
  let s : Session := { locators := [.temporary {}] }
  have uses : r.Uses {} s := ⟨fun _ cached => absurd cached nofun, rfl⟩
  let d := (r.reader orphan).classLike (some "N") orphanDecl
  have own : (Declarations.of {} orphan).findClass? "S" = some d.symbol := by
    rw [declarations_orphan]
    rfl
  have known : r.known {} orphan (.ofName "\\S") = ⟨"S", some .classDecl, false⟩ := by
    change Supertype.declaredBy _ (Option.or ((Declarations.of {} orphan).findClass? "S") _) = _
    rw [own]
    rfl
  have listed : ((r.classesIn orphan).run s).1.toList = [r.completed (r.known {} orphan) d] := by
    rw [uses.run_classesIn, declarations_orphan]
    rfl
  have related := all orphan _ (listed ▸ List.mem_singleton_self _) (some "N") orphanDecl
    (declaredIn_orphan ▸ List.mem_singleton_self _) ⟨_, _, _, rfl⟩
  change List.Forall₂ _ ["\\S"] [r.known {} orphan (.ofName "\\S")] at related
  rw [known, List.forall₂_cons] at related
  obtain ⟨e, offered, -, -, same⟩ := related.1 (by decide) .classDecl rfl
  rcases offered with ⟨-, found⟩ | ⟨l, mem, text, holds, -⟩
  · obtain rfl := Option.some.inj (own.symm.trans found)
    exact absurd same (by decide)
  · obtain rfl := List.mem_singleton.1 mem
    exact absurd holds nofun

end PhpSymbols
