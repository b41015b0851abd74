import PhpSymbols.Proofs.Php.Lawful
import PhpSymbols.Proofs.Reflect.History
import PhpSymbols.Proofs.Reflect.Lookup
import PhpSymbols.Proofs.Source.Keys

/-!
# The index and the look-up of names

A locator registers a source under the names it declares; a reflector looks for a declaration with
the name in the source. A qualified name with a leading backslash is only known to the index.

* `mem_declaredNames`, `finds_iff`: both in terms of the declarations that a source lists;
* `mem_declaredNames_iff`: so they agree on a name, unless it is declared with a leading backslash;
* `exists_locate_iff`: and so do locating and reflecting a name, with a single temporary locator;
* `index_agrees`: after sources were set and cleared, too.
-/

namespace PhpSymbols
open Php

namespace Declared

def fqn (d : Declared) : String := qualify d.space d.short

theorem not_hasRoot_short [Frontend] [LawfulFrontend] {source : String} {d : Declared}
    (listed : d ∈ declaredIn source) : ¬ HasRoot d.short :=
  fun starts => (wellRead listed).short (List.mem_of_mem_head? starts)

end Declared

namespace Reader
variable (r : Reader)

theorem name_classLike (ns : Option String) (d : ClassDecl) :
    (r.classLike ns d).symbol.name = d.name ∧ (r.classLike ns d).symbol.ns = ns := by
  cases d
  exact ⟨rfl, rfl⟩

/-- What holds of the names of something that is read holds of those of a listed declaration. -/
theorem exists_listed_iff (p : (short fqn : String) → Prop) :
    ((∃ c ∈ r.declarations.classes, p c.symbol.name c.symbol.fqn) ∨
      ∃ f ∈ r.declarations.functions, p f.name f.fqn) ↔ ∃ d ∈ r.listed, p d.short d.fqn := by
  have of_classLike (ns : Option String) (d : ClassDecl) :
      p (r.classLike ns d).symbol.name (r.classLike ns d).symbol.fqn ↔
        p (Declared.classLike ns d).short (Declared.classLike ns d).fqn := by
    obtain ⟨name, space⟩ := r.name_classLike ns d
    rw [ClassLike.fqn, name, space]
    rfl
  have of_function (ns : Option String) (d : FunctionDecl) :
      p (r.function ns d).name (r.function ns d).fqn ↔
        p (Declared.function ns d).short (Declared.function ns d).fqn := by
    obtain ⟨name, space⟩ := r.name_function ns d
    rw [Function.fqn, name, space]
    rfl
  constructor
  · rintro (⟨c, mem, holds⟩ | ⟨f, mem, holds⟩)
    · obtain ⟨ns, d, listed, rfl⟩ := r.mem_classes.1 mem
      exact ⟨_, listed, (of_classLike ns d).1 holds⟩
    · obtain ⟨ns, d, listed, rfl⟩ := r.mem_functions.1 mem
      exact ⟨_, listed, (of_function ns d).1 holds⟩
  · rintro ⟨d, listed, holds⟩
    cases d with
    | classLike ns d =>
      exact .inl ⟨_, r.mem_classes.2 ⟨ns, d, listed, rfl⟩, (of_classLike ns d).2 holds⟩
    | function ns d =>
      exact .inr ⟨_, r.mem_functions.2 ⟨ns, d, listed, rfl⟩, (of_function ns d).2 holds⟩

end Reader

/-- The keys of a source are those of the declarations that it lists. -/
theorem mem_declaredNames [Frontend] {k source : String} :
    k ∈ declaredNames source ↔ ∃ d ∈ declaredIn source, k ∈ keysOf d.short d.fqn := by
  rw [declaredNames, List.mem_append, List.mem_flatMap, List.mem_flatMap]
  exact Reader.exists_listed_iff ⟨Reading.of source, {}⟩ fun short fqn => k ∈ keysOf short fqn

/-- The source declares what has the key of `n` as its qualified name, but with a backslash in
front of it. -/
def DeclaresRooted [Frontend] (source n : String) : Prop :=
  ∃ d ∈ declaredIn source, HasRoot d.fqn ∧ indexKey d.fqn = indexKey n

namespace ReflectorBy
variable {κ : Type} {key : String → κ} [DecidableEq κ] (r : ReflectorBy key) {s : SessionBy key}
  {source n : String}

/-- A session finds a class-like or a function of this name in the source. -/
def Finds [Frontend] [Walker] (s : SessionBy key) (source n : String) : Prop :=
  (∃ c, ((r.classesIn source).run s).1.find? n = some c) ∨
    ∃ f, ((r.functionsIn source).run s).1.find? n = some f

theorem finds_iff [Frontend] [Walker] (faithful : s.FaithfulTo r.resolver source) :
    r.Finds s source n ↔ ∃ d ∈ declaredIn source, answersToQualified d.short d.fqn n = true := by
  rw [Finds, r.exists_find?_classesIn_iff faithful, r.exists_find?_functionsIn_iff faithful]
  exact (r.reader source).exists_listed_iff fun short fqn => answersToQualified short fqn n = true

/-- The key of a name is among those of a source if something of the name is found in it, or if it
is declared with a leading backslash. -/
theorem mem_declaredNames_iff [Frontend] [LawfulFrontend] [Walker]
    (faithful : s.FaithfulTo r.resolver source) (single : ¬ HasRoot (unrooted n)) :
    indexKey n ∈ declaredNames source ↔ r.Finds s source n ∨ DeclaresRooted source n := by
  have keys (d : Declared) (listed : d ∈ declaredIn source) :
      indexKey n ∈ keysOf d.short d.fqn ↔ answersToQualified d.short d.fqn n = true ∨
        HasRoot d.fqn ∧ indexKey d.fqn = indexKey n :=
    mem_keysOf_iff (Declared.not_hasRoot_short listed) single
  rw [mem_declaredNames, r.finds_iff faithful, DeclaresRooted]
  constructor
  · rintro ⟨d, listed, known⟩
    rcases (keys d listed).1 known with answers | rooted
    · exact .inl ⟨d, listed, answers⟩
    · exact .inr ⟨d, listed, rooted⟩
  · rintro (⟨d, listed, answers⟩ | ⟨d, listed, rooted⟩)
    · exact ⟨d, listed, (keys d listed).2 (.inl answers)⟩
    · exact ⟨d, listed, (keys d listed).2 (.inr rooted)⟩

/-! ### A single temporary locator -/

/-- With a single temporary locator, a name stands for what is found in its source. -/
theorem finds_iff_named [Frontend] [Walker] {l : TemporaryLocator}
    (single : s.locators = [.temporary l]) (located : l.locate n = .ok source) :
    r.Finds s source n ↔ (∃ c, ((r.classNamed n).run s).1 = .ok c) ∨
      ∃ f, ((r.functionNamed n).run s).1 = .ok f := by
  have found : Locator.locate (.temporary l) n = (.ok source, .temporary l) := by
    rw [Locator.locate, located]
  have same : { s with locators := [.temporary l] } = s := by rw [← single]
  simp only [r.run_classNamed_single single, r.run_functionNamed_single single, found, same,
    answerFor_eq_ok, Finds]

theorem not_named [Frontend] [Walker] {l : TemporaryLocator}
    (single : s.locators = [.temporary l]) {e : ReflectError} (missing : l.locate n = .error e) :
    ¬ ((∃ c, ((r.classNamed n).run s).1 = .ok c) ∨
      ∃ f, ((r.functionNamed n).run s).1 = .ok f) := by
  have found : Locator.locate (.temporary l) n = (.error e, .temporary l) := by
    rw [Locator.locate, missing]
  simp [r.run_classNamed_single single, r.run_functionNamed_single single, found, answerFor]

/-- If all its sources were registered under what they declare, the locator has a source for a name
exactly if the name stands for something, or is declared there with a leading backslash. -/
theorem exists_locate_iff [Frontend] [LawfulFrontend] [Walker] {l : TemporaryLocator}
    (declaring : l.IsDeclaring) (only : s.locators = [.temporary l])
    (faithful : ∀ text, l.locate n = .ok text → s.FaithfulTo r.resolver text)
    (single : ¬ HasRoot (unrooted n)) :
    (∃ text, l.locate n = .ok text) ↔
      ((∃ c, ((r.classNamed n).run s).1 = .ok c) ∨ ∃ f, ((r.functionNamed n).run s).1 = .ok f) ∨
        ∃ text, l.locate n = .ok text ∧ DeclaresRooted text n := by
  constructor
  · rintro ⟨text, located⟩
    have indexed := declaring.locate located
    rw [r.mem_declaredNames_iff (faithful text located) single,
      r.finds_iff_named only located] at indexed
    exact indexed.imp_right fun rooted => ⟨text, located, rooted⟩
  · rintro (named | ⟨text, located, -⟩)
    · cases located : l.locate n with
      | error e => exact absurd named (r.not_named only located)
      | ok text => exact ⟨text, rfl⟩
    · exact ⟨text, located⟩

end ReflectorBy

/-- Sources are only set and cleared. -/
def Edit.SetsSources : Edit → Prop
  | .setSource _ | .clear => True
  | .insert _ _ | .write _ _ | .remove _ | .addDirectory _ => False

/-- Such an edit registers sources under keys of what they declare. -/
theorem Edit.exists_apply [Frontend] {e : Edit} (sets : e.SetsSources) {l : TemporaryLocator}
    (declaring : l.IsDeclaring) :
    ∃ l' : TemporaryLocator, l'.IsDeclaring ∧ e.apply (.temporary l) = .temporary l' := by
  cases e with
  | setSource source => exact ⟨l.setSource source, declaring.setSource source, rfl⟩
  | clear => exact ⟨l.clear, TemporaryLocator.isDeclaring_empty, rfl⟩
  | insert | write | remove | addDirectory => exact sets.elim

theorem Edit.exists_foldl [Frontend] {edits : List Edit} (all : ∀ e ∈ edits, e.SetsSources)
    {l : TemporaryLocator} (declaring : l.IsDeclaring) :
    ∃ l' : TemporaryLocator, l'.IsDeclaring ∧
      edits.foldl (fun l e => e.apply l) (.temporary l) = .temporary l' := by
  induction edits generalizing l with
  | nil => exact ⟨l, declaring, rfl⟩
  | cons e edits ih =>
    obtain ⟨l', declaring', same⟩ := exists_apply (all e List.mem_cons_self) declaring
    rw [List.foldl_cons, same]
    exact ih (fun e mem => all e (List.mem_cons_of_mem _ mem)) declaring'

/-- A name with one leading backslash at most is in the index of a source exactly if something of
the name is found in it, or if it is declared as a qualified name with a leading backslash. So,
after sources were set in a temporary locator and it was cleared any number of times, the name is
located exactly if it stands for a class-like or a function, or if its source declares it with a
leading backslash. -/
theorem ReflectorBy.index_agrees [Frontend] [LawfulFrontend] [Walker] {κ : Type}
    {key : String → κ} [DecidableEq κ] (r : ReflectorBy key) {n : String}
    (single : ¬ HasRoot (unrooted n)) :
    (∀ (s : SessionBy key) (source : String), s.FaithfulTo r.resolver source →
      (indexKey n ∈ declaredNames source ↔ r.Finds s source n ∨ DeclaresRooted source n)) ∧
    ∀ edits : List Edit, (∀ e ∈ edits, e.SetsSources) →
      let l := edits.foldl (fun l e => e.apply l) (Locator.temporary {})
      ∀ s : SessionBy key, s.locators = [l] →
        (∀ text, (l.locate n).1 = .ok text → s.FaithfulTo r.resolver text) →
        ((∃ text, (l.locate n).1 = .ok text) ↔
          ((∃ c, ((r.classNamed n).run s).1 = .ok c) ∨
            ∃ f, ((r.functionNamed n).run s).1 = .ok f) ∨
          ∃ text, (l.locate n).1 = .ok text ∧ DeclaresRooted text n) := by
  refine ⟨fun s source faithful => r.mem_declaredNames_iff faithful single, ?_⟩
  intro edits all l s only faithful
  obtain ⟨l', declaring, same⟩ := Edit.exists_foldl all TemporaryLocator.isDeclaring_empty
  have same : l = .temporary l' := same
  rw [same] at only faithful ⊢
  exact r.exists_locate_iff declaring only faithful single

/-! ### A namespace with a leading backslash -/

def rooted : String := "<?php namespace \\A; class B {}"

def rootedClass : ClassDecl := .mk ⟨20, 30⟩ .classDecl [] "B" [] [] ⟨28, 30⟩ []

set_option maxRecDepth 100000 in
theorem reading_rooted : Reading.of rooted =
    { text := rooted.toList
      program := { statements :=
        [.markup ⟨0, 5⟩, .ns ⟨6, 30⟩ (some "\\A") [.classLike rootedClass]] } } := by
  cbv

theorem declaredIn_rooted : declaredIn rooted = [.classLike (some "\\A") rootedClass] := by
  rw [declaredIn, reading_rooted]
  rfl

theorem declaredNames_rooted : declaredNames rooted = ["a\\b", "b"] := by
  rw [declaredNames, Declarations.of, reading_rooted]
  rfl

theorem setSource_rooted :
    ({} : TemporaryLocator).setSource rooted = ⟨[("b", rooted), ("a\\b", rooted)]⟩ := by
  rw [TemporaryLocator.setSource, declaredNames_rooted]
  rfl

/-- By its short name, the class is found in its source, and so it is once the source was set. -/
theorem ReflectorBy.index_agrees_short :
    let r : Reflector := {}
    let edits : List Edit := [.clear, .setSource rooted]
    let s : Session := { locators := [.temporary (({} : TemporaryLocator).setSource rooted)] }
    ¬ HasRoot (unrooted "\\b") ∧ s.FaithfulTo r.resolver rooted ∧ (∀ e ∈ edits, e.SetsSources) ∧
    r.Finds s rooted "\\b" ∧
    ((∃ c, ((r.classNamed "\\b").run s).1 = .ok c) ∨
      ∃ f, ((r.functionNamed "\\b").run s).1 = .ok f) := by
  intro r edits s
  have single : ¬ HasRoot (unrooted "\\b") := by decide
  have faithful : s.FaithfulTo r.resolver rooted := SessionBy.faithfulTo_of_uncached rfl _
  have all : ∀ e ∈ edits, e.SetsSources := by simp [edits, Edit.SetsSources]
  have known : indexKey "\\b" ∈ declaredNames rooted := by
    rw [declaredNames_rooted]
    decide
  have plain : ¬ DeclaresRooted rooted "\\b" := by
    rw [DeclaresRooted, declaredIn_rooted]
    rintro ⟨d, mem, -, same⟩
    rw [List.mem_singleton.1 mem] at same
    exact absurd same (by decide)
  have located : (({} : TemporaryLocator).setSource rooted).locate "\\b" = .ok rooted := by
    rw [setSource_rooted]
    rfl
  obtain ⟨indexed, registered⟩ := r.index_agrees single
  have named := (registered edits all s rfl fun _ _ => SessionBy.faithfulTo_of_uncached rfl _).1
    ⟨rooted, located⟩
  refine ⟨single, faithful, all, ((indexed s rooted faithful).1 known).resolve_right plain, ?_⟩
  refine named.resolve_right ?_
  rintro ⟨text, found, declares⟩
  obtain rfl := Except.ok.inj (located.symm.trans found)
  exact plain declares

/-- By its qualified name, the class is located, but it is not found in its source. -/
theorem ReflectorBy.index_agrees_rooted :
    let r : Reflector := {}
    let l := ({} : TemporaryLocator).setSource rooted
    let s : Session := { locators := [.temporary l] }
    ¬ HasRoot (unrooted "A\\B") ∧
    ¬ (indexKey "A\\B" ∈ declaredNames rooted ↔ r.Finds s rooted "A\\B") ∧
    ¬ ((∃ text, l.locate "A\\B" = .ok text) ↔
      (∃ c, ((r.classNamed "A\\B").run s).1 = .ok c) ∨
        ∃ f, ((r.functionNamed "A\\B").run s).1 = .ok f) := by
  intro r l s
  have known : indexKey "A\\B" ∈ declaredNames rooted := by
    rw [declaredNames_rooted]
    decide
  have located : l.locate "A\\B" = .ok rooted := by
    change (({} : TemporaryLocator).setSource rooted).locate "A\\B" = _
    rw [setSource_rooted]
    rfl
  have missed : ¬ r.Finds s rooted "A\\B" := by
    rw [r.finds_iff (SessionBy.faithfulTo_of_uncached rfl _), declaredIn_rooted]
    rintro ⟨d, mem, answers⟩
    rw [List.mem_singleton.1 mem] at answers
    exact absurd answers (by decide)
  refine ⟨by decide, fun agrees => missed (agrees.1 known), fun agrees => missed ?_⟩
  rw [r.finds_iff_named rfl located]
  exact agrees.1 ⟨rooted, located⟩

end PhpSymbols
