import PhpSymbols.Proofs.Reflect.Indexed
import PhpSymbols.Proofs.Source.Walked

/-!
# Symbols of walked files

A directory locator answers for a name with one text; a symbol is found if this text declares it.

* `exists_classNamed_iff`, `exists_functionNamed_iff`: with a directory locator alone, what is found
  under a name;
* `named_walked`: so a symbol that is declared in a file which the walks reach is found by its
  name, unless another text is looked at in place of it.
-/

namespace PhpSymbols
open Php

/-- What has the key of a name as its qualified name is declared under the key. -/
theorem mem_declaredNames_of_fqn [Frontend] (resolver : Resolver) {text n : String}
    (declares : (∃ d ∈ (Declarations.of resolver text).classes,
        indexKey d.symbol.fqn = indexKey n) ∨
      ∃ f ∈ (Declarations.of resolver text).functions, indexKey f.fqn = indexKey n) :
    indexKey n ∈ declaredNames text := by
  let reader : Reader := ⟨.of text, resolver⟩
  obtain ⟨d, listed, same⟩ :=
    (reader.exists_listed_iff fun _ fqn => indexKey fqn = indexKey n).1 declares
  exact mem_declaredNames.2 ⟨d, listed, mem_keysOf.2 (.inr same.symm)⟩

namespace ReflectorBy
variable {κ : Type} {key : String → κ} [DecidableEq κ] (r : ReflectorBy key) {s : SessionBy key}
  {l : DirectoryLocator}

/-- A class-like of the text answers to the name. -/
def HasClass [Frontend] (n text : String) : Prop :=
  ∃ d ∈ (Declarations.of r.resolver text).classes, Named.answersTo d.symbol n = true

def HasFunction [Frontend] (n text : String) : Prop :=
  ∃ f ∈ (Declarations.of r.resolver text).functions, Named.answersTo f n = true

omit [DecidableEq κ] in
/-- What a search looks at is the text that the locator finds for the name. -/
theorem run_searchAll_walked [Frontend] [Walker] {α : Type} (fresh : l.index = none)
    (only : s.locators = [.directory l]) (n : String)
    (look : String → ReflectBy key (Option α)) :
    ((Session.searchAll n look).run s).1 = (l.textFor? n).bind fun text =>
      ((look text).run { s with locators := [.directory (l.locate n).2] }).1 := by
  have located : Locator.locate (.directory l) n =
      ((l.locate n).1, .directory (l.locate n).2) := rfl
  rw [Session.run_searchAll_single only, located, l.locate_eq fresh]
  cases l.textFor? n <;> rfl

theorem exists_classNamed_iff [Frontend] [Walker] (fresh : l.index = none)
    (only : s.locators = [.directory l]) (faithful : ∀ text, s.FaithfulTo r.resolver text)
    (n : String) :
    (∃ c, ((r.classNamed n).run s).1 = .ok c) ↔
      ∃ text, l.textFor? n = some text ∧ r.HasClass n text := by
  simp only [run_classNamed, answerFor_eq_ok, run_searchAll_walked fresh only,
    Option.bind_eq_some_iff]
  rw [exists_comm]
  apply exists_congr
  intro text
  have faithful : SessionBy.FaithfulTo r.resolver
      { s with locators := [.directory (l.locate n).2] } text := faithful text
  rw [exists_and_left]
  exact and_congr_right fun _ => r.exists_find?_classesIn_iff faithful n

theorem exists_functionNamed_iff [Frontend] [Walker] (fresh : l.index = none)
    (only : s.locators = [.directory l]) (faithful : ∀ text, s.FaithfulTo r.resolver text)
    (n : String) :
    (∃ f, ((r.functionNamed n).run s).1 = .ok f) ↔
      ∃ text, l.textFor? n = some text ∧ r.HasFunction n text := by
  simp only [run_functionNamed, answerFor_eq_ok, run_searchAll_walked fresh only,
    Option.bind_eq_some_iff]
  rw [exists_comm]
  apply exists_congr
  intro text
  have faithful : SessionBy.FaithfulTo r.resolver
      { s with locators := [.directory (l.locate n).2] } text := faithful text
  rw [exists_and_left]
  exact and_congr_right fun _ => r.exists_find?_functionsIn_iff faithful n

/-- A file that the walks of the roots reach declares a class-like with the qualified name `n`, but
for case and leading backslashes. Then a class-like is found by this name, the first time that the
locator is asked, exactly if it is not hidden: neither by a file that stands where the name says,
nor, if there is none, by a file that is walked first and declares something else under the name.
It is the same for functions. -/
theorem named_walked [Frontend] [Walker] (fresh : l.index = none)
    (only : s.locators = [.directory l]) (faithful : ∀ text, s.FaithfulTo r.resolver text)
    {p : Path} {text : String} (walked : p ∈ l.files) (read : l.tree.readText? p = some text)
    (n : String) :
    ((∃ d ∈ (Declarations.of r.resolver text).classes, indexKey d.symbol.fqn = indexKey n) →
      ((∃ c, ((r.classNamed n).run s).1 = .ok c) ↔ ¬ l.Hides n (r.HasClass n))) ∧
    ((∃ f ∈ (Declarations.of r.resolver text).functions, indexKey f.fqn = indexKey n) →
      ((∃ f, ((r.functionNamed n).run s).1 = .ok f) ↔ ¬ l.Hides n (r.HasFunction n))) := by
  have among : text ∈ l.texts := List.mem_filterMap.2 ⟨p, walked, read⟩
  constructor
  · intro declares
    rw [r.exists_classNamed_iff fresh only faithful]
    exact l.exists_textFor?_iff among (mem_declaredNames_of_fqn r.resolver (.inl declares))
  · intro declares
    rw [r.exists_functionNamed_iff fresh only faithful]
    exact l.exists_textFor?_iff among (mem_declaredNames_of_fqn r.resolver (.inr declares))

end ReflectorBy

/-! ### Two files -/

def unconventional : String := "<?php namespace N; class A{} function f(){}"

def classOfFile : ClassLike := { name := "A", ns := some "N", startOffset := 26, endOffset := 28 }

def functionOfFile : Function := { name := "f", ns := some "N" }

def unconventionalLocator : DirectoryLocator :=
  { tree := { files := [(["src", "N", "B.php"], .text "<?php "),
      (["src", "x.php"], .text unconventional)] }
    roots := [["src"]] }

set_option maxRecDepth 100000 in
theorem declarations_unconventional : Declarations.of {} unconventional =
    { classes := [{ symbol := classOfFile }], functions := [functionOfFile] } := by
  cbv

theorem declarations_blank : Declarations.of {} "<?php " = {} := by
  cbv

theorem files_unconventional :
    unconventionalLocator.files = [["src", "N", "B.php"], ["src", "x.php"]] := by
  cbv

theorem texts_unconventional : unconventionalLocator.texts = ["<?php ", unconventional] := by
  rw [DirectoryLocator.texts, files_unconventional]
  rfl

theorem declaredNames_blank : declaredNames "<?php " = [] := by
  rw [declaredNames, declarations_blank]
  rfl

/-- What the file declares is not hidden: no file stands where its name says, and the other file
declares nothing. -/
theorem not_hides_unconventional {n : String} {declares : String → Prop}
    (unspelled : unconventionalLocator.conventionalPath? n = none)
    (holds : declares unconventional) : ¬ unconventionalLocator.Hides n declares := by
  rintro (⟨_, spelled, -⟩ | ⟨-, before, first, behind, split, -, here, none⟩)
  · exact absurd (unspelled.symm.trans spelled) nofun
  · have among : first ∈ unconventionalLocator.texts :=
      split ▸ List.mem_append_right before List.mem_cons_self
    rw [texts_unconventional, List.mem_cons, List.mem_singleton] at among
    rcases among with rfl | rfl
    · rw [declaredNames_blank] at here
      exact absurd here List.not_mem_nil
    · exact none holds

/-- A class and a function are found in a file with another name. -/
theorem ReflectorBy.named_walked_unconventional :
    let r : Reflector := {}
    let l := unconventionalLocator
    let s : Session := { locators := [.directory l] }
    l.index = none ∧ s.locators = [.directory l] ∧ (∀ text, s.FaithfulTo r.resolver text) ∧
    ["src", "x.php"] ∈ l.files ∧ l.tree.readText? ["src", "x.php"] = some unconventional ∧
    (∃ d ∈ (Declarations.of r.resolver unconventional).classes,
      indexKey d.symbol.fqn = indexKey "\\N\\A") ∧
    (∃ f ∈ (Declarations.of r.resolver unconventional).functions,
      indexKey f.fqn = indexKey "N\\F") ∧
    (∃ c, ((r.classNamed "\\N\\A").run s).1 = .ok c) ∧
    ∃ f, ((r.functionNamed "N\\F").run s).1 = .ok f := by
  intro r l s
  have faithful (text : String) : s.FaithfulTo r.resolver text :=
    SessionBy.faithfulTo_of_uncached rfl text
  have walked : ["src", "x.php"] ∈ l.files := by
    change _ ∈ unconventionalLocator.files
    rw [files_unconventional]
    decide
  have read : l.tree.readText? ["src", "x.php"] = some unconventional := rfl
  have declares : (∃ d ∈ (Declarations.of r.resolver unconventional).classes,
      indexKey d.symbol.fqn = indexKey "\\N\\A") ∧
      ∃ f ∈ (Declarations.of r.resolver unconventional).functions,
        indexKey f.fqn = indexKey "N\\F" := by
    change (∃ d ∈ (Declarations.of {} unconventional).classes, _) ∧
      ∃ f ∈ (Declarations.of {} unconventional).functions, _
    rw [declarations_unconventional]
    exact ⟨⟨_, List.mem_singleton_self _, by decide⟩, _, List.mem_singleton_self _, by decide⟩
  have hasClass : r.HasClass "\\N\\A" unconventional := by
    change ∃ d ∈ (Declarations.of {} unconventional).classes, _
    rw [declarations_unconventional]
    exact ⟨_, List.mem_singleton_self _, by decide⟩
  have hasFunction : r.HasFunction "N\\F" unconventional := by
    change ∃ f ∈ (Declarations.of {} unconventional).functions, _
    rw [declarations_unconventional]
    exact ⟨_, List.mem_singleton_self _, by decide⟩
  have foundClass := (r.named_walked rfl rfl faithful walked read "\\N\\A").1 declares.1
  have foundFunction := (r.named_walked rfl rfl faithful walked read "N\\F").2 declares.2
  exact ⟨rfl, rfl, faithful, walked, read, declares.1, declares.2,
    foundClass.2 (not_hides_unconventional (by cbv) hasClass),
    foundFunction.2 (not_hides_unconventional (by cbv) hasFunction)⟩

def decoyed : String := "<?php class A{}"

def decoyedClass : ClassLike := { name := "A", startOffset := 13, endOffset := 15 }

def decoyedLocator : DirectoryLocator :=
  { tree := { files := [(["src", "A.php"], .text "<?php "), (["src", "x.php"], .text decoyed)] }
    roots := [["src"]] }

set_option maxRecDepth 100000 in
theorem declarations_decoyed : Declarations.of {} decoyed =
    { classes := [{ symbol := decoyedClass }] } := by
  cbv

/-- A file that stands where the name says hides the class, though it declares nothing. -/
theorem ReflectorBy.named_walked_decoyed :
    ¬ ∀ (l : DirectoryLocator) (p : Path) (text n : String), l.index = none → p ∈ l.files →
      l.tree.readText? p = some text →
      let r : Reflector := {}
      let s : Session := { locators := [.directory l] }
      (∃ d ∈ (Declarations.of r.resolver text).classes,
        sameIgnoringCase d.symbol.fqn n = true) →
      ∃ c, ((r.classNamed n).run s).1 = .ok c := by
  intro all
  have files : decoyedLocator.files = [["src", "A.php"], ["src", "x.php"]] := by cbv
  have looked : decoyedLocator.textFor? "A" = some "<?php " := by
    have spelled : decoyedLocator.conventionalPath? "A" = some ["src", "A.php"] := by cbv
    rw [DirectoryLocator.textFor?, spelled]
    rfl
  have found := all decoyedLocator ["src", "x.php"] decoyed "A" rfl
    (by rw [files]; decide) rfl (by
      change ∃ d ∈ (Declarations.of {} decoyed).classes, _
      rw [declarations_decoyed]
      exact ⟨_, List.mem_singleton_self _, by decide⟩)
  rw [exists_classNamed_iff _ rfl rfl fun text => SessionBy.faithfulTo_of_uncached rfl text,
    looked] at found
  obtain ⟨text, same, d, declared, -⟩ := found
  obtain rfl := Option.some.inj same
  change d ∈ (Declarations.of {} "<?php ").classes at declared
  rw [declarations_blank] at declared
  exact absurd declared List.not_mem_nil

end PhpSymbols
