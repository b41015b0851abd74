import Mathlib.Data.List.Find
import PhpSymbols.Proofs.Reflect.Indexed

/-!
# Looking up qualified names

A name with a backslash in front is compared with short names like any other, and the first
declaration that answers is taken.

* `space_ne_empty`: no namespace is empty;
* `get_qualify`: so a qualified name finds its own item, unless it has a single segment and an
  earlier item has it as its short name;
* `get_fqn`: and so it is for the class-likes and the functions of a source (`get_declared`).
-/

namespace PhpSymbols
open Php Text

theorem unrooted_backslash (name : String) : unrooted ("\\" ++ name) = name := by
  have written : ("\\" ++ name).toList = '\\' :: name.toList := String.toList_append
  rw [unrooted, written, stripFirst, if_pos rfl, String.ofList_toList]

theorem sameIgnoringCase_self (name : String) : sameIgnoringCase name name = true := by
  rw [sameIgnoringCase, beq_iff_eq]

theorem mem_lower {s : List Char} : '\\' ∈ lower s ↔ '\\' ∈ s := by
  constructor
  · intro mem
    obtain ⟨c, mem, lowered⟩ := List.mem_map.1 mem
    rwa [eq_of_toLower (by decide) lowered] at mem
  · exact List.mem_map_of_mem (f := Char.toLower)

/-- Case does not tell where the backslashes are. -/
theorem mem_iff_of_same {a b : String} (same : sameIgnoringCase a b = true) :
    '\\' ∈ a.toList ↔ '\\' ∈ b.toList := by
  rw [sameIgnoringCase, beq_iff_eq] at same
  rw [← mem_lower, same, mem_lower]

theorem mem_qualify {ns : Option String} (space : ns ≠ none) (named : ns ≠ some "")
    (name : String) : '\\' ∈ (qualify ns name).toList := by
  cases ns with
  | none => exact absurd rfl space
  | some ns =>
    have notEmpty : ns.isEmpty = false := by
      rw [Bool.eq_false_iff]
      exact fun empty => named (congrArg some (String.isEmpty_iff.1 empty))
    rw [qualify, notEmpty, if_neg Bool.false_ne_true, String.toList_append, String.toList_append]
    simp

/-! ### Collections of named declarations -/

section
variable {α : Type} [Named α] (short : α → String) (space : α → Option String)
  {before behind : List α} {c : α}
  (answers : ∀ a n, Named.answersTo a n =
    answersToQualified (short a) (qualify (space a) (short a)) n)
  (alone : ∀ d ∈ before,
    sameIgnoringCase (qualify (space d) (short d)) (qualify (space c) (short c)) = false)
include answers alone

/-- What has a name is found under it, unless something in front has its qualified name as a short
one. -/
theorem find?_qualify :
    (Collection.ofList (before ++ c :: behind)).find? ("\\" ++ qualify (space c) (short c)) =
      some ((before.find? fun d =>
        sameIgnoringCase (short d) (qualify (space c) (short c))).getD c) := by
  have here : Named.answersTo c ("\\" ++ qualify (space c) (short c)) = true := by
    rw [answers, answersToQualified, unrooted_backslash, sameIgnoringCase_self, Bool.or_true]
  have first : before.find? (Named.answersTo · ("\\" ++ qualify (space c) (short c))) =
      before.find? fun d => sameIgnoringCase (short d) (qualify (space c) (short c)) := by
    apply List.find?_congr
    intro d mem
    rw [answers, answersToQualified, unrooted_backslash, alone d mem, Bool.or_false]
  rw [Collection.find?, Collection.ofList, List.find?_append, first, List.find?_cons, here]
  cases before.find? _ <;> rfl

theorem get_qualify (segments : ∀ d ∈ before, '\\' ∉ (short d).toList)
    (named : space c ≠ some "") :
    (Collection.ofList (before ++ c :: behind)).get ("\\" ++ qualify (space c) (short c)) =
        .ok ((before.find? fun d =>
          sameIgnoringCase (short d) (qualify (space c) (short c))).getD c) ∧
      ((Collection.ofList (before ++ c :: behind)).get ("\\" ++ qualify (space c) (short c)) =
          .ok c ↔
        space c ≠ none ∨ ∀ d ∈ before, sameIgnoringCase (short d) (short c) = false) := by
  have got : (Collection.ofList (before ++ c :: behind)).get
      ("\\" ++ qualify (space c) (short c)) = .ok ((before.find? fun d =>
        sameIgnoringCase (short d) (qualify (space c) (short c))).getD c) := by
    rw [Collection.get, find?_qualify short space answers alone]
  refine ⟨got, ?_⟩
  rw [got, Except.ok.injEq]
  have other (d : α) (mem : d ∈ before) : d ≠ c := by
    rintro rfl
    exact absurd ((sameIgnoringCase_self _).symm.trans (alone d mem)) nofun
  constructor
  · intro kept
    cases global : space c with
    | some ns => exact .inl nofun
    | none =>
      refine .inr fun d mem => ?_
      cases found : before.find? fun d =>
          sameIgnoringCase (short d) (qualify (space c) (short c)) with
      | none =>
        have unlike := List.find?_eq_none.1 found d mem
        rwa [global, Bool.not_eq_true] at unlike
      | some e =>
        rw [found] at kept
        exact absurd kept (other e (List.mem_of_find?_eq_some found))
  · intro free
    have none : before.find? (fun d =>
        sameIgnoringCase (short d) (qualify (space c) (short c))) = none := by
      refine List.find?_eq_none.2 fun d mem same => ?_
      by_cases global : space c = none
      · have unlike := free.resolve_left (not_not_intro global) d mem
        rw [global] at same
        exact absurd (same.symm.trans unlike) nofun
      · exact segments d mem ((mem_iff_of_same same).2 (mem_qualify global named _))
    rw [none]
    rfl

end

/-! ### Declarations of a source -/

theorem innerNamespace_ne_empty {outer name : Option String} (named : outer ≠ some "") :
    innerNamespace outer name ≠ some "" := by
  rw [innerNamespace]
  cases kept : name.filter (!·.isEmpty) with
  | none => exact named
  | some ns =>
    intro same
    obtain rfl := Option.some.inj same
    exact absurd (Option.filter_eq_some_iff.1 kept).2 (by decide)

theorem Node.Lists.space_ne_empty {d : Declared} {ns : Option String} {n : Node}
    (lists : Node.Lists d ns n) (named : ns ≠ some "") : d.space ≠ some "" := by
  induction lists with
  | here same _ => exact same ▸ named
  | branch _ _ ih => exact ih named
  | space _ _ ih => exact ih (innerNamespace_ne_empty named)

/-- A namespace without a name is none. -/
theorem Declared.space_ne_empty [Frontend] {source : String} {d : Declared}
    (listed : d ∈ declaredIn source) :
    d.space ≠ some "" := by
  obtain ⟨s, -, lists⟩ := Node.lists_of_mem _ none listed
  exact lists.space_ne_empty nofun

/-- So it is for what a source declares. -/
theorem get_declared [Frontend] [LawfulFrontend] {α : Type} [Named α] {source : String}
    (short : α → String) (space : α → Option String)
    (answers : ∀ a n,
      Named.answersTo a n = answersToQualified (short a) (qualify (space a) (short a)) n)
    {all : Collection α}
    (declared : ∀ a ∈ all.toList, ∃ d ∈ declaredIn source, short a = d.short ∧ space a = d.space)
    (before : List α) (c : α) (behind : List α) (split : all.toList = before ++ c :: behind)
    (unique : ∀ d ∈ before ++ behind,
      sameIgnoringCase (qualify (space d) (short d)) (qualify (space c) (short c)) = false) :
    all.get ("\\" ++ qualify (space c) (short c)) =
        .ok ((before.find? fun d =>
          sameIgnoringCase (short d) (qualify (space c) (short c))).getD c) ∧
      (all.get ("\\" ++ qualify (space c) (short c)) = .ok c ↔
        space c ≠ none ∨ ∀ d ∈ before, sameIgnoringCase (short d) (short c) = false) := by
  have named (a : α) (mem : a ∈ before ++ c :: behind) :
      '\\' ∉ (short a).toList ∧ space a ≠ some "" := by
    obtain ⟨d, listed, name, within⟩ := declared a (split ▸ mem)
    rw [name, within]
    exact ⟨(Declared.wellRead listed).short, Declared.space_ne_empty listed⟩
  have same : all = .ofList (before ++ c :: behind) := congrArg Collection.mk split
  rw [same]
  exact get_qualify short space answers (fun d mem => unique d (List.mem_append_left _ mem))
    (fun d mem => (named d (List.mem_append_left _ mem)).1)
    (named c (List.mem_append_right _ List.mem_cons_self)).2

namespace ReflectorBy
variable {κ : Type} {key : String → κ} [DecidableEq κ] (r : ReflectorBy key) {s : SessionBy key}
  {source : String}

/-- Class-likes have the names of declarations that the source lists. -/
theorem exists_classLike [Frontend] [Walker] (faithful : s.FaithfulTo r.resolver source)
    {c : ClassLike} (mem : c ∈ ((r.classesIn source).run s).1.toList) :
    ∃ d ∈ declaredIn source, c.name = d.short ∧ c.ns = d.space := by
  obtain ⟨d, declared, completes⟩ := exists_of_forall₂ (r.toList_classesIn faithful) mem
  obtain ⟨ns, decl, listed, rfl⟩ := (r.reader source).mem_classes.1 declared
  obtain ⟨name, space⟩ := (r.reader source).name_classLike ns decl
  obtain ⟨_, _, _, rfl⟩ := completes
  refine ⟨.classLike ns decl, listed, ?_⟩
  rw [DeclaredClass.withVirtualMembers_eq]
  exact ⟨name, space⟩

theorem exists_function [Frontend] (faithful : s.FaithfulTo r.resolver source) {f : Function}
    (mem : f ∈ ((r.functionsIn source).run s).1.toList) :
    ∃ d ∈ declaredIn source, f.name = d.short ∧ f.ns = d.space := by
  rw [r.toList_functionsIn faithful] at mem
  obtain ⟨ns, decl, listed, rfl⟩ := (r.reader source).mem_functions.1 mem
  exact ⟨.function ns decl, listed, (r.reader source).name_function ns decl⟩

/-- A qualified name that no other class-like of the source has, written with a backslash in front,
finds the first class-like that has it as a short name, and else its own. So it finds its own if it
has a namespace, and also if no class-like in front has the same short name; and so it is for
functions. -/
theorem get_fqn [Frontend] [LawfulFrontend] [Walker] (faithful : s.FaithfulTo r.resolver source) :
    let classes := ((r.classesIn source).run s).1
    let functions := ((r.functionsIn source).run s).1
    (∀ before c behind, classes.toList = before ++ c :: behind →
      (∀ d ∈ before ++ behind, sameIgnoringCase d.fqn c.fqn = false) →
      classes.get ("\\" ++ c.fqn) =
          .ok ((before.find? fun d => sameIgnoringCase d.name c.fqn).getD c) ∧
        (classes.get ("\\" ++ c.fqn) = .ok c ↔
          c.ns ≠ none ∨ ∀ d ∈ before, sameIgnoringCase d.name c.name = false)) ∧
    ∀ before f behind, functions.toList = before ++ f :: behind →
      (∀ d ∈ before ++ behind, sameIgnoringCase d.fqn f.fqn = false) →
      functions.get ("\\" ++ f.fqn) =
          .ok ((before.find? fun d => sameIgnoringCase d.name f.fqn).getD f) ∧
        (functions.get ("\\" ++ f.fqn) = .ok f ↔
          f.ns ≠ none ∨ ∀ d ∈ before, sameIgnoringCase d.name f.name = false) := by
  intro classes functions
  constructor
  · exact get_declared ClassLike.name ClassLike.ns (fun _ _ => rfl) fun _ mem =>
      r.exists_classLike faithful mem
  · exact get_declared Function.name Function.ns (fun _ _ => rfl) fun _ mem =>
      r.exists_function faithful mem

end ReflectorBy

/-! ### One name in three namespaces -/

def spaces : String :=
  "<?php namespace N{class A{}} namespace{class A{}} namespace M{class a{}}"

def classOfN : ClassLike := { name := "A", ns := some "N", startOffset := 25, endOffset := 27 }

def classOfNone : ClassLike := { name := "A", startOffset := 46, endOffset := 48 }

def classOfM : ClassLike := { name := "a", ns := some "M", startOffset := 69, endOffset := 71 }

set_option maxRecDepth 100000 in
theorem declarations_spaces : Declarations.of {} spaces =
    { classes := [{ symbol := classOfN }, { symbol := classOfNone }, { symbol := classOfM }] } := by
  cbv

theorem classesIn_spaces : (({} : Reflector).classesIn spaces).run {} =
    (⟨[classOfN, classOfNone, classOfM]⟩, {}) := by
  rw [ReflectorBy.classesIn, StateT.run_bind, ReflectorBy.run_declarations_eq]
  dsimp only
  rw [declarations_spaces]
  rfl

/-- Two class-likes called `A` stand in front of the last one, but it has a namespace of its own. -/
theorem ReflectorBy.get_fqn_spaces :
    let r : Reflector := {}
    let s : Session := {}
    let classes := ((r.classesIn spaces).run s).1
    s.FaithfulTo r.resolver spaces ∧
    classes.toList = [classOfN, classOfNone] ++ classOfM :: [] ∧
    (∀ d ∈ [classOfN, classOfNone] ++ [], sameIgnoringCase d.fqn classOfM.fqn = false) ∧
    classes.get "\\M\\a" = .ok classOfM := by
  intro r s classes
  have faithful : s.FaithfulTo r.resolver spaces := SessionBy.faithfulTo_of_uncached rfl _
  have split : classes.toList = [classOfN, classOfNone] ++ classOfM :: [] :=
    congrArg (fun found => Collection.toList found.1) classesIn_spaces
  have unique : ∀ d ∈ [classOfN, classOfNone] ++ [],
      sameIgnoringCase d.fqn classOfM.fqn = false := by decide
  obtain ⟨-, found⟩ := (r.get_fqn faithful).1 _ _ _ split unique
  exact ⟨faithful, split, unique, found.2 (.inl nofun)⟩

/-- The class of no namespace is hidden by the one in front of it, whose short name is the same. -/
theorem ReflectorBy.get_fqn_hidden :
    ¬ ∀ source : String, let classes := ((({} : Reflector).classesIn source).run {}).1
      ∀ before c behind, classes.toList = before ++ c :: behind →
        (∀ d ∈ before ++ behind, sameIgnoringCase d.fqn c.fqn = false) →
        classes.get ("\\" ++ c.fqn) = .ok c := by
  intro all
  have found := all spaces
  rw [classesIn_spaces] at found
  have found := found [classOfN] classOfNone [classOfM] rfl (by decide)
  exact absurd found (by decide)
end PhpSymbols
