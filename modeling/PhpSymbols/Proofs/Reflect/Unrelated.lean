import PhpSymbols.Proofs.Reflect.Supertypes

/-!
# Setting a source

A source that is set in a temporary locator changes nothing but what it declares itself.

* `textFor?_setSource`: other names keep their texts;
* `known_setSource`: other supertypes stay as they are known, and those that the new source has a
  text for are what it says;
* `named_setSource`: so a symbol of another name stays found and stays as it was, but for its
  supertypes, after any requests.
-/

namespace PhpSymbols
open Php

theorem TemporaryLocator.textFor?_setSource [Frontend] (l : TemporaryLocator) (source n : String) :
    (l.setSource source).textFor? n =
      if indexKey n ∈ declaredNames source then some source else l.textFor? n :=
  l.lookup_setSource source (indexKey n)

/-- Nothing is known of a declared supertype but its name. -/
theorem Declarations.supertype_eq [Frontend] {resolver : Resolver} {text : String}
    {d : DeclaredClass} (declared : d ∈ (Declarations.of resolver text).classes) {t : Supertype}
    (mem : t ∈ d.symbol.supertypes) : t = ⟨t.name, none, false⟩ := by
  let reader : Reader := ⟨.of text, resolver⟩
  obtain ⟨ns, decl, -, rfl⟩ := reader.mem_classes.1 declared
  rw [Reader.supertypes_classLike] at mem
  obtain ⟨w, -, rfl⟩ := List.mem_map.1 mem
  rfl

theorem ClassLike.mapSupertypes_congr {f g : Supertype → Supertype} {c : ClassLike}
    (same : ∀ t ∈ c.supertypes, f t = g t) : c.mapSupertypes f = c.mapSupertypes g := by
  have parents (t : Supertype) (mem : t ∈ c.parents) : f t = g t :=
    same t (List.mem_append_left _ (List.mem_append_left _ mem))
  have interfaces (t : Supertype) (mem : t ∈ c.interfaces) : f t = g t :=
    same t (List.mem_append_left _ (List.mem_append_right _ mem))
  have traits (t : Supertype) (mem : t ∈ c.traits) : f t = g t :=
    same t (List.mem_append_right _ mem)
  rw [mapSupertypes, mapSupertypes, List.map_congr_left parents, List.map_congr_left interfaces,
    List.map_congr_left traits]

theorem ClassLike.mapSupertypes_comp (f g : Supertype → Supertype) (c : ClassLike) :
    (c.mapSupertypes f).mapSupertypes g = c.mapSupertypes (g ∘ f) := by
  simp [mapSupertypes]

namespace ReflectorBy
variable [Frontend] {κ : Type} {key : String → κ} (r : ReflectorBy key) (l : TemporaryLocator)
  (text source : String)

theorem registeredClass?_setSource (n : String) :
    r.registeredClass? (l.setSource source) n =
      if indexKey n ∈ declaredNames source then (Declarations.of r.resolver source).findClass? n
      else r.registeredClass? l n := by
  rw [registeredClass?, TemporaryLocator.textFor?_setSource]
  split <;> rfl

/-- What is known of a supertype of a class-like in `text` once `source` was set: `text` goes before
all others, and then `source` goes before what was known. -/
def renewed (t : Supertype) : Supertype :=
  if (r.context text).bind (·.findClass? t.name) = none ∧
      indexKey t.name ∈ declaredNames source then
    Supertype.declaredBy ⟨t.name, none, false⟩
      ((Declarations.of r.resolver source).findClass? t.name)
  else t

/-- Only what is known of a supertype that `source` has a declaration for may change, and then it is
what `source` says. -/
def Renews (renew : Supertype → Supertype) : Prop :=
  ∀ t, renew t = t ∨ indexKey t.name ∈ declaredNames source ∧ renew t =
    Supertype.declaredBy ⟨t.name, none, false⟩
      ((Declarations.of r.resolver source).findClass? t.name)

theorem renews_renewed : r.Renews source (r.renewed text source) := by
  intro t
  rw [renewed]
  split
  · rename_i here
    exact .inr ⟨here.2, rfl⟩
  · exact .inl rfl

theorem name_known (t : Supertype) : (r.known l text t).name = t.name := by
  rw [known]
  cases ((r.context text).bind (·.findClass? t.name)).or (r.registeredClass? l t.name) <;> rfl

theorem known_setSource {t : Supertype} (bare : t = ⟨t.name, none, false⟩) :
    r.known (l.setSource source) text t = r.renewed text source (r.known l text t) := by
  rw [renewed, name_known, known, known, registeredClass?_setSource]
  cases (r.context text).bind (·.findClass? t.name) with
  | some e =>
    rw [Option.some_or, Option.some_or, if_neg]
    rintro ⟨unknown, -⟩
    exact Option.some_ne_none e unknown
  | none =>
    by_cases declared : indexKey t.name ∈ declaredNames source
    · rw [if_pos declared, if_pos ⟨rfl, declared⟩, Option.none_or, ← bare]
    · rw [if_neg declared, if_neg fun here => declared here.2]

theorem completed_setSource {d : DeclaredClass}
    (declared : d ∈ (Declarations.of r.resolver text).classes) :
    r.completed (r.known (l.setSource source) text) d =
      (r.completed (r.known l text) d).mapSupertypes (r.renewed text source) := by
  rw [completed, completed, ClassLike.mapSupertypes_comp]
  apply ClassLike.mapSupertypes_congr
  intro t mem
  obtain ⟨parents, interfaces, traits⟩ := d.supertypes_withVirtualMembers r.resolver r.providers
  rw [ClassLike.supertypes, parents, interfaces, traits] at mem
  exact r.known_setSource l text source (Declarations.supertype_eq declared mem)

/-! ### What a name stands for -/

variable {n : String}

theorem classFor?_setSource (elsewhere : indexKey n ∉ declaredNames source) :
    ∃ renew, r.Renews source renew ∧
      r.classFor? (l.setSource source) n = (r.classFor? l n).map (.mapSupertypes renew) := by
  rw [classFor?, classFor?, TemporaryLocator.textFor?_setSource, if_neg elsewhere]
  cases l.textFor? n with
  | none => exact ⟨id, fun t => .inl rfl, rfl⟩
  | some text =>
    refine ⟨r.renewed text source, r.renews_renewed text source, ?_⟩
    rw [Option.bind_some, Option.bind_some]
    cases found : (Declarations.of r.resolver text).classes.find? (Named.answersTo ·.symbol n) with
    | none => rfl
    | some d =>
      exact congrArg some (r.completed_setSource l text source (List.mem_of_find?_eq_some found))

/-- A source that declares no class-like of the name does not bring one in. -/
theorem classFor?_setSource_eq_none
    (other : (Declarations.of r.resolver source).findClass? n = none)
    (missing : r.classFor? l n = none) : r.classFor? (l.setSource source) n = none := by
  by_cases here : indexKey n ∈ declaredNames source
  · rw [Declarations.findClass?, List.find?_map] at other
    rw [classFor?, TemporaryLocator.textFor?_setSource, if_pos here, Option.bind_some]
    exact Option.map_eq_none_iff.2 (Option.map_eq_none_iff.1 other)
  · obtain ⟨renew, -, same⟩ := r.classFor?_setSource l source here
    rw [same, missing, Option.map_none]

theorem functionFor?_setSource (elsewhere : indexKey n ∉ declaredNames source) :
    r.functionFor? (l.setSource source) n = r.functionFor? l n := by
  rw [functionFor?, functionFor?, TemporaryLocator.textFor?_setSource, if_neg elsewhere]

theorem functionFor?_setSource_eq_none
    (other : (Declarations.of r.resolver source).functions.find? (Named.answersTo · n) = none)
    (missing : r.functionFor? l n = none) : r.functionFor? (l.setSource source) n = none := by
  by_cases here : indexKey n ∈ declaredNames source
  · rw [functionFor?, TemporaryLocator.textFor?_setSource, if_pos here, Option.bind_some, other]
  · rw [r.functionFor?_setSource l source here, missing]

end ReflectorBy

namespace Reflector
variable (r : Reflector) {s : Session} {l : TemporaryLocator}

variable {r} in
theorem Uses.setSource [Frontend] [Walker] (uses : r.Uses l s) (source : String) :
    r.Uses (l.setSource source) ((r.answer (.edit 0 (.setSource source))).run s).2 := by
  refine ⟨uses.faithful, ?_⟩
  change s.locators.modify 0 (Edit.setSource source).apply = _
  rw [uses.only]
  rfl

/-- After any requests to a session with a temporary locator alone, a source is set that declares no
class-like called `n`. Then what was not found is not found. If the source declares nothing under
the key of `n`, what was found stays as it was, but for its supertypes: of those that the source
declares, it is known what the source says. For functions it is the same, and they have no
supertypes. -/
theorem named_setSource [Frontend] [Walker] (faithful : s.Faithful r.resolver)
    (only : s.locators = [.temporary l]) (requests : List Request) (n source : String) :
    let reached := ((r.answers requests).run s).2
    let set : Reflect Answer := r.answer (.edit 0 (.setSource source))
    ((Declarations.of r.resolver source).findClass? n = none →
      let asked := (r.classNamed n).run reached
      let again := (r.classNamed n).run (set.run asked.2).2
      (∀ e, asked.1 = .error e → again.1 = .error e) ∧
      (indexKey n ∉ declaredNames source → ∃ renew, r.Renews source renew ∧
        again.1 = asked.1.map (.mapSupertypes renew))) ∧
    ((Declarations.of r.resolver source).functions.find? (Named.answersTo · n) = none →
      let asked := (r.functionNamed n).run reached
      let again := (r.functionNamed n).run (set.run asked.2).2
      (∀ e, asked.1 = .error e → again.1 = .error e) ∧
      (indexKey n ∉ declaredNames source → again.1 = asked.1)) := by
  intro reached set
  obtain ⟨l', uses⟩ := r.exists_uses_answers requests ⟨faithful, only⟩
  constructor
  · intro other asked again
    have before : asked.1 = _ := uses.run_classNamed n
    have after : again.1 = _ := ((uses.run (.classNamed n)).setSource source).run_classNamed n
    rw [before, after]
    constructor
    · intro e failed
      obtain ⟨missing, rfl⟩ := ReflectorBy.answerFor_eq_error.1 failed
      exact ReflectorBy.answerFor_eq_error.2
        ⟨r.classFor?_setSource_eq_none l' source other missing, rfl⟩
    · intro elsewhere
      obtain ⟨renew, renews, same⟩ := r.classFor?_setSource l' source elsewhere
      refine ⟨renew, renews, ?_⟩
      rw [same, ReflectorBy.answerFor_map]
  · intro other asked again
    have before : asked.1 = _ := uses.run_functionNamed n
    have after : again.1 = _ :=
      ((uses.run (.functionNamed n)).setSource source).run_functionNamed n
    rw [before, after]
    constructor
    · intro e failed
      obtain ⟨missing, rfl⟩ := ReflectorBy.answerFor_eq_error.1 failed
      exact ReflectorBy.answerFor_eq_error.2
        ⟨r.functionFor?_setSource_eq_none l' source other missing, rfl⟩
    · intro elsewhere
      rw [r.functionFor?_setSource l' source elsewhere]

end Reflector

/-! ### A class and its parent -/

def heir : String := "<?php class A extends B{} function f(){}"

def heirClass : ClassLike :=
  { name := "A", parents := [.ofName "B"], startOffset := 23, endOffset := 25 }

def heirFunction : Function := { name := "f" }

def base : String := "<?php class B{}"

def baseClass : ClassLike := { name := "B", startOffset := 13, endOffset := 15 }

set_option maxRecDepth 100000 in
theorem declarations_heir : Declarations.of {} heir =
    { classes := [{ symbol := heirClass }], functions := [heirFunction] } := by
  cbv

set_option maxRecDepth 100000 in
theorem declarations_base : Declarations.of {} base = { classes := [{ symbol := baseClass }] } := by
  cbv

theorem declaredNames_base : declaredNames base = ["b"] := by
  rw [declaredNames, declarations_base]
  rfl

theorem setSource_heir :
    ({} : TemporaryLocator).setSource heir = ⟨[("f", heir), ("a", heir)]⟩ := by
  rw [TemporaryLocator.setSource, declaredNames, declarations_heir]
  rfl

theorem setSource_base : (({} : TemporaryLocator).setSource heir).setSource base =
    ⟨[("b", base), ("f", heir), ("a", heir)]⟩ := by
  rw [setSource_heir, TemporaryLocator.setSource, declaredNames_base]
  decide

/-- The parent of `A` is looked for among what is registered, since it is not declared with it. -/
theorem classFor?_heir {l : TemporaryLocator} (registered : l.textFor? "A" = some heir)
    {found : Option ClassLike} (sought : ({} : Reflector).registeredClass? l "B" = found) :
    ({} : Reflector).classFor? l "A" =
      some { heirClass with parents := [Supertype.declaredBy (.ofName "B") found] } := by
  have own : (Declarations.of {} heir).findClass? "B" = none := by
    rw [declarations_heir]
    decide
  have known : ({} : Reflector).known l heir (.ofName "B") =
      Supertype.declaredBy (.ofName "B") found := by
    change Supertype.declaredBy _ (Option.or ((Declarations.of {} heir).findClass? "B")
      (({} : Reflector).registeredClass? l "B")) = _
    rw [own, sought]
    rfl
  rw [ReflectorBy.classFor?, registered, Option.bind_some, declarations_heir, ← known]
  rfl

theorem functionFor?_heir :
    ({} : Reflector).functionFor? (({} : TemporaryLocator).setSource heir) "f" =
      some heirFunction := by
  rw [setSource_heir]
  change (Declarations.of {} heir).functions.find? _ = _
  rw [declarations_heir]
  decide

/-- The parent of `A` is registered after `A` itself was found. -/
theorem Reflector.named_setSource_parent :
    let r : Reflector := {}
    let s : Session := { locators := [.temporary {}], cache := some [] }
    let requests : List Request := [.edit 0 (.setSource heir)]
    let reached := ((r.answers requests).run s).2
    let set : Reflect Answer := r.answer (.edit 0 (.setSource base))
    let askedClass := (r.classNamed "A").run reached
    let askedFunction := (r.functionNamed "f").run reached
    s.Faithful r.resolver ∧ s.locators = [.temporary {}] ∧
    (Declarations.of r.resolver base).findClass? "A" = none ∧
    (Declarations.of r.resolver base).functions.find? (Named.answersTo · "f") = none ∧
    indexKey "A" ∉ declaredNames base ∧ indexKey "f" ∉ declaredNames base ∧
    askedClass.1 = .ok heirClass ∧
    (∃ renew, r.Renews base renew ∧
      ((r.classNamed "A").run (set.run askedClass.2).2).1 = .ok (heirClass.mapSupertypes renew)) ∧
    askedFunction.1 = .ok heirFunction ∧
    ((r.functionNamed "f").run (set.run askedFunction.2).2).1 = .ok heirFunction := by
  intro r s requests reached set askedClass askedFunction
  have faithful : s.Faithful r.resolver := by
    intro known cached source d mem
    obtain rfl := Option.some.inj cached
    exact absurd mem List.not_mem_nil
  have other : (Declarations.of r.resolver base).findClass? "A" = none := by
    change (Declarations.of {} base).findClass? "A" = none
    rw [declarations_base]
    decide
  have otherFunction : (Declarations.of r.resolver base).functions.find?
      (Named.answersTo · "f") = none := by
    change (Declarations.of {} base).functions.find? _ = none
    rw [declarations_base]
    rfl
  have free : indexKey "A" ∉ declaredNames base ∧ indexKey "f" ∉ declaredNames base := by
    rw [declaredNames_base]
    decide
  have uses : r.Uses (({} : TemporaryLocator).setSource heir) reached :=
    Uses.setSource ⟨faithful, rfl⟩ heir
  have foundClass : askedClass.1 = .ok heirClass := by
    rw [uses.run_classNamed, setSource_heir, classFor?_heir rfl rfl]
    rfl
  have foundFunction : askedFunction.1 = .ok heirFunction := by
    rw [uses.run_functionNamed, functionFor?_heir]
    rfl
  obtain ⟨renew, renews, same⟩ :=
    ((r.named_setSource faithful rfl requests "A" base).1 other).2 free.1
  have sameFunction := ((r.named_setSource faithful rfl requests "f" base).2 otherFunction).2 free.2
  refine ⟨faithful, rfl, other, otherFunction, free.1, free.2, foundClass, ⟨renew, renews, ?_⟩,
    foundFunction, sameFunction.trans foundFunction⟩
  exact same.trans (congrArg (Except.map (ClassLike.mapSupertypes renew)) foundClass)

/-- It is known that the parent of `A` is a class once it is registered. -/
theorem Reflector.named_setSource_resolved :
    ¬ ∀ (edits : List Edit) (n source : String), (∀ e ∈ edits, e.SetsSources) →
      let r : Reflector := {}
      let reached := ((r.answers (edits.map (.edit 0))).run { locators := [.temporary {}] }).2
      let set : Reflect Answer := r.answer (.edit 0 (.setSource source))
      let asked := (r.classNamed n).run reached
      (Declarations.of r.resolver source).findClass? n = none →
      ((r.classNamed n).run (set.run asked.2).2).1 = asked.1 := by
  intro all
  let r : Reflector := {}
  have start : r.Uses {} { locators := [.temporary {}] } :=
    ⟨fun _ cached => absurd cached nofun, rfl⟩
  have uses := start.setSource heir
  have before := uses.run_classNamed "A"
  have after := ((uses.run (.classNamed "A")).setSource base).run_classNamed "A"
  have known : ({} : Reflector).registeredClass? ⟨[("b", base), ("f", heir), ("a", heir)]⟩ "B" =
      some baseClass := by
    change (Declarations.of {} base).findClass? "B" = _
    rw [declarations_base]
    decide
  rw [setSource_heir, classFor?_heir rfl rfl] at before
  rw [setSource_base, classFor?_heir rfl known] at after
  have same := all [.setSource heir] "A" base (by simp [Edit.SetsSources]) (by
    change (Declarations.of {} base).findClass? "A" = none
    rw [declarations_base]
    decide)
  have same := (after.symm.trans same).trans before
  exact absurd same (by decide)

end PhpSymbols
