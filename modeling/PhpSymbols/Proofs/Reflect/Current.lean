import PhpSymbols.Proofs.Reflect.Cached
import PhpSymbols.Proofs.Reflect.Faithful
import PhpSymbols.Proofs.Source.Rooted

/-!
# Named symbols are up to date

A session remembers texts, and its directory locators remember where names were declared. Neither
makes an answer stale.

* `SessionBy.Follows`: what questions leave as it is, the sources above all;
* `exists_of_search`: what a search finds was located and then looked at;
* `declared_of_classNamed`, `declared_of_functionNamed`: without a cache, a symbol found by its name
  is declared under this name in a text that a locator has for the name now;
* `named_current`: so it is with a cache, since that changes no answer, and after any requests.
-/

namespace PhpSymbols

variable {κ : Type} {key : String → κ}

/-- Nothing is remembered yet, and files stand at plain paths. -/
structure SessionBy.IsFresh (s : SessionBy key) : Prop where
  cache : s.cache = none ∨ s.cache = some []
  locators : ∀ l ∈ s.locators, l.IsFresh

/-- Files are written at plain paths. -/
def Edit.IsPlain : Edit → Prop
  | .write path _ => path.IsPlain
  | .setSource _ | .insert _ _ | .clear | .remove _ | .addDirectory _ => True

theorem FileTree.plain_write {t : FileTree} {p : Path} {content : Content} (plain : p.IsPlain)
    (all : ∀ f ∈ t.files, f.1.IsPlain) : ∀ f ∈ (t.write p content).files, f.1.IsPlain := by
  intro f mem
  rw [write] at mem
  split at mem
  · obtain ⟨g, old, rfl⟩ := List.mem_map.1 mem
    by_cases here : g.1 = p
    · rw [if_pos here]
      exact plain
    · rw [if_neg here]
      exact all g old
  · rcases List.mem_append.1 mem with mem | mem
    · exact all f mem
    · rw [List.mem_singleton.1 mem]
      exact plain

theorem Locator.Rooted.apply [Php.Frontend] {l : Locator} (rooted : l.Rooted) {e : Edit}
    (plain : e.IsPlain) :
    (e.apply l).Rooted := by
  cases l with
  | temporary => cases e <;> trivial
  | directory l =>
    obtain ⟨all, indexed⟩ := rooted
    cases e with
    | setSource | insert | clear | addDirectory => exact ⟨all, indexed⟩
    | write path content => exact ⟨FileTree.plain_write plain all, indexed⟩
    | remove path => exact ⟨fun f mem => all f (List.mem_filter.1 mem).1, indexed⟩

/-- `s` comes after `start` with questions only: the locators are rooted, their sources are the
same, and a cache did not appear. -/
structure SessionBy.Follows (start s : SessionBy key) : Prop where
  rooted : ∀ l ∈ s.locators, l.Rooted
  sources : s.locators.map Locator.unindexed = start.locators.map Locator.unindexed
  uncached : start.cache = none → s.cache = none

namespace ReflectorBy
variable {s start : SessionBy key}

theorem run_locate_follows [Php.Frontend] [Walker] [LawfulWalker] (i : Nat) (name : String)
    (h : start.Follows s) :
    start.Follows ((Session.locate i name).run s).2 := by
  rw [Session.run_locate]
  split
  · exact h
  · rename_i l found
    refine ⟨?_, ?_, h.uncached⟩
    · intro l' mem
      rcases List.mem_or_eq_of_mem_set mem with mem | rfl
      · exact h.rooted l' mem
      · exact (h.rooted l (List.mem_of_getElem? found)).locate name
    · obtain ⟨bound, rfl⟩ := List.getElem?_eq_some_iff.1 found
      rw [← h.sources, List.map_set, Locator.unindexed_locate,
        ← List.getElem_map Locator.unindexed (h := by simpa using bound), List.set_getElem_self]

/-- What was located is held, at the start as well as now. -/
theorem holds_of_run_locate [Php.Frontend] [Walker] [LawfulWalker] {i : Nat}
    {name source : String} (follows : start.Follows s)
    (h : ((Session.locate i name).run s).1 = .ok source) :
    ∃ l ∈ start.locators, l.Holds name source := by
  rw [Session.run_locate] at h
  split at h
  · exact absurd h nofun
  · rename_i l found
    have mem := List.mem_of_getElem? found
    have holds := Locator.holds_of_locate (follows.rooted l mem) h
    have mem := List.mem_map_of_mem (f := Locator.unindexed) mem
    rw [follows.sources] at mem
    obtain ⟨l', mem, same⟩ := List.mem_map.1 mem
    refine ⟨l', mem, ?_⟩
    rw [← Locator.holds_unindexed, same, Locator.holds_unindexed]
    exact holds

variable [DecidableEq κ] {r : ReflectorBy key}

theorem run_declarations_locators [Php.Frontend] (r : ReflectorBy key) (source : String)
    (s : SessionBy key) :
    ((r.declarations source).run s).2.locators = s.locators ∧
      (s.cache = none → ((r.declarations source).run s).2.cache = none) := by
  rw [run_declarations_eq]
  split
  · exact ⟨rfl, id⟩
  · rename_i known cached
    have never (cached' : s.cache = none) {p : Prop} : p := by
      rw [cached] at cached'
      cases cached'
    split <;> exact ⟨rfl, fun h => never h⟩

theorem Parses.follows [Php.Frontend] [Walker] [LawfulWalker] {α : Type} {m : ReflectBy key α}
    {ts : List String} (h : r.Parses m s ts) (follows : start.Follows s) :
    start.Follows (m.run s).2 := by
  induction h with
  | pure => exact follows
  | bind _ _ first then_ => exact then_ (first follows)
  | declarations source s =>
    obtain ⟨locators, uncached⟩ := r.run_declarations_locators source s
    exact ⟨by rw [locators]; exact follows.rooted, by rw [locators]; exact follows.sources,
      fun h => uncached (follows.uncached h)⟩
  | locate i name s => exact run_locate_follows i name follows
  | searchAll _ ih => exact ih follows

theorem Traced.follows [Php.Frontend] [Walker] [LawfulWalker] {α : Type} {m : ReflectBy key α}
    (traced : r.Traced m) (follows : start.Follows s) : start.Follows (m.run s).2 := by
  obtain ⟨_, parsed⟩ := traced s
  exact parsed.follows follows

/-- What a search finds was seen in a text that a locator had for the name; what a reflector's
steps keep held then. -/
theorem exists_of_search [Php.Frontend] [Walker] {P : SessionBy key → Prop}
    (kept : ∀ {β : Type} {m : ReflectBy key β} {s}, r.Traced m → P s → P (m.run s).2)
    {α : Type} {name : String} {look : String → ReflectBy key (Option α)}
    (looks : ∀ source, r.Traced (look source)) {is : List Nat} {found : α}
    (h : ((Session.search name look is).run s).1 = some found) (here : P s) :
    ∃ s' i source, P s' ∧ ((Session.locate i name).run s').1 = .ok source ∧
      ((look source).run ((Session.locate i name).run s').2).1 = some found := by
  induction is generalizing s with
  | nil => exact absurd h nofun
  | cons i is ih =>
    rw [Session.run_search_cons] at h
    have after := kept (.locate i name) here
    split at h
    · rename_i located
      rw [located] at after
      exact ih h after
    · rename_i source s' located
      rw [located] at after
      have later := kept (looks source) after
      split at h
      · rename_i seen
        refine ⟨s, i, source, here, congrArg Prod.fst located, ?_⟩
        rw [located]
        exact (congrArg Prod.fst seen).trans h
      · rename_i seen
        rw [seen] at later
        exact ih h later

theorem exists_of_searchAll [Php.Frontend] [Walker] [LawfulWalker] {P : SessionBy key → Prop}
    (kept : ∀ {β : Type} {m : ReflectBy key β} {s}, r.Traced m → P s → P (m.run s).2)
    (follows : ∀ s, P s → start.Follows s) {α : Type} {name : String}
    {look : String → ReflectBy key (Option α)} (looks : ∀ source, r.Traced (look source))
    {found : α} (h : ((Session.searchAll name look).run s).1 = some found) (here : P s) :
    ∃ l ∈ start.locators, ∃ source, l.Holds name source ∧
      ∃ s', P s' ∧ ((look source).run s').1 = some found := by
  change ((Session.search name look (List.range s.locators.length)).run s).1 = some found at h
  obtain ⟨s', i, source, held, located, seen⟩ := exists_of_search kept looks h here
  obtain ⟨l, mem, holds⟩ := holds_of_run_locate (follows s' held) located
  exact ⟨l, mem, source, holds, _, kept (.locate i name) held, seen⟩

/-! ### Without a cache -/

/-- The class-like is declared in the text under the name `n`. -/
def Declares [Php.Frontend] (r : ReflectorBy key) (text n : String) (c : ClassLike) : Prop :=
  ∃ d ∈ (Declarations.of r.resolver text).classes, r.Completes d c ∧
    (sameIgnoringCase d.symbol.name (unrooted n) ∨ sameIgnoringCase d.symbol.fqn (unrooted n))

/-- The function is declared in the text under the name `n`. -/
def DeclaresFunction [Php.Frontend] (r : ReflectorBy key) (text n : String) (f : Function) : Prop :=
  f ∈ (Declarations.of r.resolver text).functions ∧
    (sameIgnoringCase f.name (unrooted n) ∨ sameIgnoringCase f.fqn (unrooted n))

theorem declares_of_find? [Php.Frontend] [Walker] {text n : String} {c : ClassLike}
    (uncached : s.cache = none) (h : ((r.classesIn text).run s).1.find? n = some c) :
    r.Declares text n c := by
  have faithful : s.FaithfulTo r.resolver text := SessionBy.faithfulTo_of_uncached uncached text
  have rel := r.rel_find?_classesIn faithful n
  rw [h] at rel
  generalize declared : (Declarations.of r.resolver text).classes.find? _ = searched at rel
  cases rel with
  | @some d _ completes =>
    have answers := List.find?_some declared
    simp only [Named.answersTo, answersToQualified, Bool.or_eq_true] at answers
    exact ⟨d, List.mem_of_find?_eq_some declared, completes, answers⟩

theorem declaresFunction_of_find? [Php.Frontend] {text n : String} {f : Function}
    (uncached : s.cache = none) (h : ((r.functionsIn text).run s).1.find? n = some f) :
    r.DeclaresFunction text n f := by
  have faithful : s.FaithfulTo r.resolver text := SessionBy.faithfulTo_of_uncached uncached text
  rw [Collection.find?, r.toList_functionsIn faithful] at h
  have answers := List.find?_some h
  simp only [Named.answersTo, answersToQualified, Bool.or_eq_true] at answers
  exact ⟨List.mem_of_find?_eq_some h, answers⟩

theorem declared_of_classNamed [Php.Frontend] [Walker] [LawfulWalker] {n : String} {c : ClassLike}
    (uncached : s.cache = none) (rooted : ∀ l ∈ s.locators, l.Rooted)
    (h : ((r.classNamed n).run s).1 = .ok c) :
    ∃ l ∈ s.locators, ∃ text, l.Holds n text ∧ r.Declares text n c := by
  have looks (source : String) := (Traced.classesIn (r := r) source).bind fun found =>
    .pure (found.find? n)
  rw [run_classNamed, answerFor_eq_ok] at h
  obtain ⟨l, mem, text, holds, s', follows, seen⟩ :=
    exists_of_searchAll Traced.follows (fun _ => id) looks h ⟨rooted, rfl, id⟩
  exact ⟨l, mem, text, holds, declares_of_find? (follows.uncached uncached) seen⟩

theorem declared_of_functionNamed [Php.Frontend] [Walker] [LawfulWalker] {n : String}
    {f : Function} (uncached : s.cache = none) (rooted : ∀ l ∈ s.locators, l.Rooted)
    (h : ((r.functionNamed n).run s).1 = .ok f) :
    ∃ l ∈ s.locators, ∃ text, l.Holds n text ∧ r.DeclaresFunction text n f := by
  have looks (source : String) := (Traced.functionsIn (r := r) source).bind fun found =>
    .pure (found.find? n)
  rw [run_functionNamed, answerFor_eq_ok] at h
  obtain ⟨l, mem, text, holds, s', follows, seen⟩ :=
    exists_of_searchAll Traced.follows (fun _ => id) looks h ⟨rooted, rfl, id⟩
  exact ⟨l, mem, text, holds, declaresFunction_of_find? (follows.uncached uncached) seen⟩

/-! ### After any requests -/

/-- Requests keep the locators rooted, and no cache appears. -/
theorem Reads.rooted [Php.Frontend] [Walker] [LawfulWalker] {requests : List Request}
    {texts : List String} (h : r.Reads requests s texts)
    (plain : ∀ i e, .edit i e ∈ requests → e.IsPlain) (rooted : ∀ l ∈ s.locators, l.Rooted) :
    (∀ l ∈ ((r.answers requests).run s).2.locators, l.Rooted) ∧
      (s.cache = none → ((r.answers requests).run s).2.cache = none) := by
  induction h with
  | nil => exact ⟨rooted, id⟩
  | question parsed _ ih =>
    have follows := parsed.follows ⟨rooted, rfl, id⟩
    obtain ⟨rooted, uncached⟩ :=
      ih (fun i e mem => plain i e (List.mem_cons_of_mem _ mem)) follows.rooted
    rw [run_answers_cons]
    exact ⟨rooted, fun h => uncached (follows.uncached h)⟩
  | @edit i e requests s _ _ ih =>
    rw [run_answers_cons]
    refine ih (fun i e mem => plain i e (List.mem_cons_of_mem _ mem)) fun l mem => ?_
    obtain ⟨j, found⟩ := List.mem_iff_getElem?.1 mem
    rw [List.getElem?_modify] at found
    obtain ⟨l', old, rfl⟩ := Option.map_eq_some_iff.1 found
    have rooted := rooted l' (List.mem_of_getElem? old)
    split
    · exact rooted.apply (plain i e List.mem_cons_self)
    · exact rooted

/-- A question after some requests has the answer that it would have without a cache, as long as no
two of the texts that are parsed share a key. -/
theorem run_forgotten [Php.Frontend] [Walker] [LawfulWalker] {α : Type} {m : ReflectBy key α}
    {requests : List Request} {read parsed : List String} (fresh : s.IsFresh)
    (plain : ∀ i e, .edit i e ∈ requests → e.IsPlain) (reads : r.Reads requests s read)
    (parses : r.Parses m ((r.answers requests).run s).2 parsed)
    (apart : s.cache = none ∨ Set.InjOn key {t | t ∈ read ++ parsed}) :
    (m.run ((r.answers requests).run s).2).1 =
      (m.run ((r.answers requests).run s).2.forgotten).1 := by
  have rooted := reads.rooted plain fun l mem => (fresh.locators l mem).rooted
  by_cases uncached : s.cache = none
  · have same : ((r.answers requests).run s).2.forgotten = ((r.answers requests).run s).2 := by
      rw [SessionBy.forgotten, ← rooted.2 uncached]
    rw [same]
  · have apart := apart.resolve_left uncached
    have remembers : s.Remembers r.resolver [] := fresh.cache.resolve_left uncached
    obtain ⟨-, remembers⟩ :=
      reads.forgets [] remembers (apart.mono fun t mem => List.mem_append_left parsed mem)
    exact (congrArg Prod.fst (parses.forgets read remembers apart).1).symm

variable (r) in
/-- From a fresh session on, any requests are made, edits of all sources among them. A class-like or
function that is then found by a name is declared under this name, short or qualified, in a text
that one of the locators holds for the name at this moment. This takes that no two of the texts
parsed so far share a key, unless there is no cache. -/
theorem named_current [Php.Frontend] [Walker] [LawfulWalker] (fresh : s.IsFresh)
    {requests : List Request} (plain : ∀ i e, .edit i e ∈ requests → e.IsPlain)
    {read : List String} (reads : r.Reads requests s read) (n : String) :
    let reached := ((r.answers requests).run s).2
    (∀ parsed c, r.Parses (r.classNamed n) reached parsed →
      (s.cache = none ∨ Set.InjOn key {t | t ∈ read ++ parsed}) →
      ((r.classNamed n).run reached).1 = .ok c →
      ∃ l ∈ reached.locators, ∃ text, l.Holds n text ∧ r.Declares text n c) ∧
    ∀ parsed f, r.Parses (r.functionNamed n) reached parsed →
      (s.cache = none ∨ Set.InjOn key {t | t ∈ read ++ parsed}) →
      ((r.functionNamed n).run reached).1 = .ok f →
      ∃ l ∈ reached.locators, ∃ text, l.Holds n text ∧ r.DeclaresFunction text n f := by
  intro reached
  have rooted := (reads.rooted plain fun l mem => (fresh.locators l mem).rooted).1
  constructor
  · intro parsed c parses apart found
    rw [run_forgotten fresh plain reads parses apart] at found
    exact declared_of_classNamed (s := reached.forgotten) rfl rooted found
  · intro parsed f parses apart found
    rw [run_forgotten fresh plain reads parses apart] at found
    exact declared_of_functionNamed (s := reached.forgotten) rfl rooted found

/-- With a single locator, the text that it has for a name is all that is parsed to find a
function. -/
theorem parses_functionNamed [Php.Frontend] [Walker] {n text : String} {l : Locator}
    (single : s.locators = [l]) (located : (l.locate n).1 = .ok text) :
    r.Parses (r.functionNamed n) s [text] := by
  have found : ((Session.locate 0 n).run s).1 = .ok text := by
    rw [Session.run_locate, single]
    exact located
  have looks (s' : SessionBy key) :
      r.Parses (do return (← r.functionsIn text).find? n) s' (([text] ++ []) ++ []) :=
    .bind (.bind (.declarations text s') (.pure _ _)) (.pure _ _)
  have search : r.Parses (Session.search n (fun t => do return (← r.functionsIn t).find? n)
      (List.range s.locators.length)) s ([] ++ ([text] ++ [])) := by
    rw [single]
    refine .bind (.locate 0 n s) ?_
    rw [found]
    refine .bind (looks _) ?_
    split
    · exact .pure _ _
    · exact .pure _ _
  have named : r.Parses (r.functionNamed n) s (([] ++ ([text] ++ [])) ++ []) := by
    refine .bind (.searchAll search) ?_
    split <;> exact .pure _ _
  exact named

set_option maxRecDepth 100000 in
/-- A file is written once more after its first text was parsed. -/
theorem named_current_rewritten :
    let key : String → UInt64 := fun s =>
      s.toList.foldl (fun hash c => 31 * hash + UInt64.ofNat c.toNat) 7
    let r : ReflectorBy key := {}
    let old := "<?php function f(){}"
    let new := "<?php function f($x){}"
    let path : Path := ["src", "f.php"]
    let s : SessionBy key := { locators := [.directory { roots := [["src"]] }], cache := some [] }
    let requests := [.edit 0 (.write path (.text old)), .functionsIn old,
      .edit 0 (.write path (.text new))]
    let reached := ((r.answers requests).run s).2
    let f : Function := { name := "f", parameters := [{ name := "x" }] }
    s.IsFresh ∧ (∀ i e, .edit i e ∈ requests → e.IsPlain) ∧ r.Reads requests s [old] ∧
    r.Parses (r.functionNamed "f") reached [new] ∧ Set.InjOn key {t | t ∈ [old, new]} ∧
    ((r.functionNamed "f").run reached).1 = .ok f ∧
    ∃ l ∈ reached.locators, ∃ text, l.Holds "f" text ∧ r.DeclaresFunction text "f" f := by
  intro key r old new path s requests reached f
  let written : DirectoryLocator :=
    { tree := ({} : FileTree).write path (.text new), roots := [["src"]] }
  have fresh : s.IsFresh := by
    refine ⟨.inr rfl, ?_⟩
    intro l mem
    obtain rfl := List.mem_singleton.1 mem
    exact ⟨rfl, fun f mem => absurd mem List.not_mem_nil⟩
  have plain : ∀ i e, .edit i e ∈ requests → e.IsPlain := by
    intro i e mem
    have isPath : path.IsPlain := by decide
    simp only [requests, List.mem_cons, Request.edit.injEq, reduceCtorEq, List.not_mem_nil,
      or_false, false_or] at mem
    rcases mem with ⟨-, rfl⟩ | ⟨-, rfl⟩ <;> exact isPath
  have reads : r.Reads requests s [old] := by
    have asked (s : SessionBy key) :
        r.Parses (r.answer (.functionsIn old)) s (([old] ++ []) ++ []) :=
      .bind (.bind (.declarations old s) (.pure _ _)) (.pure _ _)
    exact .edit (.question (asked _) (.edit (.nil _)))
  let after : SessionBy key :=
    { locators := [.directory written], cache := some [(key old, .of {} old)] }
  have same : reached = after := rfl
  have parses : r.Parses (r.functionNamed "f") reached [new] := by
    have located : (written.locate "f").1 = .ok new := by cbv
    exact parses_functionNamed (congrArg SessionBy.locators same) located
  have apart : Set.InjOn key {t | t ∈ [old, new]} := by
    have different : ([old, new].map key).Nodup := by decide
    intro t ht u hu same
    exact List.inj_on_of_nodup_map different ht hu same
  have found : ((r.functionNamed "f").run reached).1 = .ok f := by
    have faithful : after.FaithfulTo r.resolver new := by
      intro known cached d found
      obtain rfl := Option.some.inj cached
      have apart : (key new == key old) = false := by decide
      rw [List.lookup_cons, apart] at found
      exact (Option.some_ne_none d found.symm).elim
    have declared : (Declarations.of {} new).functions = [f] := by cbv
    have located : Locator.locate (.directory written) "f" = (.ok new, .directory written) := by cbv
    rw [same, run_functionNamed_single r rfl, located]
    dsimp only
    have first : [f].find? (Named.answersTo · "f") = some f :=
      List.find?_cons_of_pos (by decide)
    rw [Collection.find?, r.toList_functionsIn faithful, declared, first]
    rfl
  exact ⟨fresh, plain, reads, parses, apart, found,
    (r.named_current fresh plain reads "f").2 [new] f parses (.inr apart) found⟩

end ReflectorBy
end PhpSymbols
