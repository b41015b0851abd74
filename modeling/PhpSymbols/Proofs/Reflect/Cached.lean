import Mathlib.Data.Finset.Card
import Mathlib.Data.Set.Function
import PhpSymbols.Proofs.Php.Mended
import PhpSymbols.Proofs.Reflect.History

/-!
# A cache changes no answer

* `SessionBy.Remembers`: after the declarations of some texts were asked for, the session remembers
  those of each of them, and nothing else;
* `Parses.forgets`, `Reads.forgets`: what remembers so answers as what remembers nothing, and it
  goes on to remember the texts that are asked for, as long as no two of them share a key;
* `cached_answers`: so a session gives the same answers with a cache as without one, and it
  remembers just the texts that were asked for;
* `cached_answers_scanned`: what is only scanned for an offset is not among them.
-/

namespace PhpSymbols

variable {κ : Type} {key : String → κ}

/-- The session as it is without a cache. -/
def SessionBy.forgotten (s : SessionBy key) : SessionBy key := { s with cache := none }

/-- The declarations of all `texts` by their keys, the latest text first, and each text once. -/
def SessionBy.Remembers [Php.Frontend] (resolver : Resolver) (s : SessionBy key)
    (texts : List String) : Prop :=
  s.cache = some (texts.reverse.dedup.map fun t => (key t, .of resolver t))

namespace ReflectorBy
variable [DecidableEq κ] {r : ReflectorBy key}

/-- A table of texts by their keys finds just the texts in it. -/
theorem lookup_key {β : Type} (f : String → β) (texts : List String) (t : String)
    (apart : Set.InjOn key {u | u = t ∨ u ∈ texts}) :
    (texts.map fun u => (key u, f u)).lookup (key t) = if t ∈ texts then some (f t) else none := by
  induction texts with
  | nil => rfl
  | cons u texts ih =>
    have ih := ih (apart.mono fun v h => h.imp_right (List.mem_cons_of_mem u))
    have same : key t = key u ↔ t = u :=
      apart.eq_iff (.inl rfl) (.inr List.mem_cons_self)
    by_cases h : t = u
    · subst h
      simp
    · rw [List.map_cons, List.lookup_cons, beq_false_of_ne (mt same.1 h), ih]
      simp [h]

/-- One parsed text: it is found if it was parsed before, and remembered if not. -/
theorem declarations_remembers [Php.Frontend] {s : SessionBy key} {seen : List String} {t : String}
    (remembers : s.Remembers r.resolver seen) (apart : Set.InjOn key {u | u = t ∨ u ∈ seen}) :
    (r.declarations t).run s.forgotten =
        (((r.declarations t).run s).1, ((r.declarations t).run s).2.forgotten) ∧
      ((r.declarations t).run s).2.Remembers r.resolver (seen ++ [t]) := by
  have found := lookup_key (Declarations.of r.resolver) seen.reverse.dedup t (by simpa using apart)
  simp only [List.mem_dedup, List.mem_reverse] at found
  rw [run_declarations_eq, run_declarations_eq, remembers]
  simp only [found, SessionBy.forgotten]
  by_cases known : t ∈ seen
  · rw [if_pos known]
    refine ⟨rfl, remembers.trans ?_⟩
    simp [List.dedup_cons_of_mem, known]
  · rw [if_neg known]
    refine ⟨rfl, congrArg some ?_⟩
    simp [List.dedup_cons_of_notMem, known]

theorem subset_before {α : Type} (as bs cs : List α) :
    {a | a ∈ as ++ bs} ⊆ {a | a ∈ as ++ (bs ++ cs)} := by
  intro a h
  rw [← List.append_assoc]
  exact List.mem_append_left cs h

/-- The answer is the one that a session without a cache gives, and the parsed texts are
remembered. -/
theorem Parses.forgets [Php.Frontend] [Walker] {α : Type} {m : ReflectBy key α}
    {s : SessionBy key} {ts : List String} (h : r.Parses m s ts) (seen : List String)
    (remembers : s.Remembers r.resolver seen) (apart : Set.InjOn key {t | t ∈ seen ++ ts}) :
    m.run s.forgotten = ((m.run s).1, (m.run s).2.forgotten) ∧
      (m.run s).2.Remembers r.resolver (seen ++ ts) := by
  induction h generalizing seen with
  | pure a s =>
    rw [List.append_nil]
    exact ⟨rfl, remembers⟩
  | @bind _ _ m f s ts us _ _ first then_ =>
    obtain ⟨same, remembers⟩ := first seen remembers (apart.mono (subset_before seen ts us))
    obtain ⟨same', remembers⟩ := then_ _ remembers (by simpa using apart)
    rw [← List.append_assoc]
    refine ⟨?_, remembers⟩
    rw [StateT.run_bind, same]
    exact same'
  | declarations source s =>
    apply declarations_remembers remembers (apart.mono _)
    rintro u (rfl | h) <;> simp [*]
  | locate i name s =>
    rw [Session.run_locate, Session.run_locate, List.append_nil]
    dsimp only [SessionBy.forgotten]
    split
    · exact ⟨rfl, remembers⟩
    · exact ⟨rfl, remembers⟩
  | searchAll _ ih => exact ih seen remembers apart

theorem Reads.forgets [Php.Frontend] [Walker] {requests : List Request} {s : SessionBy key}
    {ts : List String} (h : r.Reads requests s ts) (seen : List String)
    (remembers : s.Remembers r.resolver seen) (apart : Set.InjOn key {t | t ∈ seen ++ ts}) :
    (r.answers requests).run s.forgotten =
        (((r.answers requests).run s).1, ((r.answers requests).run s).2.forgotten) ∧
      ((r.answers requests).run s).2.Remembers r.resolver (seen ++ ts) := by
  induction h generalizing seen with
  | nil s =>
    rw [List.append_nil]
    exact ⟨rfl, remembers⟩
  | @question request requests s ts us parsed _ ih =>
    obtain ⟨same, remembers⟩ :=
      parsed.forgets seen remembers (apart.mono (subset_before seen ts us))
    obtain ⟨same', remembers⟩ := ih _ remembers (by simpa using apart)
    rw [← List.append_assoc, run_answers_cons, run_answers_cons, same]
    dsimp only
    rw [same']
    exact ⟨rfl, remembers⟩
  | edit _ ih =>
    rw [run_answers_cons, run_answers_cons]
    obtain ⟨same, remembers⟩ := ih seen remembers apart
    let behind (p : List Answer × SessionBy key) := (Answer.edited :: p.1, p.2)
    exact ⟨congrArg behind same, remembers⟩

variable (r)

/-- Two sessions over the same locators are given the same requests, one with a cache and one
without. There are texts whose declarations are asked for, for the requests: those of sources whose
declarations are wanted, of sources located for a name or a supertype, and of the source around an
offset if a declaration is found there. If no two of them share a key then all answers are the
same, and as many sources are remembered as there are different such texts. What is remembered
never becomes less. -/
theorem cached_answers [Php.Frontend] [Walker] (locators : List Locator) (requests : List Request) :
    let cached : SessionBy key := { locators, cache := some [] }
    let plain : SessionBy key := { locators }
    (∃ texts, r.Reads requests cached texts) ∧
    (∀ texts, r.Reads requests cached texts → Set.InjOn key {t | t ∈ texts} →
      ((r.answers requests).run cached).1 = ((r.answers requests).run plain).1 ∧
      ((r.answers requests).run cached).2.cacheSize = texts.toFinset.card) ∧
    ∀ later, ((r.answers requests).run cached).2.cacheSize ≤
      ((r.answers (requests ++ later)).run cached).2.cacheSize := by
  intro cached plain
  refine ⟨r.exists_reads requests cached, ?_, ?_⟩
  · intro texts read apart
    obtain ⟨same, remembers⟩ := read.forgets [] rfl apart
    refine ⟨(congrArg Prod.fst same).symm, ?_⟩
    rw [SessionBy.cacheSize, remembers, List.card_toFinset]
    simp [(List.reverse_perm texts).dedup.length_eq]
  · intro later
    obtain ⟨texts, read⟩ := r.exists_reads later ((r.answers requests).run cached).2
    rw [run_answers_append]
    exact read.cacheSize_le

/-- Two sources, one of them registered in between, and the first asked for once more. -/
theorem cached_answers_again :
    let key : String → UInt64 := fun s =>
      s.toList.foldl (fun hash c => 31 * hash + UInt64.ofNat c.toNat) 7
    let r : ReflectorBy key := {}
    let f := "<?php function f(){}"
    let g := "<?php function g(){}"
    let locators : List Locator := [.temporary {}]
    let requests := [.functionsIn f, .edit 0 (.setSource g), .functionsIn g, .functionsIn f]
    Set.InjOn key {t | t ∈ [f, g, f]} ∧
    r.Reads requests { locators, cache := some [] } [f, g, f] ∧
    ((r.answers requests).run { locators, cache := some [] }).1 =
      ((r.answers requests).run { locators }).1 ∧
    ((r.answers requests).run { locators, cache := some [] }).2.cacheSize = 2 := by
  intro key r f g locators requests
  have apart : Set.InjOn key {t | t ∈ [f, g, f]} := by
    have different : ([f, g].map key).Nodup := by decide
    have among : ∀ t ∈ [f, g, f], t ∈ [f, g] := by simp
    intro t ht u hu same
    exact List.inj_on_of_nodup_map different (among t ht) (among u hu) same
  have asked (t : String) (s) : r.Parses (r.answer (.functionsIn t)) s (([t] ++ []) ++ []) :=
    .bind (.bind (.declarations t s) (.pure _ _)) (.pure _ _)
  have read : r.Reads requests { locators, cache := some [] } [f, g, f] :=
    .question (asked f _) <| .edit <| .question (asked g _) <| .question (asked f _) (.nil _)
  obtain ⟨same, size⟩ := (cached_answers r locators requests).2.1 _ read apart
  exact ⟨apart, read, same, size.trans (by decide)⟩

/-! ### What is only scanned -/

/-- At an offset around which nothing is declared, no declarations are asked for. -/
theorem parses_resolutionAt_outside [Php.Frontend] [Walker] {r : ReflectorBy key}
    {source : String} {offset : Nat}
    (outside : (Scope.at r.resolver source offset).enclosing = none) (s : SessionBy key) :
    r.Parses (r.answer (.resolutionAt source offset)) s [] := by
  have asks : r.Parses (r.resolutionAt source offset) s [] := by
    rw [resolutionAt]
    split
    · dsimp only
      rw [outside]
      exact List.append_nil [] ▸ .bind (.pure none s) (.pure _ _)
    · exact .pure _ s
  rw [← List.append_nil []]
  exact .bind asks (.pure _ _)

def unscoped : String := "<?php $a=1;"

set_option maxRecDepth 100000 in
theorem enclosing_unscoped : (Scope.at {} unscoped 5).enclosing = none := by
  cbv

/-- The source of an offset is read for the scan, and is not remembered for it. So there are more
texts read than remembered, if those that are only scanned are counted as well. -/
theorem cached_answers_scanned :
    ¬ ∀ requests : List Request, let r : Reflector := {}
      let cached : Session := { cache := some [] }
      ∀ texts, r.Reads requests cached texts →
        ((r.answers requests).run cached).2.cacheSize =
          (texts ++ requests.flatMap Request.scanned).toFinset.card := by
  intro all
  let r : Reflector := {}
  have read : r.Reads [.resolutionAt unscoped 5] { cache := some [] } ([] ++ []) :=
    .question (parses_resolutionAt_outside enclosing_unscoped _) (.nil _)
  have nothing : ((r.answers [.resolutionAt unscoped 5]).run { cache := some [] }).2.cacheSize =
      0 := by
    obtain ⟨-, remembers⟩ := read.forgets [] rfl nofun
    rw [SessionBy.cacheSize, remembers]
    rfl
  exact absurd ((all _ _ read).symm.trans nothing) (by decide)

end ReflectorBy
end PhpSymbols
