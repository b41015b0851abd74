import PhpSymbols.Proofs.Reflect.Current

/-!
# Symbols of registered sources

With a temporary locator alone, an answer depends on what is registered and on nothing else.

* `lookup_setSource`: a source that is set takes the place of what was under its names, and of
  nothing else;
* `Reflector.Uses`: the session has this locator alone;
* `run_classesIn`, `run_classNamed`, `run_functionNamed`: what is answered then;
* `exists_uses_answers`: requests leave a session with some temporary locator alone.
-/

namespace PhpSymbols

/-! ### Registered texts -/

namespace TemporaryLocator

/-- The text that is registered for a name. -/
def textFor? (l : TemporaryLocator) (name : String) : Option String :=
  l.sources.lookup (indexKey name)

theorem lookup_register (l : TemporaryLocator) (k source other : String) :
    (l.register k source).sources.lookup other =
      if other = k then some source else l.sources.lookup other := by
  rw [register, List.lookup_cons]
  by_cases here : other = k
  · rw [if_pos here, beq_iff_eq.2 here]
  · rw [if_neg here, beq_false_of_ne here]
    dsimp only
    -- only what is under `k` was taken out
    induction l.sources with
    | nil => rfl
    | cons entry entries ih =>
      obtain ⟨k', text⟩ := entry
      by_cases same : k' = k
      · subst same
        rw [List.filter_cons_of_neg (by simp), ih, List.lookup_cons, beq_false_of_ne here]
      · rw [List.filter_cons_of_pos (by simpa using same), List.lookup_cons, List.lookup_cons, ih]

theorem lookup_foldl_register (source other : String) (keys : List String)
    (l : TemporaryLocator) :
    (keys.foldl (fun l key => l.register key source) l).sources.lookup other =
      if other ∈ keys then some source else l.sources.lookup other := by
  induction keys generalizing l with
  | nil => rfl
  | cons k keys ih =>
    rw [List.foldl_cons, ih, lookup_register]
    by_cases later : other ∈ keys
    · rw [if_pos later, if_pos (List.mem_cons_of_mem k later)]
    · simp [later]

theorem lookup_setSource [Php.Frontend] (l : TemporaryLocator) (source other : String) :
    (l.setSource source).sources.lookup other =
      if other ∈ declaredNames source then some source else l.sources.lookup other :=
  lookup_foldl_register source other _ l

end TemporaryLocator

/-! ### Answers -/

/-- The class-like with other supertypes. -/
def ClassLike.mapSupertypes (f : Supertype → Supertype) (c : ClassLike) : ClassLike :=
  { c with
    parents := c.parents.map f, interfaces := c.interfaces.map f, traits := c.traits.map f }

theorem eq_map_of_forall₂ {α β : Type} {f : α → β} {as : List α} {bs : List β}
    (h : List.Forall₂ (fun a b => f a = b) as bs) : bs = as.map f := by
  rw [← List.forall₂_map_left_iff, List.forall₂_eq_eq_eq] at h
  exact h.symm

namespace ReflectorBy
variable {κ : Type} {key : String → κ} (r : ReflectorBy key) (l : TemporaryLocator)

/-- The class-like that answers to a name, in the text that is registered for it. -/
def registeredClass? [Php.Frontend] (name : String) : Option ClassLike :=
  (l.textFor? name).bind fun text => (Declarations.of r.resolver text).findClass? name

/-- What is known of a supertype that a class-like in `text` has. -/
def known [Php.Frontend] (text : String) (t : Supertype) : Supertype :=
  t.declaredBy (((r.context text).bind (·.findClass? t.name)).or (r.registeredClass? l t.name))

/-- The declared class-like with the members that providers offer and its supertypes completed. -/
def completed (f : Supertype → Supertype) (d : DeclaredClass) : ClassLike :=
  (d.withVirtualMembers r.resolver r.providers).mapSupertypes f

variable {r} in
theorem CompletesBy.eq_completed {f : Supertype → Supertype} {d : DeclaredClass} {c : ClassLike}
    (h : r.CompletesBy (fun t t' => f t = t') d c) : r.completed f d = c := by
  obtain ⟨_, _, _, rfl, parents, interfaces, traits⟩ := h
  obtain ⟨sameParents, sameInterfaces, sameTraits⟩ :=
    d.supertypes_withVirtualMembers r.resolver r.providers
  rw [completed, ClassLike.mapSupertypes, sameParents, sameInterfaces, sameTraits,
    eq_map_of_forall₂ parents, eq_map_of_forall₂ interfaces, eq_map_of_forall₂ traits]

/-- The class-like that a name stands for. -/
def classFor? [Php.Frontend] (name : String) : Option ClassLike :=
  (l.textFor? name).bind fun text =>
    ((Declarations.of r.resolver text).classes.find? (Named.answersTo ·.symbol name)).map
      (r.completed (r.known l text))

def functionFor? [Php.Frontend] (name : String) : Option Function :=
  (l.textFor? name).bind fun text =>
    (Declarations.of r.resolver text).functions.find? (Named.answersTo · name)

theorem answersTo_completed (f : Supertype → Supertype) (d : DeclaredClass) (n : String) :
    Named.answersTo (r.completed f d) n = Named.answersTo d.symbol n := by
  rw [completed, DeclaredClass.withVirtualMembers_eq]
  rfl

end ReflectorBy

namespace Reflector
variable {r : Reflector} {l : TemporaryLocator} {s : Session}

/-- The session has this locator alone, and what it remembers of texts is true. -/
structure Uses [Php.Frontend] (r : Reflector) (l : TemporaryLocator) (s : Session) : Prop where
  faithful : s.Faithful r.resolver
  only : s.locators = [.temporary l]

/-- No question changes a temporary locator. -/
theorem locators_of_parses [Php.Frontend] [Walker] {α : Type} {m : Reflect α} {texts : List String}
    (h : r.Parses m s texts) (only : s.locators = [.temporary l]) :
    (m.run s).2.locators = [.temporary l] := by
  induction h with
  | pure => exact only
  | bind _ _ first then_ => exact then_ (first only)
  | declarations source s => exact (r.run_declarations_locators source s).1.trans only
  | locate i name s =>
    rw [Session.run_locate, only]
    cases i with
    | zero => rfl
    | succ => exact only
  | searchAll _ ih => exact ih only

theorem Uses.run [Php.Frontend] [Walker] {α : Type} {m : Reflect α} (uses : r.Uses l s)
    (traced : r.Traced m) :
    r.Uses l (m.run s).2 := by
  obtain ⟨_, parsed⟩ := traced s
  exact ⟨faithful_of_parses parsed uses.faithful, locators_of_parses parsed uses.only⟩

/-- What a search looks at is the text that is registered for the name. -/
theorem Uses.run_searchAll [Php.Frontend] [Walker] {α : Type} (uses : r.Uses l s) (name : String)
    (look : String → Reflect (Option α)) :
    ((Session.searchAll name look).run s).1 =
      (l.textFor? name).bind fun text => ((look text).run s).1 := by
  have same : { s with locators := [.temporary l] } = s := by rw [← uses.only]
  rw [Session.run_searchAll_single uses.only, Locator.locate, TemporaryLocator.locate,
    TemporaryLocator.textFor?]
  cases l.sources.lookup (indexKey name) with
  | none => rfl
  | some text =>
    dsimp only
    rw [same, Option.bind_some]

theorem Uses.run_supertypeDeclaration? [Php.Frontend] [Walker] (uses : r.Uses l s)
    (context : Option Declarations) (name : String) :
    ((r.supertypeDeclaration? context name).run s).1 =
      (context.bind (·.findClass? name)).or (r.registeredClass? l name) := by
  rw [ReflectorBy.supertypeDeclaration?]
  cases context.bind (·.findClass? name) with
  | some => rfl
  | none =>
    refine (uses.run_searchAll name _).trans ?_
    rw [Option.none_or, ReflectorBy.registeredClass?]
    congr 1
    funext text
    exact congrArg (·.findClass? name) (r.run_declarations (uses.faithful.to text))

theorem Uses.run_completeSupertype [Php.Frontend] [Walker] (uses : r.Uses l s) (text : String)
    (t : Supertype) :
    ((r.completeSupertype (r.context text) t).run s).1 = r.known l text t := by
  rw [ReflectorBy.run_completeSupertype, ReflectorBy.known, uses.run_supertypeDeclaration?]

theorem Uses.run_classesIn [Php.Frontend] [Walker] (uses : r.Uses l s) (text : String) :
    ((r.classesIn text).run s).1 =
      ⟨(Declarations.of r.resolver text).classes.map (r.completed (r.known l text))⟩ := by
  obtain ⟨completed, -⟩ := r.completesBy_classesIn (R := fun t t' => r.known l text t = t')
    (uses.faithful.to text)
    (fun t s' (uses : r.Uses l s') =>
      ⟨(uses.run_completeSupertype text t).symm, uses.run (.completeSupertype _ t)⟩)
    (uses.run (.declarations text))
  exact congrArg Collection.mk (eq_map_of_forall₂ (completed.imp fun _ _ h => h.eq_completed))

/-- A name stands for what is declared in the text that is registered for it. -/
theorem Uses.run_classNamed [Php.Frontend] [Walker] (uses : r.Uses l s) (n : String) :
    ((r.classNamed n).run s).1 = ReflectorBy.answerFor .classLike n (r.classFor? l n) := by
  rw [ReflectorBy.run_classNamed, uses.run_searchAll, ReflectorBy.classFor?]
  congr 2
  funext text
  have answers : (Named.answersTo · n) ∘ r.completed (r.known l text) =
      (Named.answersTo ·.symbol n) := funext fun d => r.answersTo_completed _ d n
  refine (congrArg (·.find? n) (uses.run_classesIn text)).trans ?_
  rw [Collection.find?, List.find?_map, answers]

theorem Uses.run_functionNamed [Php.Frontend] [Walker] (uses : r.Uses l s) (n : String) :
    ((r.functionNamed n).run s).1 = ReflectorBy.answerFor .function n (r.functionFor? l n) := by
  rw [ReflectorBy.run_functionNamed, uses.run_searchAll, ReflectorBy.functionFor?]
  congr 2
  funext text
  exact congrArg (List.find? (Named.answersTo · n)) (r.toList_functionsIn (uses.faithful.to text))

/-! ### After any requests -/

/-- An edit leaves a temporary locator in its place. -/
theorem exists_modify [Php.Frontend] {locators : List Locator} (only : locators = [.temporary l])
    (i : Nat) (e : Edit) : ∃ l', locators.modify i e.apply = [.temporary l'] := by
  subst only
  cases i with
  | zero =>
    have kept : ∃ l', e.apply (.temporary l) = .temporary l' := by cases e <;> exact ⟨_, rfl⟩
    obtain ⟨l', same⟩ := kept
    exact ⟨l', by rw [List.modify_zero_cons, same]⟩
  | succ i => exact ⟨l, by rw [List.modify_succ_cons, List.modify_nil]⟩

theorem exists_locators_answers [Php.Frontend] [Walker] (requests : List Request)
    (only : s.locators = [.temporary l]) :
    ∃ l', ((r.answers requests).run s).2.locators = [.temporary l'] := by
  obtain ⟨_, read⟩ := r.exists_reads requests s
  induction read generalizing l with
  | nil => exact ⟨l, only⟩
  | question parsed _ ih =>
    rw [ReflectorBy.run_answers_cons]
    exact ih (locators_of_parses parsed only)
  | @edit i e _ _ _ _ ih =>
    rw [ReflectorBy.run_answers_cons]
    obtain ⟨l', only⟩ := exists_modify only i e
    exact ih only

/-- Whatever is asked and registered, a session with a temporary locator alone stays one. -/
theorem exists_uses_answers [Php.Frontend] [Walker] (requests : List Request) (uses : r.Uses l s) :
    ∃ l', r.Uses l' ((r.answers requests).run s).2 := by
  obtain ⟨l', only⟩ := r.exists_locators_answers requests uses.only
  exact ⟨l', faithful_answers requests uses.faithful, only⟩

end Reflector
end PhpSymbols
