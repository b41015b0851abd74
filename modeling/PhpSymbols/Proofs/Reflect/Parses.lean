import PhpSymbols.Reflect.Session

/-!
# What a session parses

* `run_classNamed`, `run_functionNamed`: a name stands for what a search finds;
* `ReflectorBy.Parses`: a computation of a reflector asks for the declarations of these texts,
  in this order; everything else that it does is to ask locators;
* `ReflectorBy.Traced`: a computation that consists of such steps, one lemma for each;
* `Parses.cacheSize_le`: none of them forgets what is remembered.
-/

namespace PhpSymbols

variable {κ : Type} {key : String → κ}

/-- Only the locator that is asked may change. -/
theorem Session.run_locate [Php.Frontend] [Walker] (i : Nat) (name : String) (s : SessionBy key) :
    (Session.locate i name).run s =
      match s.locators[i]? with
      | none => (.error (sourceNotFound name), s)
      | some l =>
        ((l.locate name).1, { s with locators := s.locators.set i (l.locate name).2 }) := by
  rw [Session.locate, StateT.run_bind, StateT.run_get, pure_bind]
  dsimp only
  cases s.locators[i]? <;> rfl

/-- A search looks at what the first locator has, and then at the others. -/
theorem Session.run_search_cons [Php.Frontend] [Walker] {α : Type} (name : String)
    (look : String → ReflectBy key (Option α)) (i : Nat) (is : List Nat) (s : SessionBy key) :
    (Session.search name look (i :: is)).run s =
      match (Session.locate i name).run s with
      | (.error _, s') => (Session.search name look is).run s'
      | (.ok source, s') =>
        match (look source).run s' with
        | (some found, s'') => (some found, s'')
        | (none, s'') => (Session.search name look is).run s'' := by
  rw [Session.search, StateT.run_bind]
  rcases (Session.locate i name).run s with ⟨located, s'⟩
  cases located with
  | error => rfl
  | ok source =>
    change (StateT.run (look source >>= _) s') = _
    rw [StateT.run_bind]
    dsimp only
    rcases (look source).run s' with ⟨found, s''⟩
    cases found <;> rfl

theorem Session.run_searchAll_single [Php.Frontend] [Walker] {α : Type} {l : Locator}
    {s : SessionBy key} (single : s.locators = [l]) (name : String)
    (look : String → ReflectBy key (Option α)) :
    (Session.searchAll name look).run s =
      match l.locate name with
      | (.error _, l') => (none, { s with locators := [l'] })
      | (.ok source, l') => (look source).run { s with locators := [l'] } := by
  change (Session.search name look (List.range s.locators.length)).run s = _
  have located : (Session.locate 0 name).run s =
      ((l.locate name).1, { s with locators := [(l.locate name).2] }) := by
    rw [Session.run_locate, single]
    rfl
  rw [single, List.length_singleton, List.range_one, Session.run_search_cons, located]
  rcases l.locate name with ⟨found, l'⟩
  cases found with
  | error => rfl
  | ok source =>
    dsimp only
    rcases (look source).run { s with locators := [l'] } with ⟨seen, s'⟩
    cases seen <;> rfl

variable [DecidableEq κ]

/-- Declarations are read once: with a cache they are remembered, without one they are not. -/
theorem ReflectorBy.run_declarations_eq [Php.Frontend] (r : ReflectorBy key) (s : SessionBy key)
    (source : String) :
    (r.declarations source).run s =
      match s.cache with
      | none => (.of r.resolver source, s)
      | some known =>
        match known.lookup (key source) with
        | some d => (d, s)
        | none => (.of r.resolver source,
          { s with cache := some ((key source, .of r.resolver source) :: known) }) := by
  rw [declarations, StateT.run_bind, StateT.run_get, pure_bind]
  dsimp only
  cases s.cache with
  | none => rfl
  | some known =>
    dsimp only
    cases known.lookup (key source) <;> rfl

namespace ReflectorBy

/-- The answer to a question for a name: what was found, or that nothing has the name. -/
def answerFor {α : Type} (sought : Sought) (n : String) (found : Option α) :
    Except ReflectError α :=
  found.elim (.error (.notFound sought (some n))) .ok

theorem answerFor_eq_ok {α : Type} {sought : Sought} {n : String} {found : Option α} {a : α} :
    answerFor sought n found = .ok a ↔ found = some a := by
  cases found <;> simp [answerFor]

theorem answerFor_map {α β : Type} (f : α → β) (sought : Sought) (n : String)
    (found : Option α) : answerFor sought n (found.map f) = (answerFor sought n found).map f := by
  cases found <;> rfl

theorem answerFor_eq_error {α : Type} {sought : Sought} {n : String} {found : Option α}
    {e : ReflectError} :
    answerFor sought n found = .error e ↔ found = none ∧ e = .notFound sought (some n) := by
  cases found <;> simp [answerFor, eq_comm]

theorem run_classNamed [Php.Frontend] [Walker] (r : ReflectorBy key) (n : String)
    (s : SessionBy key) :
    ((r.classNamed n).run s).1 = answerFor .classLike n
      ((Session.searchAll n fun source => return (← r.classesIn source).find? n).run s).1 := by
  rw [classNamed, StateT.run_bind]
  rcases (Session.searchAll n _).run s with ⟨found, s'⟩
  cases found <;> rfl

theorem run_functionNamed [Php.Frontend] [Walker] (r : ReflectorBy key) (n : String)
    (s : SessionBy key) :
    ((r.functionNamed n).run s).1 = answerFor .function n
      ((Session.searchAll n fun source => return (← r.functionsIn source).find? n).run s).1 := by
  rw [functionNamed, StateT.run_bind]
  rcases (Session.searchAll n _).run s with ⟨found, s'⟩
  cases found <;> rfl

/-- With a single locator, a class-like is sought in the text that it has for the name. -/
theorem run_classNamed_single [Php.Frontend] [Walker] (r : ReflectorBy key) {l : Locator}
    {s : SessionBy key} (single : s.locators = [l]) (n : String) :
    ((r.classNamed n).run s).1 = answerFor .classLike n
      (match l.locate n with
      | (.error _, _) => none
      | (.ok source, l') =>
        ((r.classesIn source).run { s with locators := [l'] }).1.find? n) := by
  rw [run_classNamed, Session.run_searchAll_single single]
  rcases l.locate n with ⟨found, l'⟩
  cases found <;> rfl

theorem run_functionNamed_single [Php.Frontend] [Walker] (r : ReflectorBy key) {l : Locator}
    {s : SessionBy key} (single : s.locators = [l]) (n : String) :
    ((r.functionNamed n).run s).1 = answerFor .function n
      (match l.locate n with
      | (.error _, _) => none
      | (.ok source, l') =>
        ((r.functionsIn source).run { s with locators := [l'] }).1.find? n) := by
  rw [run_functionNamed, Session.run_searchAll_single single]
  rcases l.locate n with ⟨found, l'⟩
  cases found <;> rfl

/-- From the session on, the computation asks for the declarations of `texts`, in this order. -/
inductive Parses [Php.Frontend] [Walker] (r : ReflectorBy key) :
    {α : Type} → ReflectBy key α → SessionBy key → (texts : List String) → Prop where
  | pure {α : Type} (a : α) (s : SessionBy key) : Parses r (Pure.pure a) s []
  | bind {α β : Type} {m : ReflectBy key α} {f : α → ReflectBy key β} {s : SessionBy key}
      {ts us : List String} : Parses r m s ts → Parses r (f (m.run s).1) (m.run s).2 us →
      Parses r (m >>= f) s (ts ++ us)
  | declarations (source : String) (s : SessionBy key) :
      Parses r (r.declarations source) s [source]
  | locate (i : Nat) (name : String) (s : SessionBy key) : Parses r (Session.locate i name) s []
  | searchAll {α : Type} {name : String} {look : String → ReflectBy key (Option α)}
      {s : SessionBy key} {ts : List String} :
      Parses r (Session.search name look (List.range s.locators.length)) s ts →
      Parses r (Session.searchAll name look) s ts

variable {r : ReflectorBy key}

theorem Parses.cacheSize_le [Php.Frontend] [Walker] {α : Type} {m : ReflectBy key α}
    {s : SessionBy key} {ts : List String} (h : r.Parses m s ts) :
    s.cacheSize ≤ (m.run s).2.cacheSize := by
  induction h with
  | pure => exact Nat.le_refl _
  | bind _ _ first then_ => exact Nat.le_trans first then_
  | declarations source s =>
    rw [run_declarations_eq]
    split
    · exact Nat.le_refl _
    · rename_i known cached
      split
      · exact Nat.le_refl _
      · simp [SessionBy.cacheSize, cached]
  | locate i name s =>
    rw [Session.run_locate]
    split <;> exact Nat.le_refl _
  | searchAll _ ih => exact ih

/-- Whatever the session, there are texts that the computation parses. -/
def Traced [Php.Frontend] [Walker] (r : ReflectorBy key) {α : Type} (m : ReflectBy key α) : Prop :=
  ∀ s, ∃ texts, r.Parses m s texts

namespace Traced
variable [Php.Frontend] [Walker] {α β : Type}

theorem pure (a : α) : r.Traced (Pure.pure a : ReflectBy key α) := fun s => ⟨[], .pure a s⟩

theorem bind {m : ReflectBy key α} {f : α → ReflectBy key β} (first : r.Traced m)
    (then_ : ∀ a, r.Traced (f a)) : r.Traced (m >>= f) := by
  intro s
  obtain ⟨ts, first⟩ := first s
  obtain ⟨us, then_⟩ := then_ (m.run s).1 (m.run s).2
  exact ⟨ts ++ us, .bind first then_⟩

theorem mapM {f : α → ReflectBy key β} (each : ∀ a, r.Traced (f a)) (as : List α) :
    r.Traced (as.mapM f) := by
  induction as with
  | nil => exact pure []
  | cons a as ih =>
    rw [List.mapM_cons]
    exact bind (each a) fun b => bind ih fun bs => pure (b :: bs)

theorem locate (i : Nat) (name : String) :
    r.Traced (Session.locate i name : ReflectBy key (Except ReflectError String)) :=
  fun s => ⟨[], .locate i name s⟩

theorem search (name : String) {look : String → ReflectBy key (Option α)}
    (looks : ∀ source, r.Traced (look source)) (is : List Nat) :
    r.Traced (Session.search name look is) := by
  induction is with
  | nil => exact pure none
  | cons i is ih =>
    rw [Session.search]
    apply bind (locate i name)
    intro found
    cases found with
    | error => exact ih
    | ok source =>
      apply bind (looks source)
      intro seen
      cases seen with
      | none => exact ih
      | some => exact pure _

theorem searchAll (name : String) {look : String → ReflectBy key (Option α)}
    (looks : ∀ source, r.Traced (look source)) : r.Traced (Session.searchAll name look) := by
  intro s
  obtain ⟨ts, parsed⟩ := search name looks (List.range s.locators.length) s
  exact ⟨ts, .searchAll parsed⟩

/-! ### Questions to a reflector -/

theorem declarations (source : String) :
    r.Traced (r.declarations source : ReflectBy key Declarations) :=
  fun s => ⟨[source], .declarations source s⟩

theorem supertypeDeclaration? (context : Option Declarations) (name : String) :
    r.Traced (r.supertypeDeclaration? context name : ReflectBy key (Option ClassLike)) := by
  rw [ReflectorBy.supertypeDeclaration?]
  split
  · exact pure _
  · exact searchAll name fun source => bind (declarations source) fun d => pure _

theorem completeSupertype (context : Option Declarations) (t : Supertype) :
    r.Traced (r.completeSupertype context t : ReflectBy key Supertype) := by
  rw [ReflectorBy.completeSupertype]
  apply bind (supertypeDeclaration? context t.name)
  intro found
  split <;> exact pure _

theorem complete (context : Option Declarations) (d : DeclaredClass) :
    r.Traced (r.complete context d : ReflectBy key ClassLike) := by
  rw [ReflectorBy.complete]
  apply bind (mapM (completeSupertype context) _)
  intro parents
  apply bind (mapM (completeSupertype context) _)
  intro interfaces
  apply bind (mapM (completeSupertype context) _)
  intro traits
  exact pure _

theorem classesIn (source : String) :
    r.Traced (r.classesIn source : ReflectBy key (Collection ClassLike)) := by
  rw [ReflectorBy.classesIn]
  apply bind (declarations source)
  intro d
  exact bind (mapM (complete _) _) fun classes => pure _

theorem functionsIn (source : String) :
    r.Traced (r.functionsIn source : ReflectBy key (Collection Function)) := by
  rw [ReflectorBy.functionsIn]
  exact bind (declarations source) fun d => pure _

theorem enclosingSymbol (source : String) (enclosing : Enclosing) :
    r.Traced (r.enclosingSymbol source enclosing : ReflectBy key (Option Symbol)) := by
  cases enclosing with
  | classLike => exact bind (classesIn source) fun classes => pure _
  | method => exact bind (classesIn source) fun classes => pure _
  | function => exact bind (functionsIn source) fun functions => pure _

theorem resolutionAt (source : String) (offset : Nat) :
    r.Traced (r.resolutionAt source offset : ReflectBy key (Except ReflectError Resolution)) := by
  rw [ReflectorBy.resolutionAt]
  split
  · dsimp only
    split
    · exact bind (pure none) fun enclosing => pure _
    · exact bind (enclosingSymbol source _) fun enclosing => pure _
  · exact pure _

theorem classNamed (name : String) :
    r.Traced (r.classNamed name : ReflectBy key (Except ReflectError ClassLike)) := by
  rw [ReflectorBy.classNamed]
  apply bind (searchAll name fun source => bind (classesIn source) fun classes => pure _)
  intro found
  split <;> exact pure _

theorem functionNamed (name : String) :
    r.Traced (r.functionNamed name : ReflectBy key (Except ReflectError Function)) := by
  rw [ReflectorBy.functionNamed]
  apply bind (searchAll name fun source => bind (functionsIn source) fun functions => pure _)
  intro found
  split <;> exact pure _

end Traced
end ReflectorBy

end PhpSymbols
