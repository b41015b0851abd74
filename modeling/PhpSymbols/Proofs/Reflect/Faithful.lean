import PhpSymbols.Proofs.Reflect.History
import PhpSymbols.Proofs.Reflect.Merge

/-!
# Faithful sessions

* `SessionBy.FaithfulTo`: what a session remembers under the key of a source is what is
  read from the source;
* `run_declarations`: so what is remembered is never told from what is read;
* `toList_functionsIn`, `toList_classesIn`: the functions of a source, and its class-likes,
  completed;
* `rel_find?_classesIn`: so a class-like is found by its name if its declaration is;
* `SessionBy.Faithful`: sessions that remember sources by their text are faithful to each;
* `faithful_answers`: requests leave them so.
-/

namespace PhpSymbols

/-- Lists that are related item by item are searched alike. -/
theorem rel_find? {α β : Type} {R : α → β → Prop} {p : α → Bool} {q : β → Bool}
    (alike : ∀ a b, R a b → p a = q b) {as : List α} {bs : List β} (h : List.Forall₂ R as bs) :
    Option.Rel R (as.find? p) (bs.find? q) := by
  induction h with
  | nil => exact .none
  | @cons a b as bs first _ ih =>
    rw [List.find?_cons, List.find?_cons, ← alike a b first]
    split
    · exact .some first
    · exact ih

theorem isSome_eq_of_rel {α β : Type} {R : α → β → Prop} {a : Option α} {b : Option β}
    (h : Option.Rel R a b) : a.isSome = b.isSome := by
  cases h <;> rfl

/-- What is in the second of two lists that are related item by item has its item in the first. -/
theorem exists_of_forall₂ {α β : Type} {R : α → β → Prop} {as : List α} {bs : List β}
    (h : List.Forall₂ R as bs) {b : β} (mem : b ∈ bs) : ∃ a ∈ as, R a b := by
  induction h with
  | nil => exact absurd mem List.not_mem_nil
  | @cons a _ as _ first _ ih =>
    rcases List.mem_cons.1 mem with rfl | mem
    · exact ⟨a, List.mem_cons_self, first⟩
    · obtain ⟨a, mem, same⟩ := ih mem
      exact ⟨a, List.mem_cons_of_mem _ mem, same⟩

/-- What the session remembers under the key of the source is what is read from the source. -/
def SessionBy.FaithfulTo [Php.Frontend] {κ : Type} {key : String → κ} [DecidableEq κ]
    (resolver : Resolver) (s : SessionBy key) (source : String) : Prop :=
  ∀ known, s.cache = some known → ∀ d, known.lookup (key source) = some d →
    d = Declarations.of resolver source

theorem SessionBy.faithfulTo_of_uncached [Php.Frontend] {κ : Type} {key : String → κ}
    [DecidableEq κ] {resolver : Resolver} {s : SessionBy key} (uncached : s.cache = none)
    (source : String) :
    s.FaithfulTo resolver source :=
  fun _ cached => absurd (uncached.symm.trans cached) nofun

/-- What the session remembers of a source is what is read from it. -/
def SessionBy.Faithful [Php.Frontend] (resolver : Resolver) (s : Session) : Prop :=
  ∀ known, s.cache = some known → ∀ source d, (source, d) ∈ known →
    d = Declarations.of resolver source

theorem SessionBy.Faithful.to [Php.Frontend] {resolver : Resolver} {s : Session}
    (h : s.Faithful resolver) (source : String) : s.FaithfulTo resolver source :=
  fun known cached d found => h known cached source d (mem_of_lookup found)

namespace ReflectorBy
variable {κ : Type} {key : String → κ} [DecidableEq κ] (r : ReflectorBy key) {s : SessionBy key}
  {source : String}

/-- Whether they are remembered or read, the declarations of a source are the same. -/
theorem run_declarations [Php.Frontend] (faithful : s.FaithfulTo r.resolver source) :
    ((r.declarations source).run s).1 = .of r.resolver source := by
  rw [run_declarations_eq]
  split
  · rfl
  · rename_i known cached
    split
    · rename_i d found
      exact faithful known cached d found
    · rfl

/-- The declarations in which supertypes of a source are looked up first, if any. -/
def context [Php.Frontend] (source : String) : Option Declarations :=
  if r.isContextual then some (.of r.resolver source) else none

/-- `c` is the declared class-like with the members that providers offer; more may be known of
its supertypes. -/
def Completes (d : DeclaredClass) (c : ClassLike) : Prop :=
  ∃ parents interfaces traits,
    c = { d.withVirtualMembers r.resolver r.providers with parents, interfaces, traits }

variable {r} in
omit [DecidableEq κ] in
/-- Neither its names nor its place depend on what else is known of a class-like. -/
theorem Completes.same {d : DeclaredClass} {c : ClassLike} (h : r.Completes d c) :
    c.name = d.symbol.name ∧ c.fqn = d.symbol.fqn ∧ c.startOffset = d.symbol.startOffset ∧
      c.endOffset = d.symbol.endOffset := by
  obtain ⟨_, _, _, rfl⟩ := h
  rw [DeclaredClass.withVirtualMembers_eq]
  exact ⟨rfl, rfl, rfl, rfl⟩

theorem toList_functionsIn [Php.Frontend] (faithful : s.FaithfulTo r.resolver source) :
    ((r.functionsIn source).run s).1.toList = (Declarations.of r.resolver source).functions :=
  congrArg Declarations.functions (r.run_declarations faithful)

/-- The class-likes of a source are those that it declares, each completed in turn. -/
theorem completesBy_classesIn [Php.Frontend] [Walker] {R : Supertype → Supertype → Prop}
    {I : SessionBy key → Prop} (faithful : s.FaithfulTo r.resolver source)
    (step : ∀ t s, I s → R t ((r.completeSupertype (r.context source) t).run s).1 ∧
      I ((r.completeSupertype (r.context source) t).run s).2)
    (here : I ((r.declarations source).run s).2) :
    List.Forall₂ (r.CompletesBy R) (Declarations.of r.resolver source).classes
        ((r.classesIn source).run s).1.toList ∧
      I ((r.classesIn source).run s).2 := by
  have loop := forall₂_mapM (fun d s => r.completesBy_complete step d) (s := _)
    (Declarations.of r.resolver source).classes here
  rw [context, ← r.run_declarations faithful] at loop
  rw [← r.run_declarations faithful]
  exact loop

theorem toList_classesIn [Php.Frontend] [Walker] (faithful : s.FaithfulTo r.resolver source) :
    List.Forall₂ r.Completes (Declarations.of r.resolver source).classes
      ((r.classesIn source).run s).1.toList := by
  have completed := (r.completesBy_classesIn (I := fun _ => True) faithful
    (fun t s _ => ⟨r.completeSupertype_resolves _ t s, trivial⟩) trivial).1
  refine completed.imp ?_
  rintro d c ⟨parents, interfaces, traits, completes, -⟩
  exact ⟨parents, interfaces, traits, completes⟩

/-- A class-like answers to the names that its declaration answers to. -/
theorem rel_find?_classesIn [Php.Frontend] [Walker] (faithful : s.FaithfulTo r.resolver source)
    (n : String) :
    Option.Rel r.Completes
      ((Declarations.of r.resolver source).classes.find? (Named.answersTo ·.symbol n))
      (((r.classesIn source).run s).1.find? n) := by
  refine rel_find? ?_ (r.toList_classesIn faithful)
  intro d c completes
  obtain ⟨name, fqn, -, -⟩ := completes.same
  change answersToQualified d.symbol.name d.symbol.fqn n = answersToQualified c.name c.fqn n
  rw [name, fqn]

theorem exists_find?_classesIn_iff [Php.Frontend] [Walker]
    (faithful : s.FaithfulTo r.resolver source) (n : String) :
    (∃ c, ((r.classesIn source).run s).1.find? n = some c) ↔
      ∃ d ∈ (Declarations.of r.resolver source).classes, Named.answersTo d.symbol n = true := by
  rw [← Option.isSome_iff_exists, ← isSome_eq_of_rel (r.rel_find?_classesIn faithful n),
    List.find?_isSome]

theorem exists_find?_functionsIn_iff [Php.Frontend] (faithful : s.FaithfulTo r.resolver source)
    (n : String) :
    (∃ f, ((r.functionsIn source).run s).1.find? n = some f) ↔
      ∃ f ∈ (Declarations.of r.resolver source).functions, Named.answersTo f n = true := by
  rw [Collection.find?, r.toList_functionsIn faithful, ← Option.isSome_iff_exists,
    List.find?_isSome]

end ReflectorBy

namespace Reflector
variable {r : Reflector} {s : Session}

theorem faithful_of_parses [Php.Frontend] [Walker] {α : Type} {m : Reflect α} {ts : List String}
    (h : r.Parses m s ts) (faithful : s.Faithful r.resolver) : (m.run s).2.Faithful r.resolver := by
  induction h with
  | pure => exact faithful
  | bind _ _ first then_ => exact then_ (first faithful)
  | declarations source s =>
    rw [ReflectorBy.run_declarations_eq]
    split
    · exact faithful
    · rename_i known cached
      split
      · exact faithful
      · intro _ same text d member
        obtain rfl := Option.some.inj same
        rcases List.mem_cons.1 member with new | old
        · obtain ⟨rfl, rfl⟩ := Prod.mk.inj new
          rfl
        · exact faithful known cached text d old
  | locate i name s =>
    rw [Session.run_locate]
    split <;> exact faithful
  | searchAll _ ih => exact ih faithful

/-- Requests leave a faithful session faithful. -/
theorem faithful_answers [Php.Frontend] [Walker] (requests : List Request)
    (faithful : s.Faithful r.resolver) :
    ((r.answers requests).run s).2.Faithful r.resolver := by
  obtain ⟨_, read⟩ := r.exists_reads requests s
  induction read with
  | nil => exact faithful
  | question parsed _ ih =>
    rw [ReflectorBy.run_answers_cons]
    exact ih (faithful_of_parses parsed faithful)
  | edit _ ih =>
    rw [ReflectorBy.run_answers_cons]
    exact ih faithful

end Reflector
end PhpSymbols
