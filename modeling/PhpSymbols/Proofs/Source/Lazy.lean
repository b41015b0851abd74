import PhpSymbols.Proofs.Source.Walked

/-!
# Building the index late

A directory locator builds its index when a name is first not found without it. As long as the
files stay as they are, nobody can tell.

* `IsCurrent`: the index, if it is built, is what the walks of the roots give; questions keep it so;
* `IsCurrent.locate`: then an answer follows from the files alone;
* `answers_locateAll`: so a run of questions is answered as by a locator that is made with its
  index.
-/

namespace PhpSymbols.DirectoryLocator
variable [Php.Frontend] [Walker]

/-- A locator that is made with its index. -/
def eager (tree : FileTree) (roots : List Path) : DirectoryLocator :=
  { tree, roots, index := some (Index.ofRoots tree roots) }

/-- Asks for names one after another. -/
def locateAll (l : DirectoryLocator) :
    List String → List (Except ReflectError String) × DirectoryLocator
  | [] => ([], l)
  | name :: names =>
    let (answer, next) := l.locate name
    let (answers, last) := next.locateAll names
    (answer :: answers, last)

/-- Nothing is indexed yet, or just what the roots hold now. -/
def IsCurrent (l : DirectoryLocator) : Prop :=
  ∀ index, l.index = some index → index = Index.ofRoots l.tree l.roots

variable {l : DirectoryLocator}

theorem isCurrent_of_fresh (fresh : l.index = none) : l.IsCurrent := by
  intro index built
  exact absurd (fresh.symm.trans built) nofun

theorem isCurrent_eager (tree : FileTree) (roots : List Path) : (eager tree roots).IsCurrent :=
  fun _ built => (Option.some.inj built).symm

/-- To build an index that is current changes nothing but whether it is there. -/
theorem IsCurrent.indexed_eq (current : l.IsCurrent) : l.indexed = eager l.tree l.roots := by
  rw [indexed, eager]
  cases built : l.index with
  | none => rfl
  | some index => rw [Option.getD_some, current index built]

/-- A question leaves the locator as it was, or with its index built. -/
theorem locate_cases (l : DirectoryLocator) (name : String) :
    (l.locate name).2 = l ∨ (l.locate name).2 = l.indexed := by
  rw [locate]
  split
  · exact .inl rfl
  · exact .inr rfl

/-- A question changes neither files nor roots, and keeps the index current. -/
theorem IsCurrent.locate_next (current : l.IsCurrent) (name : String) :
    (l.locate name).2.tree = l.tree ∧ (l.locate name).2.roots = l.roots ∧
      (l.locate name).2.IsCurrent := by
  rcases l.locate_cases name with same | built
  · rw [same]
    exact ⟨rfl, rfl, current⟩
  · rw [built, current.indexed_eq]
    exact ⟨rfl, rfl, isCurrent_eager l.tree l.roots⟩

/-- The answer for a name, as the files alone give it. -/
def answer (tree : FileTree) (roots : List Path) (name : String) : Except ReflectError String :=
  match ({ tree, roots } : DirectoryLocator).textFor? name with
  | some text => .ok text
  | none => .error (sourceNotFound name)

/-- Whether the index was built before does not show. -/
theorem IsCurrent.locate (current : l.IsCurrent) (name : String) :
    (l.locate name).1 = answer l.tree l.roots name := by
  have unbuilt : (({ l with index := none } : DirectoryLocator).locate name).1 =
      answer l.tree l.roots name := locate_eq rfl name
  have path : ({ l with index := none } : DirectoryLocator).conventionalPath? name =
      l.conventionalPath? name := rfl
  rw [← unbuilt, DirectoryLocator.locate, DirectoryLocator.locate, path, current.indexed_eq]
  cases l.conventionalPath? name <;> rfl

/-- A run of questions is answered from the files, and its end is no different from its start. -/
theorem IsCurrent.locateAll (current : l.IsCurrent) (names : List String) :
    (l.locateAll names).1 = names.map (answer l.tree l.roots) ∧
      (l.locateAll names).2.tree = l.tree ∧ (l.locateAll names).2.roots = l.roots ∧
      (l.locateAll names).2.IsCurrent := by
  induction names generalizing l with
  | nil => exact ⟨rfl, rfl, rfl, current⟩
  | cons name names ih =>
    obtain ⟨sameTree, sameRoots, next⟩ := current.locate_next name
    obtain ⟨answers, lastTree, lastRoots, last⟩ := ih next
    rw [sameTree, sameRoots] at answers
    refine ⟨?_, lastTree.trans sameTree, lastRoots.trans sameRoots, last⟩
    rw [List.map_cons, ← current.locate name, ← answers]
    rfl

/-- A locator that builds its index when it needs it answers every run of questions like one that is
made with its index: each answer is the one to that name alone, which the files give, and after the
run a question has the answer that it had before. -/
theorem answers_locateAll (tree : FileTree) (roots : List Path) (names : List String) :
    let l : DirectoryLocator := { tree, roots }
    (l.locateAll names).1 = ((eager tree roots).locateAll names).1 ∧
    (l.locateAll names).1 = names.map (fun name => ((eager tree roots).locate name).1) ∧
    (∀ name, ((l.locateAll names).2.locate name).1 = ((eager tree roots).locate name).1) ∧
    ∀ name, ((eager tree roots).locate name).1 = answer tree roots name := by
  intro l
  have fresh : l.IsCurrent := isCurrent_of_fresh rfl
  have built : (eager tree roots).IsCurrent := isCurrent_eager tree roots
  have single (name : String) :
      ((eager tree roots).locate name).1 = answer tree roots name := built.locate name
  obtain ⟨lazyAnswers, lastTree, lastRoots, last⟩ := fresh.locateAll names
  refine ⟨lazyAnswers.trans (built.locateAll names).1.symm, ?_, ?_, single⟩
  · rw [lazyAnswers]
    exact List.map_congr_left fun name _ => (single name).symm
  · intro name
    rw [last.locate, lastTree, lastRoots, single]

end PhpSymbols.DirectoryLocator
