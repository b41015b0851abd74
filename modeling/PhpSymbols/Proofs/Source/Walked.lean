import PhpSymbols.Source.Locator

/-!
# The first text for a name

A directory locator looks for the file that a name spells, and only if there is none in what the
walks of its roots reach.

* `DirectoryLocator.texts`: the texts of the PHP files that the walks reach, in order;
* `lookup_ofRoots`: the index leads to the first of them that declares something under a key;
* `locate_eq`: so a locator that has not built its index finds the text `textFor?`.
-/

namespace PhpSymbols

/-! ### The index -/

/-- The keys that a file declares, with the file. -/
def Index.entries [Php.Frontend] (t : FileTree) (p : Path) : Index :=
  ((t.readText? p).map declaredNames).getD [] |>.map fun key => (key, p)

theorem lookup_map_mk {α β : Type} [DecidableEq α] (keys : List α) (b : β) (k : α) :
    (keys.map fun key => (key, b)).lookup k = if k ∈ keys then some b else none := by
  induction keys with
  | nil => rfl
  | cons key keys ih =>
    rw [List.map_cons, List.lookup_cons, ih]
    by_cases here : k = key
    · simp [here]
    · simp [here, beq_false_of_ne here]

theorem Index.lookup_entries [Php.Frontend] (t : FileTree) (p : Path) (k : String) :
    (entries t p).lookup k =
      if (t.readText? p).any fun text => k ∈ declaredNames text then some p else none := by
  rw [entries]
  cases t.readText? p with
  | none => rfl
  | some text =>
    rw [Option.map_some, Option.getD_some, Option.any_some, lookup_map_mk]
    simp only [decide_eq_true_eq]

namespace DirectoryLocator
variable (l : DirectoryLocator)

/-- The PHP files that the walks of the roots reach, one root after another. -/
def files [Walker] : List Path :=
  l.roots.flatMap fun root =>
    if l.tree.isDirectory root then (Walker.walk l.tree root).filter isPhpFile else []

/-- The texts of these files; one that holds no text is left out. -/
def texts [Walker] : List String := l.files.filterMap l.tree.readText?

theorem ofRoots_eq [Php.Frontend] [Walker] :
    Index.ofRoots l.tree l.roots = l.files.flatMap (Index.entries l.tree) := by
  rw [files, List.flatMap_assoc, Index.ofRoots]
  congr 1
  funext root
  rw [Index.ofRoot]
  split <;> rfl

/-- What is indexed under a key is the first text that declares something under it. -/
theorem lookup_ofRoots [Php.Frontend] [Walker] (k : String) :
    ((Index.ofRoots l.tree l.roots).lookup k).bind l.tree.readText? =
      l.texts.find? (k ∈ declaredNames ·) := by
  rw [ofRoots_eq, texts]
  induction l.files with
  | nil => rfl
  | cons p files ih =>
    rw [List.flatMap_cons, List.lookup_append, Index.lookup_entries]
    cases read : l.tree.readText? p with
    | none =>
      rw [List.filterMap_cons_none read]
      exact ih
    | some text =>
      rw [List.filterMap_cons_some read, List.find?_cons]
      by_cases here : k ∈ declaredNames text
      · simp [here, read]
      · simp [here, ih]

/-! ### Locating -/

/-- The text of the file that the name spells, if there is such a file, and else the first of the
walked texts that declares something under the key of the name. -/
def textFor? [Php.Frontend] [Walker] (name : String) : Option String :=
  match l.conventionalPath? name with
  | some p => l.tree.readText? p
  | none => l.texts.find? (indexKey name ∈ declaredNames ·)

/-- Nothing for which `declares` holds is looked at under the name: the file that the name spells is
not such a text, or there is no such file and the first walked text that declares something under
the key of the name is not. -/
def Hides [Php.Frontend] [Walker] (name : String) (declares : String → Prop) : Prop :=
  (∃ p, l.conventionalPath? name = some p ∧
    ∀ text, l.tree.readText? p = some text → ¬ declares text) ∨
  l.conventionalPath? name = none ∧ ∃ before first behind, l.texts = before ++ first :: behind ∧
    (∀ text ∈ before, indexKey name ∉ declaredNames text) ∧
    indexKey name ∈ declaredNames first ∧ ¬ declares first

variable {l}

/-- If a walked text declares something under the key of a name, then what the locator finds for the
name is as required, unless it is hidden. -/
theorem exists_textFor?_iff [Php.Frontend] [Walker] {name text : String} {declares : String → Prop}
    (walked : text ∈ l.texts) (indexed : indexKey name ∈ declaredNames text) :
    (∃ found, l.textFor? name = some found ∧ declares found) ↔ ¬ l.Hides name declares := by
  rw [textFor?]
  cases conventional : l.conventionalPath? name with
  | some p =>
    dsimp only
    constructor
    · rintro ⟨found, read, holds⟩ (⟨q, same, none⟩ | ⟨missing, -⟩)
      · obtain rfl := Option.some.inj (conventional.symm.trans same)
        exact none found read holds
      · exact absurd (conventional.symm.trans missing) nofun
    · intro shown
      refine Classical.byContradiction fun none => shown (.inl ⟨p, conventional, ?_⟩)
      exact fun found read holds => none ⟨found, read, holds⟩
  | none =>
    dsimp only
    have isSome : (l.texts.find? (indexKey name ∈ declaredNames ·)).isSome :=
      List.find?_isSome.2 ⟨text, walked, decide_eq_true indexed⟩
    obtain ⟨first, looked⟩ := Option.isSome_iff_exists.1 isSome
    constructor
    · rintro ⟨found, looked, holds⟩ (⟨q, same, -⟩ | ⟨-, before, first, behind, split, hidden⟩)
      · exact absurd (conventional.symm.trans same) nofun
      · obtain ⟨others, here, none⟩ := hidden
        have again : l.texts.find? (indexKey name ∈ declaredNames ·) = some first :=
          List.find?_eq_some_iff_append.2
            ⟨decide_eq_true here, before, behind, split, fun t mem => by simpa using others t mem⟩
        obtain rfl := Option.some.inj (looked.symm.trans again)
        exact none holds
    · intro shown
      obtain ⟨here, before, behind, split, others⟩ := List.find?_eq_some_iff_append.1 looked
      refine ⟨first, looked, Classical.byContradiction fun none => shown (.inr ⟨conventional, ?_⟩)⟩
      exact ⟨before, first, behind, split, fun t mem => by simpa using others t mem,
        of_decide_eq_true here, none⟩

theorem locate_eq [Php.Frontend] [Walker] (fresh : l.index = none) (name : String) :
    (l.locate name).1 = match l.textFor? name with
      | some text => .ok text
      | none => .error (sourceNotFound name) := by
  rw [locate, textFor?]
  cases l.conventionalPath? name with
  | some p => rfl
  | none =>
    dsimp only
    rw [readFound, indexedPath?, indexed, fresh, ← lookup_ofRoots]
    rfl

end DirectoryLocator
end PhpSymbols
