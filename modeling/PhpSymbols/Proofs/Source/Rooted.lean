import PhpSymbols.Source.Locator

/-!
# Where located sources stand

* `Path.follow`: where a path leads if every directory on its way is there (`follow_of_resolve?`);
* `FileTree.HasBelow`: a text is the content of a file below a root now;
* `Locator.Holds`: a locator has a text for a name now, as a registered source or as such a file;
* `Locator.Rooted`: what an index remembers are places below the roots. It need not be up to date,
  since a file is read when it is located: `holds_of_locate`.
-/

namespace PhpSymbols

/-! ### Paths -/

namespace Path

/-- Files stand at plain paths: there is no `.`, no `..` and no empty component in them. -/
def IsPlain (p : Path) : Prop := ∀ c ∈ p, c ≠ "" ∧ c ≠ "." ∧ c ≠ ".."

instance (p : Path) : Decidable p.IsPlain := inferInstanceAs (Decidable (∀ c ∈ p, _))

/-- Where `p` leads from `start`, whatever directories there are. -/
def follow (start : Path) : (p : Path) → Path
  | [] => start
  | c :: rest =>
    if c = "." ∨ c = "" then follow start rest
    else if c = ".." then follow start.dropLast rest
    else follow (start ++ [c]) rest

theorem follow_append (start p q : Path) : follow start (p ++ q) = follow (follow start p) q := by
  induction p generalizing start with
  | nil => rfl
  | cons c p ih =>
    simp only [List.cons_append, follow]
    split
    · exact ih _
    · split <;> exact ih _

theorem follow_of_isPlain {p : Path} (plain : p.IsPlain) (start : Path) :
    follow start p = start ++ p := by
  induction p generalizing start with
  | nil => simp [follow]
  | cons c p ih =>
    obtain ⟨notEmpty, notDot, notUp⟩ := plain c List.mem_cons_self
    have ih := ih (fun d h => plain d (List.mem_cons_of_mem c h)) (start ++ [c])
    simp [follow, notEmpty, notDot, notUp, ih]

end Path

namespace FileTree
variable {t : FileTree}

theorem follow_of_walkFrom {start p q : Path} (h : t.walkFrom start p = some q) :
    q = Path.follow start p := by
  fun_induction walkFrom t start p with
  | case1 => exact (Option.some.inj h).symm
  | case2 => exact absurd h nofun
  | case3 start c rest _ here ih => rw [Path.follow, if_pos here, ih h]
  | case4 start rest _ _ ih => rw [Path.follow, if_neg (by decide), if_pos rfl, ih h]
  | case5 start c rest _ notHere notUp ih => rw [Path.follow, if_neg notHere, if_neg notUp, ih h]

theorem follow_of_resolve? {p q : Path} (h : t.resolve? p = some q) : q = Path.follow [] p :=
  follow_of_walkFrom h

/-- A file with this text stands somewhere below `root`. -/
def HasBelow (t : FileTree) (root : Path) (text : String) : Prop :=
  ∃ below, below ≠ [] ∧ t.files.lookup (Path.follow [] root ++ below) = some (.text text)

theorem lookup_of_readText? {p : Path} {text : String} (h : t.readText? p = some text) :
    t.files.lookup (Path.follow [] p) = some (.text text) := by
  rw [readText?] at h
  split at h
  · rename_i s read
    obtain ⟨q, resolved, found⟩ := Option.bind_eq_some_iff.1 read
    rw [← follow_of_resolve? resolved, found, Option.some.inj h]
  · exact absurd h nofun

/-- The file that is read at a plain path below a root. -/
theorem hasBelow_of_readText? {root below : Path} {text : String} (plain : below.IsPlain)
    (notRoot : below ≠ []) (h : t.readText? (root ++ below) = some text) :
    t.HasBelow root text := by
  have found := lookup_of_readText? h
  rw [Path.follow_append, Path.follow_of_isPlain plain] at found
  exact ⟨below, notRoot, found⟩

end FileTree

/-! ### Conventional files -/

theorem isPlain_of_conventionalSuffix? {name : String} {suffix : Path}
    (h : conventionalSuffix? name = some suffix) : suffix.IsPlain ∧ suffix ≠ [] := by
  rw [conventionalSuffix?] at h
  split at h
  · rename_i all
    obtain ⟨last, isLast, rfl⟩ := Option.map_eq_some_iff.1 h
    refine ⟨?_, by simp⟩
    intro c mem
    rcases List.mem_append.1 mem with mem | mem
    · have plain := List.all_eq_true.1 all c (List.dropLast_subset _ mem)
      simp only [isPlainComponent, Bool.and_eq_true, decide_eq_true_eq] at plain
      exact ⟨plain.1.1.1, plain.1.1.2, plain.1.2⟩
    · -- the name of a file is longer than any component that is not plain
      have longer : 4 ≤ c.length := by
        rw [List.mem_singleton.1 mem, String.length_append]
        exact Nat.le_add_left _ _
      refine ⟨?_, ?_, ?_⟩ <;> rintro rfl <;> exact absurd longer (by decide)
  · exact absurd h nofun

/-! ### Walks -/

/-- What is relied on of a walk: it comes to files, and they stand below the directory that it is
to walk. -/
class LawfulWalker [Walker] : Prop where
  reaches : ∀ (t : FileTree) (root p : Path), p ∈ Walker.walk t root →
    (∃ f ∈ t.files, f.1 = p) ∧
      ∃ start below, t.resolve? root = some start ∧ below ≠ [] ∧ p = start ++ below

/-- A walk that heeds ignore files comes to some of the files below its directory. -/
instance Ignore.lawfulWalker : LawfulWalker where
  reaches := by
    intro t root p walked
    change p ∈ Ignore.walk t root at walked
    rw [Ignore.walk] at walked
    split at walked
    · exact absurd walked List.not_mem_nil
    · rename_i start resolved
      obtain ⟨isFile, reached⟩ := List.mem_filter.1 walked
      simp only [Ignore.isReached, Bool.and_eq_true, decide_eq_true_eq] at reached
      obtain ⟨below, rfl⟩ := List.isPrefixOf_iff_prefix.1 reached.1.1
      refine ⟨List.mem_map.1 isFile, start, below, resolved, ?_, rfl⟩
      rintro rfl
      have longer := reached.1.2
      rw [List.append_nil] at longer
      exact Nat.lt_irrefl _ longer

/-! ### Locators -/

/-- The path of a file below one of the roots. -/
def IsRooted (roots : List Path) (p : Path) : Prop :=
  p.IsPlain ∧ ∃ root ∈ roots, ∃ below, below ≠ [] ∧ p = Path.follow [] root ++ below

namespace DirectoryLocator

/-- The files stand at plain paths, and what is indexed are files below the roots. -/
structure Rooted (l : DirectoryLocator) : Prop where
  plain : ∀ f ∈ l.tree.files, f.1.IsPlain
  indexed : ∀ index, l.index = some index → ∀ entry ∈ index, IsRooted l.roots entry.2

variable {l : DirectoryLocator}

theorem isRooted_of_mem_ofRoots [Php.Frontend] [Walker] [LawfulWalker]
    (plain : ∀ f ∈ l.tree.files, f.1.IsPlain) {entry : String × Path}
    (h : entry ∈ Index.ofRoots l.tree l.roots) : IsRooted l.roots entry.2 := by
  obtain ⟨root, isRoot, h⟩ := List.mem_flatMap.1 h
  rw [Index.ofRoot] at h
  split at h
  · obtain ⟨p, walked, h⟩ := List.mem_flatMap.1 h
    obtain ⟨key, -, rfl⟩ := List.mem_map.1 h
    obtain ⟨⟨f, mem, rfl⟩, start, below, resolved, notRoot, same⟩ :=
      LawfulWalker.reaches _ _ _ (List.mem_filter.1 walked).1
    refine ⟨plain f mem, root, isRoot, below, notRoot, ?_⟩
    rw [← FileTree.follow_of_resolve? resolved]
    exact same
  · exact absurd h List.not_mem_nil

theorem Rooted.build [Php.Frontend] [Walker] [LawfulWalker] (rooted : l.Rooted) :
    l.indexed.Rooted := by
  refine ⟨rooted.plain, ?_⟩
  intro index same entry mem
  obtain rfl := Option.some.inj same
  cases built : l.index with
  | none =>
    rw [built] at mem
    exact isRooted_of_mem_ofRoots rooted.plain mem
  | some known =>
    rw [built] at mem
    exact rooted.indexed known built entry mem

theorem Rooted.locate [Php.Frontend] [Walker] [LawfulWalker] (rooted : l.Rooted) (name : String) :
    (l.locate name).2.Rooted := by
  rw [DirectoryLocator.locate]
  split
  · exact rooted
  · exact rooted.build

/-- The file that the index of a locator has for a name. -/
theorem hasBelow_of_indexedPath? (rooted : l.Rooted) {name text : String}
    (h : (l.indexedPath? name).bind l.tree.readText? = some text) :
    ∃ root ∈ l.roots, l.tree.HasBelow root text := by
  obtain ⟨p, indexed, read⟩ := Option.bind_eq_some_iff.1 h
  obtain ⟨index, built, found⟩ := Option.bind_eq_some_iff.1 indexed
  obtain ⟨plain, root, isRoot, below, notRoot, rfl⟩ :=
    rooted.indexed index built _ (mem_of_lookup found)
  have read := FileTree.lookup_of_readText? read
  rw [Path.follow_of_isPlain plain, List.nil_append] at read
  exact ⟨root, isRoot, below, notRoot, read⟩

theorem hasBelow_of_conventionalPath? {name text : String} {p : Path}
    (conventional : l.conventionalPath? name = some p) (read : l.tree.readText? p = some text) :
    ∃ root ∈ l.roots, l.tree.HasBelow root text := by
  obtain ⟨suffix, spelled, found⟩ := Option.bind_eq_some_iff.1 conventional
  obtain ⟨root, isRoot, rfl⟩ := List.mem_map.1 (List.mem_of_find?_eq_some found)
  obtain ⟨plain, notRoot⟩ := isPlain_of_conventionalSuffix? spelled
  exact ⟨root, isRoot, FileTree.hasBelow_of_readText? plain notRoot read⟩

theorem readFound_eq_ok {name text : String} {p : Option Path} (h : l.readFound name p = .ok text) :
    p.bind l.tree.readText? = some text := by
  rw [readFound] at h
  split at h
  · rename_i source read
    rw [read, Except.ok.inj h]
  · exact absurd h nofun

theorem hasBelow_of_locate [Php.Frontend] [Walker] [LawfulWalker] (rooted : l.Rooted)
    {name text : String} (h : (l.locate name).1 = .ok text) :
    ∃ root ∈ l.roots, l.tree.HasBelow root text := by
  rw [DirectoryLocator.locate] at h
  split at h
  · rename_i p conventional
    exact hasBelow_of_conventionalPath? conventional (readFound_eq_ok h)
  · exact hasBelow_of_indexedPath? rooted.build (readFound_eq_ok h)

end DirectoryLocator

namespace Locator

/-- The locator has the text for `name` at this moment: as the source registered under the key of
the name, or as the content of a file below one of its roots. -/
def Holds (name text : String) : Locator → Prop
  | .temporary l => l.sources.lookup (indexKey name) = some text
  | .directory l => ∃ root ∈ l.roots, l.tree.HasBelow root text

def Rooted : Locator → Prop
  | .temporary _ => True
  | .directory l => l.Rooted

/-- A locator before its first question: nothing is indexed, and files stand at plain paths. -/
def IsFresh : Locator → Prop
  | .temporary _ => True
  | .directory l => l.index = none ∧ ∀ f ∈ l.tree.files, f.1.IsPlain

/-- The locator without what it remembers of its files. -/
def unindexed : Locator → Locator
  | .temporary l => .temporary l
  | .directory l => .directory { l with index := none }

variable {l l' : Locator}

theorem IsFresh.rooted (fresh : l.IsFresh) : l.Rooted := by
  cases l with
  | temporary => trivial
  | directory l =>
    obtain ⟨none, plain⟩ := fresh
    refine ⟨plain, ?_⟩
    intro index built
    exact absurd (none.symm.trans built) nofun

theorem Rooted.locate [Php.Frontend] [Walker] [LawfulWalker] (rooted : l.Rooted) (name : String) :
    (l.locate name).2.Rooted := by
  cases l with
  | temporary => trivial
  | directory l => exact DirectoryLocator.Rooted.locate rooted name

/-- Asking changes none of the sources. -/
theorem unindexed_locate [Php.Frontend] [Walker] (l : Locator) (name : String) :
    (l.locate name).2.unindexed = l.unindexed := by
  cases l with
  | temporary => rfl
  | directory l =>
    change (directory (l.locate name).2).unindexed = _
    rw [DirectoryLocator.locate]
    split <;> rfl

/-- What was located is there. -/
theorem holds_of_locate [Php.Frontend] [Walker] [LawfulWalker] (rooted : l.Rooted)
    {name text : String} (h : (l.locate name).1 = .ok text) : l.Holds name text := by
  cases l with
  | temporary l =>
    rw [Locator.locate, TemporaryLocator.locate] at h
    dsimp only at h
    split at h
    · rename_i source found
      exact found.trans (congrArg some (Except.ok.inj h))
    · exact absurd h nofun
  | directory l => exact DirectoryLocator.hasBelow_of_locate rooted h

theorem holds_unindexed (l : Locator) (name text : String) :
    l.unindexed.Holds name text ↔ l.Holds name text := by
  cases l <;> exact Iff.rfl

end Locator
end PhpSymbols
