import PhpSymbols.Source.WrittenPath
import PhpSymbols.Proofs.Source.Rooted

/-!
# Names stay below the roots

* `segments`, `IsComponent`: the segments of a name, and those that can name a file or a directory;
* `asFile`: the path that plain segments spell, which stays below any directory (`IsBelow`);
* `components_join`: the path of the same segments joined as text;
* `conventionalPath?_inside`: the conventional file of a name stands below the first root that has
  one, and a name with any other segment has none.
-/

namespace PhpSymbols

/-- The segments of a name, behind its leading backslashes. -/
def segments (name : String) : List String :=
  ((name.toList.dropWhile (· == '\\')).splitOn '\\').map String.ofList

/-- Something that a directory can hold under this name. -/
structure IsComponent (c : String) : Prop where
  some : c ≠ ""
  notDot : c ≠ "."
  notUp : c ≠ ".."
  noSlash : '/' ∉ c.toList
  noNull : '\x00' ∉ c.toList

/-- The path of a source file that segments spell. -/
def asFile (segments : List String) : Path :=
  segments.dropLast ++ [segments.getLast?.getD "" ++ ".php"]

/-- A path of one or more plain components to a source file. -/
structure IsBelow (below : Path) : Prop where
  components : ∀ c ∈ below, IsComponent c
  file : ∃ directories stem, below = directories ++ [stem ++ ".php"]

theorem isPlainComponent_iff {c : String} : isPlainComponent c = true ↔ IsComponent c := by
  have apart : (c.toList.any fun d => d == '/' || d == '\x00') = false ↔
      '/' ∉ c.toList ∧ '\x00' ∉ c.toList := by
    simp only [List.any_eq_false, Bool.or_eq_true, beq_iff_eq, not_or]
    constructor
    · exact fun none => ⟨fun mem => (none _ mem).1 rfl, fun mem => (none _ mem).2 rfl⟩
    · rintro ⟨noSlash, noNull⟩ d mem
      exact ⟨fun same => noSlash (same ▸ mem), fun same => noNull (same ▸ mem)⟩
  simp only [isPlainComponent, Bool.and_eq_true, decide_eq_true_eq, Bool.not_eq_true', apart]
  constructor
  · rintro ⟨⟨⟨some, notDot⟩, notUp⟩, noSlash, noNull⟩
    exact ⟨some, notDot, notUp, noSlash, noNull⟩
  · rintro ⟨some, notDot, notUp, noSlash, noNull⟩
    exact ⟨⟨⟨some, notDot⟩, notUp⟩, noSlash, noNull⟩

theorem segments_ne_nil (name : String) : segments name ≠ [] := by
  simp [segments, List.splitOn_ne_nil]

theorem conventionalSuffix?_eq_some_iff {name : String} {below : Path} :
    conventionalSuffix? name = some below ↔
      (∀ s ∈ segments name, IsComponent s) ∧ below = asFile (segments name) := by
  obtain ⟨before, last, spelled⟩ : ∃ before last, segments name = before ++ [last] :=
    ⟨_, _, (List.dropLast_concat_getLast (segments_ne_nil name)).symm⟩
  have all : (segments name).all isPlainComponent = true ↔ ∀ s ∈ segments name, IsComponent s := by
    simp only [List.all_eq_true, isPlainComponent_iff]
  change (if (segments name).all isPlainComponent = true then
    (segments name).getLast?.map fun last => (segments name).dropLast ++ [last ++ ".php"]
    else none) = some below ↔ _
  by_cases plain : ∀ s ∈ segments name, IsComponent s
  · rw [if_pos (all.2 plain), and_iff_right plain, spelled]
    simp [asFile, eq_comm]
  · rw [if_neg (mt all.1 plain)]
    simp [plain]

/-- The end of a source file's name makes nothing special of it. -/
theorem IsComponent.php {c : String} (component : IsComponent c) : IsComponent (c ++ ".php") := by
  have longer : 4 ≤ (c ++ ".php").length := by
    rw [String.length_append]
    exact Nat.le_add_left _ _
  refine ⟨?_, ?_, ?_, ?_, ?_⟩
  case refine_4 => simp [component.noSlash]
  case refine_5 => simp [component.noNull]
  all_goals
    intro same
    rw [same] at longer
    exact absurd longer (by decide)

theorem isBelow_asFile {name : String} (plain : ∀ s ∈ segments name, IsComponent s) :
    IsBelow (asFile (segments name)) := by
  refine ⟨?_, _, _, rfl⟩
  obtain ⟨before, last, spelled⟩ : ∃ before last, segments name = before ++ [last] :=
    ⟨_, _, (List.dropLast_concat_getLast (segments_ne_nil name)).symm⟩
  rw [spelled] at plain ⊢
  simp only [asFile, List.dropLast_concat, List.getLast?_concat, Option.getD_some,
    List.forall_mem_append, List.forall_mem_singleton] at plain ⊢
  exact ⟨plain.1, plain.2.php⟩

theorem IsBelow.isPlain {below : Path} (is : IsBelow below) : below.IsPlain := fun c mem =>
  ⟨(is.components c mem).some, (is.components c mem).notDot, (is.components c mem).notUp⟩

/-! ### The same path as text -/

section
variable {below : Path}

/-- The components of a written path, but for what a slash at the end asks for. -/
def innerComponents (written : List Char) : Path :=
  ((written.splitOn '/').map String.ofList).filter (· ≠ "")

theorem components_eq_or (written : String) :
    FileTree.components written = innerComponents written.toList ∨
    FileTree.components written = innerComponents written.toList ++ ["."] := by
  unfold FileTree.components innerComponents
  dsimp only
  split
  · exact .inr rfl
  · exact .inl rfl

theorem innerComponents_append_cons (s t : List Char) :
    innerComponents (s ++ '/' :: t) = innerComponents s ++ innerComponents t := by
  simp [innerComponents, List.splitOn, List.splitOnP_append_cons]

theorem map_ofList_splitOn (is : IsBelow below) :
    ((("/".intercalate below).toList.splitOn '/').map String.ofList) = below := by
  have some : below ≠ [] := by
    obtain ⟨directories, stem, rfl⟩ := is.file
    simp
  have apart : ∀ part ∈ below.map String.toList, '/' ∉ part := by
    simp only [List.forall_mem_map]
    exact fun c mem => (is.components c mem).noSlash
  rw [String.toList_intercalate]
  change ((['/'].intercalate (below.map String.toList)).splitOn '/').map String.ofList = below
  rw [List.splitOn_intercalate '/' apart (by simpa using some)]
  simp [Function.comp_def]

/-- The text starts with a component, so it is joined to a directory and does not replace it. -/
theorem not_isAbsolute_intercalate (is : IsBelow below) :
    WrittenPath.isAbsolute ("/".intercalate below) = false := by
  have whole := map_ofList_splitOn is
  unfold WrittenPath.isAbsolute
  cases spelled : ("/".intercalate below).toList with
  | nil => rfl
  | cons c rest =>
    apply Bool.eq_false_iff.2
    intro absolute
    obtain rfl : c = '/' := by simpa using absolute
    -- a slash in front would leave an empty component
    have empty : "" ∈ below := by
      rw [← whole, spelled]
      simp [List.splitOn, List.splitOnP_cons_eq_if_modifyHead]
    exact (is.components "" empty).some rfl

theorem components_of_parts (is : IsBelow below) {text : String} {parts : Path}
    (cut : (text.toList.splitOn '/').map String.ofList = parts ++ below) :
    FileTree.components text = parts.filter (· ≠ "") ++ below := by
  obtain ⟨directories, stem, ends⟩ := is.file
  have whole : below.filter (· ≠ "") = below := by
    rw [List.filter_eq_self]
    exact fun c mem => by simp [(is.components c mem).some]
  have file : stem ++ ".php" ≠ "" :=
    (is.components _ (by rw [ends]; exact List.mem_concat_self)).some
  have last : (parts ++ below).getLast? ≠ some "" := by
    rw [ends, ← List.append_assoc, List.getLast?_concat]
    exact fun same => file (Option.some.inj same)
  unfold FileTree.components
  simp only [cut, last, false_and, if_false, List.filter_append, whole]

/-- A path below a directory joined as text: the components stand behind those of the directory,
but for what a slash at its end asks for. -/
theorem components_join (is : IsBelow below) (written : String) :
    ∃ up, FileTree.components (WrittenPath.join written ("/".intercalate below)) = up ++ below ∧
      (FileTree.components written = up ∨ FileTree.components written = up ++ ["."]) := by
  have behind {text : String} {s : List Char}
      (same : text.toList = s ++ '/' :: ("/".intercalate below).toList) :
      FileTree.components text = innerComponents s ++ below := by
    apply components_of_parts is
    rw [same, List.splitOn, List.splitOnP_append_cons _ _ (by simp), List.map_append]
    exact congrArg _ (map_ofList_splitOn is)
  unfold WrittenPath.join
  simp only [not_isAbsolute_intercalate is, Bool.false_eq_true, false_or]
  by_cases empty : written.isEmpty = true
  · obtain rfl : written = "" := by simpa using empty
    refine ⟨[], ?_, .inl rfl⟩
    rw [if_pos empty]
    have cut : (("/".intercalate below).toList.splitOn '/').map String.ofList = [] ++ below :=
      map_ofList_splitOn is
    exact components_of_parts is cut
  · rw [if_neg empty]
    by_cases closed : written.toList.getLast? = some '/'
    · obtain ⟨s, ends⟩ := List.getLast?_eq_some_iff.1 closed
      refine ⟨innerComponents s, ?_, ?_⟩
      · rw [if_pos closed]
        exact behind (by simp [ends])
      · have same := components_eq_or written
        rwa [ends, innerComponents_append_cons, show innerComponents [] = [] from rfl,
          List.append_nil] at same
    · refine ⟨innerComponents written.toList, ?_, components_eq_or written⟩
      rw [if_neg closed]
      exact behind (by simp)

end

theorem intercalate_concat_append (separator : String) (before : List String)
    (last suffix : String) : separator.intercalate (before ++ [last ++ suffix]) =
      separator.intercalate (before ++ [last]) ++ suffix := by
  induction before with
  | nil => simp
  | cons c before ih =>
    cases before with
    | nil => simp [String.intercalate_cons_cons, String.append_assoc]
    | cons d before =>
      simp only [List.cons_append, String.intercalate_cons_cons, String.append_assoc] at ih ⊢
      rw [ih]

/-- Segments joined as text, with the end of a source file's name, are the path that they spell. -/
theorem intercalate_asFile (name : String) :
    "/".intercalate (segments name) ++ ".php" = "/".intercalate (asFile (segments name)) := by
  obtain ⟨before, last, spelled⟩ : ∃ before last, segments name = before ++ [last] :=
    ⟨_, _, (List.dropLast_concat_getLast (segments_ne_nil name)).symm⟩
  rw [spelled, ← intercalate_concat_append]
  simp [asFile]

namespace DirectoryLocator

/-- The conventional file of a name stands below the first root that has one, at a path of plain
components, which are the segments of the name. It is the same path if the segments are joined to
the root as text. A name with a segment of any other kind has no such file. -/
theorem conventionalPath?_inside (l : DirectoryLocator) (name : String) :
    (∀ p, l.conventionalPath? name = some p → ∃ before root behind below,
      l.roots = before ++ root :: behind ∧ p = root ++ below ∧
      below = asFile (segments name) ∧ IsBelow below ∧
      Path.follow [] p = Path.follow [] root ++ below ∧
      l.tree.isFile p = true ∧ ∀ other ∈ before, l.tree.isFile (other ++ below) = false) ∧
    ((∃ s ∈ segments name, ¬ IsComponent s) → l.conventionalPath? name = none) ∧
    ((∀ s ∈ segments name, IsComponent s) →
      (∀ root ∈ l.roots, l.tree.isFile (root ++ asFile (segments name)) = true →
        (l.conventionalPath? name).isSome) ∧
      ∀ written : String, ∃ up,
        FileTree.components (WrittenPath.join written ("/".intercalate (segments name) ++ ".php")) =
          up ++ asFile (segments name) ∧
        (FileTree.components written = up ∨ FileTree.components written = up ++ ["."])) := by
  refine ⟨?found, ?other, fun plain => ⟨?completes, ?text⟩⟩
  case found =>
    intro p found
    obtain ⟨below, spelled, found⟩ := Option.bind_eq_some_iff.1 found
    obtain ⟨plain, rfl⟩ := conventionalSuffix?_eq_some_iff.1 spelled
    obtain ⟨isFile, befores, behinds, split, first⟩ := List.find?_eq_some_iff_append.1 found
    obtain ⟨before, rest, roots, rfl, more⟩ := List.map_eq_append_iff.1 split
    obtain ⟨root, behind, rfl, rfl, rfl⟩ := List.map_eq_cons_iff.1 more
    have inside := isBelow_asFile plain
    refine ⟨before, root, behind, _, roots, rfl, rfl, inside, ?_, isFile, fun other mem => ?_⟩
    · rw [Path.follow_append, Path.follow_of_isPlain inside.isPlain]
    · simpa using first _ (List.mem_map_of_mem mem)
  case other =>
    rintro ⟨s, mem, not⟩
    cases spelled : conventionalSuffix? name with
    | none => simp [conventionalPath?, spelled]
    | some below => exact absurd ((conventionalSuffix?_eq_some_iff.1 spelled).1 s mem) not
  case completes =>
    intro root mem isFile
    have spelled := conventionalSuffix?_eq_some_iff.2 ⟨plain, rfl⟩
    simp only [conventionalPath?, spelled, Option.bind_eq_bind, Option.bind_some]
    exact List.find?_isSome.2 ⟨_, List.mem_map_of_mem mem, isFile⟩
  case text =>
    intro written
    rw [intercalate_asFile]
    exact components_join (isBelow_asFile plain) written

/-- Two roots, of which the second has a file; another stands beside them. -/
def sampleLocator : DirectoryLocator where
  tree := { files := [(["src", "Acme", "User.php"], .text ""), (["secret.php"], .text "")] }
  roots := [["lib"], ["src"]]

theorem conventionalPath?_inside_sample :
    sampleLocator.conventionalPath? "\\Acme\\User" = some ["src", "Acme", "User.php"] ∧
    (∃ before root behind below, sampleLocator.roots = before ++ root :: behind ∧
      ["src", "Acme", "User.php"] = root ++ below ∧ IsBelow below) ∧
    sampleLocator.conventionalPath? "..\\secret" = none ∧
    ∃ up, FileTree.components (WrittenPath.join "src/" "Acme/User.php") =
      up ++ ["Acme", "User.php"] := by
  have found : sampleLocator.conventionalPath? "\\Acme\\User" =
      some ["src", "Acme", "User.php"] := by decide
  obtain ⟨inside, -, text⟩ := conventionalPath?_inside sampleLocator "\\Acme\\User"
  obtain ⟨before, root, behind, below, roots, same, -, isBelow, -⟩ := inside _ found
  have plain : ∀ s ∈ segments "\\Acme\\User", IsComponent s := by
    simp only [← isPlainComponent_iff]
    decide
  obtain ⟨up, components, -⟩ := (text plain).2 "src/"
  refine ⟨found, ⟨before, root, behind, below, roots, same, isBelow⟩, ?_, up, components⟩
  exact (conventionalPath?_inside sampleLocator "..\\secret").2.1
    ⟨"..", by decide, fun is => is.notUp rfl⟩

end DirectoryLocator
end PhpSymbols
