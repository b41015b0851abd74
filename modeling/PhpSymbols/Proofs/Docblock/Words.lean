import PhpSymbols.Docblock.Basic
import PhpSymbols.Proofs.Text.Words

/-!
# The words of a comment

* `rowsOf`, `undecorated`: the lines of a comment as they are read, and what they are without the
  white space and the stars in front;
* `gather_opening`, `gather_other`: the rows of a comment, cut into prose and tags row by row;
* `words_gather`, `words_paragraphTexts`: no word is lost by that, nor by cutting prose into
  paragraphs;
* `Tag.IsTidy`, `isTidy_gather`: what the names and bodies of tags are free of;
* `parse_words`: all words of a comment are read, once and in their order.
-/

namespace PhpSymbols

/-- The words that spell a tag. -/
def Tag.words (t : Tag) : List (List Char) := ('@' :: t.name.toList) :: Text.words t.body.toList

/-- The name is one word, and the body stands on one line without white space around it. -/
structure Tag.IsTidy (t : Tag) : Prop where
  named : t.name ≠ ""
  solid : ∀ c ∈ t.name.toList, Text.isBlank c = false
  trimmed : Text.IsTrimmed t.body.toList
  single : '\n' ∉ t.body.toList

end PhpSymbols

namespace PhpSymbols.Docblock
open Text

variable {row : List Char} {rows : List (List Char)}

/-! ### Rows -/

/-- What is read of each line between the delimiters. -/
def rowsOf (raw : String) : List (List Char) := (lines (withoutDelimiters raw.toList)).map lineText

/-- A line without the white space in front of it and the stars behind that. -/
def undecorated (line : List Char) : List Char := (line.dropWhile isBlank).dropWhile (· == '*')

theorem words_lineText (line : List Char) : words (lineText line) = words (undecorated line) := by
  let behind := (line.dropWhile isBlank).rtakeWhile isBlank
  have blank : ∀ c ∈ behind, isBlank c = true := fun c mem => List.mem_rtakeWhile_imp mem
  have whole : line.dropWhile isBlank = trim line ++ behind :=
    (List.rdropWhile_append_rtakeWhile ..).symm
  rw [lineText, words_trim, undecorated, whole, List.dropWhile_append]
  split
  · rename_i stars
    have rest : words (behind.dropWhile (· == '*')) = [] :=
      words_of_blank fun c mem => blank c ((List.dropWhile_suffix _).subset mem)
    rw [List.isEmpty_iff.1 stars, rest, words_nil]
  · rw [words_append_blank blank]

/-- One line of text, without white space around it. -/
def IsLine (s : List Char) : Prop := IsTrimmed s ∧ '\n' ∉ s

theorem isLine_lineText {line : List Char} (single : '\n' ∉ line) : IsLine (lineText line) := by
  refine ⟨isTrimmed_trim _, fun feed => single ?_⟩
  exact mem_of_mem_trim ((List.dropWhile_suffix _).subset (mem_of_mem_trim feed))

theorem isLine_of_mem_rowsOf {raw : String} (mem : row ∈ rowsOf raw) : IsLine row := by
  obtain ⟨line, among, rfl⟩ := List.mem_map.1 mem
  exact isLine_lineText (single_of_mem_lines among)

/-! ### Rows that open tags -/

/-- A row that opens a tag is an at sign with the name of the tag, and behind white space the first
line of the body. -/
theorem exists_of_tagOfLine? {name first : List Char}
    (opens : tagOfLine? row = some (name, first)) :
    ∃ body, row = '@' :: (name ++ body) ∧ first = trim body ∧ name ≠ [] ∧
      (∀ c ∈ name, isBlank c = false) ∧ ∀ c ∈ body.head?, isBlank c = true := by
  rw [tagOfLine?.eq_def] at opens
  split at opens
  · rename_i rest
    split at opens
    · cases opens
    · rename_i word body nonempty cut
      obtain ⟨rfl, rfl⟩ := Prod.mk.inj (Option.some.inj opens)
      obtain ⟨rfl, rfl⟩ := Prod.mk.inj cut
      refine ⟨rest.dropWhile fun c => !isBlank c, ?_, rfl, nonempty, ?_, ?_⟩
      · rw [List.takeWhile_append_dropWhile]
      · intro c mem
        simpa using List.mem_takeWhile_imp mem
      · intro c head
        have stops := List.head?_dropWhile_not (fun c => !isBlank c) rest
        rw [Option.mem_def.1 head] at stops
        simpa using stops
  · cases opens

variable {name first : List Char}

theorem gather_opening (opens : tagOfLine? row = some (name, first)) :
    gather (row :: rows) =
      ([], ⟨String.ofList name, joinBody (first :: (gather rows).1)⟩ :: (gather rows).2) := by
  rw [gather, opens]

theorem gather_other (other : tagOfLine? row = none) :
    gather (row :: rows) = (row :: (gather rows).1, (gather rows).2) := by
  rw [gather, other]

/-- What stands in front of the first tag are rows of the comment. -/
theorem gather_subset : (gather rows).1 ⊆ rows := by
  induction rows with
  | nil => exact List.Subset.refl []
  | cons row rows ih =>
    cases opens : tagOfLine? row with
    | none =>
      rw [gather_other opens]
      exact List.cons_subset_cons row ih
    | some opened =>
      rw [gather_opening opens]
      exact List.nil_subset _

/-! ### No word is lost -/

theorem words_joinBody (texts : List (List Char)) :
    words (joinBody texts).toList = texts.flatMap words := by
  rw [joinBody, String.toList_ofList, words_intercalate (List.cons_ne_nil _ _) (by decide),
    flatMap_words_filter]

theorem words_opening (opens : tagOfLine? row = some (name, first)) :
    words row = ('@' :: name) :: words first := by
  obtain ⟨body, rfl, rfl, -, solid, ends⟩ := exists_of_tagOfLine? opens
  have whole : ∀ c ∈ '@' :: name, isBlank c = false :=
    List.forall_mem_cons.2 ⟨by decide, solid⟩
  rw [words_trim, ← List.cons_append, words_solid_append (List.cons_ne_nil _ _) whole ends]

/-- Rows have the words of the prose and then of the tags that they are cut into. -/
theorem words_gather (rows : List (List Char)) :
    (gather rows).1.flatMap words ++ (gather rows).2.flatMap Tag.words = rows.flatMap words := by
  induction rows with
  | nil => rfl
  | cons row rows ih =>
    cases opens : tagOfLine? row with
    | none =>
      rw [gather_other opens, List.flatMap_cons, List.flatMap_cons, List.append_assoc, ih]
    | some opened =>
      obtain ⟨name, first⟩ := opened
      rw [gather_opening opens, List.flatMap_nil, List.nil_append, List.flatMap_cons, Tag.words,
        words_joinBody, String.toList_ofList, List.flatMap_cons, List.flatMap_cons,
        words_opening opens, ← ih]
      simp only [List.cons_append, List.append_assoc]

theorem flatten_paragraphs (prose : List (List Char)) :
    (paragraphs prose).flatten = prose.filter fun row => !row.isEmpty := by
  rw [paragraphs, List.flatten_filter_not_isEmpty, flatten_splitOnP]

/-- The texts of the paragraphs of prose. -/
def paragraphTexts (prose : List (List Char)) : List (List Char) :=
  (paragraphs prose).map fun p => ['\n'].intercalate p

theorem words_paragraphTexts (prose : List (List Char)) :
    (paragraphTexts prose).flatMap words = prose.flatMap words := by
  have each (p : List (List Char)) : words (['\n'].intercalate p) = p.flatMap words :=
    words_intercalate (List.cons_ne_nil _ _) (by decide) p
  calc (paragraphTexts prose).flatMap words
      = (paragraphs prose).flatMap fun p => p.flatMap words := by
        rw [paragraphTexts, List.flatMap_map]
        exact List.flatMap_congr fun p _ => each p
    _ = (paragraphs prose).flatten.flatMap words := by
        rw [← List.flatMap_id, List.flatMap_assoc]
        rfl
    _ = prose.flatMap words := by rw [flatten_paragraphs, flatMap_words_filter]

/-- Texts have the words of the first one and then those of the others, with empty lines between. -/
theorem words_headD_tail (texts : List (List Char)) :
    words (texts.headD []) ++ words ("\n\n".toList.intercalate texts.tail) =
      texts.flatMap words := by
  rw [words_intercalate (by decide) (by decide)]
  cases texts with
  | nil => rfl
  | cons text texts => rfl

/-! ### What tags are free of -/

theorem intercalate_ne_nil {gap : List Char} {texts : List (List Char)} (some : texts ≠ [])
    (held : ∀ s ∈ texts, s ≠ []) : gap.intercalate texts ≠ [] := by
  obtain ⟨s, texts, rfl⟩ := List.exists_cons_of_ne_nil some
  obtain ⟨c, s, rfl⟩ := List.exists_cons_of_ne_nil (held s List.mem_cons_self)
  rw [List.intercalate_cons_cons_left]
  exact List.cons_ne_nil _ _

/-- Lines with spaces between them are one line. -/
theorem isLine_intercalate {texts : List (List Char)} (some : ∀ s ∈ texts, s ≠ [])
    (line : ∀ s ∈ texts, IsLine s) : IsLine ([' '].intercalate texts) := by
  induction texts with
  | nil => exact ⟨isTrimmed_nil, List.not_mem_nil⟩
  | cons s texts ih =>
    obtain ⟨trimmed, single⟩ := line s List.mem_cons_self
    cases texts with
    | nil =>
      rw [List.intercalate_singleton]
      exact ⟨trimmed, single⟩
    | cons t texts =>
      have others : ∀ u ∈ t :: texts, u ≠ [] := fun u mem => some u (List.mem_cons_of_mem s mem)
      have rest := ih others fun u mem => line u (List.mem_cons_of_mem s mem)
      have visible : [' '].intercalate (t :: texts) ≠ [] :=
        intercalate_ne_nil (List.cons_ne_nil t texts) others
      rw [List.intercalate_cons_cons, List.append_assoc]
      refine ⟨⟨fun c head => ?_, fun c last => ?_⟩, ?_⟩
      · rw [List.head?_append_of_ne_nil s (some s List.mem_cons_self)] at head
        exact trimmed.head c head
      · rw [List.getLast?_append_of_ne_nil s (by simp),
          List.getLast?_append_of_ne_nil [' '] visible] at last
        exact rest.1.last c last
      · simpa using ⟨single, rest.2⟩

theorem isLine_joinBody {texts : List (List Char)} (line : ∀ s ∈ texts, IsLine s) :
    IsLine (joinBody texts).toList := by
  rw [joinBody, String.toList_ofList]
  apply isLine_intercalate
  · exact fun s mem => by simpa using (List.mem_filter.1 mem).2
  · exact fun s mem => line s (List.mem_filter.1 mem).1

theorem isTidy_gather (line : ∀ row ∈ rows, IsLine row) : ∀ t ∈ (gather rows).2, t.IsTidy := by
  induction rows with
  | nil => exact nofun
  | cons row rows ih =>
    have later : ∀ row ∈ rows, IsLine row := fun s mem => line s (List.mem_cons_of_mem row mem)
    cases opens : tagOfLine? row with
    | none =>
      rw [gather_other opens]
      exact ih later
    | some opened =>
      obtain ⟨name, first⟩ := opened
      obtain ⟨body, whole, rfl, some, solid, -⟩ := exists_of_tagOfLine? opens
      rw [gather_opening opens]
      refine List.forall_mem_cons.2 ⟨?_, ih later⟩
      have opening : IsLine (trim body) := by
        refine ⟨isTrimmed_trim body, fun feed => (line row List.mem_cons_self).2 ?_⟩
        rw [whole]
        exact List.mem_cons_of_mem _ (List.mem_append_right name (mem_of_mem_trim feed))
      have held := isLine_joinBody (List.forall_mem_cons.2
        ⟨opening, fun s mem => later s (gather_subset mem)⟩)
      refine ⟨?_, ?_, held.1, held.2⟩
      · exact fun none => some (String.ofList_eq_empty_iff.1 none)
      · rwa [String.toList_ofList]

/-! ### Whole comments -/

theorem mem_paragraphs {prose : List (List Char)} {p : List (List Char)}
    (among : p ∈ paragraphs prose) : p ≠ [] ∧ ∀ row ∈ p, row ≠ [] := by
  obtain ⟨part, some⟩ := List.mem_filter.1 among
  refine ⟨by simpa using some, fun row mem => ?_⟩
  simpa using not_of_mem_splitOnP part row mem

/-- Only without any paragraph is the first one empty. -/
theorem paragraphTexts_eq_nil {prose : List (List Char)}
    (none : (paragraphTexts prose).headD [] = []) : paragraphTexts prose = [] := by
  rw [paragraphTexts] at none ⊢
  cases found : paragraphs prose with
  | nil => rfl
  | cons p ps =>
    rw [found] at none
    obtain ⟨some, held⟩ := mem_paragraphs (found ▸ List.mem_cons_self)
    exact absurd none (intercalate_ne_nil some held)

theorem parse_eq (raw : String) :
    parse raw =
      let prose := (gather (rowsOf raw)).1
      { summary := String.ofList ((paragraphTexts prose).headD [])
        description := String.ofList ("\n\n".toList.intercalate (paragraphTexts prose).tail)
        tags := (gather (rowsOf raw)).2 } := rfl

/-- No word of a comment is lost, added or moved: those of the summary, of the description and of
the tags are the words of the lines between the delimiters, without the white space and the stars
in front of each line. Tags are tidy, and there is no description without a summary. -/
theorem parse_words (raw : String) :
    words (parse raw).summary.toList ++ words (parse raw).description.toList ++
        (parse raw).tags.flatMap Tag.words =
      (lines (withoutDelimiters raw.toList)).flatMap (fun line => words (undecorated line)) ∧
    (∀ t ∈ (parse raw).tags, t.IsTidy) ∧
    ((parse raw).summary = "" → (parse raw).description = "") := by
  rw [parse_eq]
  refine ⟨?_, isTidy_gather fun row => isLine_of_mem_rowsOf, fun none => ?_⟩
  · have all : (rowsOf raw).flatMap words =
        (lines (withoutDelimiters raw.toList)).flatMap fun line => words (undecorated line) := by
      rw [rowsOf, List.flatMap_map]
      exact List.flatMap_congr fun line _ => words_lineText line
    rw [String.toList_ofList, String.toList_ofList, words_headD_tail, words_paragraphTexts,
      words_gather, all]
  · have nothing := paragraphTexts_eq_nil (String.ofList_eq_empty_iff.1 none)
    dsimp only
    rw [nothing]
    rfl

end PhpSymbols.Docblock
