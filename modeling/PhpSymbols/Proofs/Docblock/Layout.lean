import PhpSymbols.Docblock.Basic
import PhpSymbols.Proofs.Text.Trimmed

/-!
# Lines in their decoration

A doc comment shows each row of text between white space and stars, on a line of its own.

* `Decoration`, `LineEnd`, `Layout`: all that its author may choose about that;
* `lineText_write`: a row comes out of its decoration as it was put in;
* `texts_write`: so do all rows, with nothing but blank ones in front and behind.
-/

namespace PhpSymbols.Docblock
open Text

/-- White space within a line. -/
def IsSpace (s : List Char) : Prop := ∀ c ∈ s, isBlank c = true ∧ c ≠ '\n'

instance (s : List Char) : Decidable (IsSpace s) := inferInstanceAs (Decidable (∀ c ∈ s, _))

theorem IsSpace.blank {s : List Char} (space : IsSpace s) : ∀ c ∈ s, isBlank c = true :=
  fun c mem => (space c mem).1

theorem IsSpace.single {s : List Char} (space : IsSpace s) : '\n' ∉ s :=
  fun mem => (space _ mem).2 rfl

/-- What stands around the text of a row on its line. -/
structure Decoration where
  indent : List Char := []
  stars : Nat := 0
  gap : List Char := []
  trailing : List Char := []
  indent_space : IsSpace indent := by decide
  gap_space : IsSpace gap := by decide
  trailing_space : IsSpace trailing := by decide

def Decoration.write (d : Decoration) (row : List Char) : List Char :=
  d.indent ++ (List.replicate d.stars '*' ++ (d.gap ++ row)) ++ d.trailing

inductive LineEnd where
  | feed
  | returnFeed

def LineEnd.chars : LineEnd → List Char
  | feed => ['\n']
  | returnFeed => ['\r', '\n']

/-- A row of text with its decoration. -/
structure Line where
  decoration : Decoration
  row : List Char
  ending : LineEnd

def Line.write (l : Line) : List Char := l.decoration.write l.row ++ l.ending.chars

/-- A comment whose delimiters stand on lines of their own. -/
structure Layout where
  before : List Char := []
  /-- What stands behind the opening delimiter. -/
  opening : List Char := []
  openingEnd : LineEnd := .feed
  lines : List Line
  /-- What stands around the closing delimiter. -/
  closing : Decoration
  after : List Char := []
  before_blank : ∀ c ∈ before, isBlank c = true := by decide
  opening_space : IsSpace opening := by decide
  after_blank : ∀ c ∈ after, isBlank c = true := by decide

namespace Layout

def rows (l : Layout) : List (List Char) := l.lines.map (·.row)

/-- What stands between the delimiters. -/
def inner (l : Layout) : List Char :=
  l.opening ++ (l.openingEnd.chars ++ (l.lines.flatMap Line.write ++ l.closing.write []))

def write (l : Layout) : List Char :=
  l.before ++ ("/**".toList ++ (l.inner ++ "*/".toList)) ++ l.after

end Layout

/-! ### One line -/

/-- What can be told from its decoration. -/
structure IsRow (row : List Char) : Prop where
  trimmed : IsTrimmed row
  noStar : row.head? ≠ some '*'
  single : '\n' ∉ row

theorem isRow_nil : IsRow [] := ⟨isTrimmed_nil, nofun, nofun⟩

theorem dropWhile_stars {n : Nat} {s : List Char} (noStar : s.head? ≠ some '*') :
    (List.replicate n '*' ++ s).dropWhile (· == '*') = s := by
  have stars : ∀ c ∈ List.replicate n '*', (c == '*') = true := by
    intro c mem
    rw [List.eq_of_mem_replicate mem]
    rfl
  rw [List.dropWhile_append_of_pos stars]
  cases s with
  | nil => rfl
  | cons c s =>
    have other : c ≠ '*' := fun same => noStar (congrArg some same)
    exact List.dropWhile_cons_of_neg (by simpa using other)

/-- Behind stars, the text is what is left when they and the white space around it are gone. -/
theorem lineText_stars {stars : Nat} {gap row : List Char} (space : IsSpace gap)
    (isRow : IsRow row) : lineText (List.replicate stars '*' ++ (gap ++ row)) = row := by
  have back : trim (gap ++ row) = row := by
    rw [trim_blank_append space.blank, trim_of_isTrimmed isRow.trimmed]
  have noStar : (gap ++ row).head? ≠ some '*' := by
    cases gap with
    | nil => exact isRow.noStar
    | cons c gap =>
      rintro ⟨⟩
      exact absurd (space.blank _ List.mem_cons_self) (by decide)
  match stars, row with
  | 0, row =>
    rw [List.replicate_zero, List.nil_append, lineText, back]
    have kept := dropWhile_stars (n := 0) isRow.noStar
    rw [List.replicate_zero, List.nil_append] at kept
    rw [kept, trim_of_isTrimmed isRow.trimmed]
  | n + 1, [] =>
    have visible : IsTrimmed (List.replicate (n + 1) '*') := by
      constructor
      · rintro c ⟨⟩
        decide
      · intro c last
        rw [List.eq_of_mem_replicate (List.mem_of_getLast? last)]
        decide
    have gone := dropWhile_stars (n := n + 1) (s := []) nofun
    rw [List.append_nil] at gone
    rw [List.append_nil, lineText, trim_append_blank space.blank, trim_of_isTrimmed visible, gone]
    rfl
  | n + 1, c :: row =>
    have visible : IsTrimmed (List.replicate (n + 1) '*' ++ (gap ++ c :: row)) := by
      constructor
      · rintro c ⟨⟩
        decide
      · intro d last
        apply isRow.trimmed.last d
        rw [List.getLast?_append_of_ne_nil _ (by simp), List.getLast?_append_of_ne_nil _ (by simp)]
          at last
        exact last
    rw [lineText, trim_of_isTrimmed visible, dropWhile_stars noStar, back]

/-- A row comes out of its decoration as it was put in. -/
theorem lineText_write (d : Decoration) {row : List Char} (isRow : IsRow row) :
    lineText (d.write row) = row := by
  have same : lineText (d.write row) =
      lineText (List.replicate d.stars '*' ++ (d.gap ++ row)) := by
    rw [lineText, Decoration.write, trim_append_blank d.trailing_space.blank,
      trim_blank_append d.indent_space.blank, lineText]
  rw [same, lineText_stars d.gap_space isRow]

theorem single_write (d : Decoration) {row : List Char} (isRow : IsRow row) :
    '\n' ∉ d.write row := by
  simp only [Decoration.write, List.mem_append, not_or]
  have noStars : '\n' ∉ List.replicate d.stars '*' :=
    fun mem => absurd (List.eq_of_mem_replicate mem) (by decide)
  exact ⟨⟨d.indent_space.single, noStars, d.gap_space.single, isRow.single⟩,
    d.trailing_space.single⟩

/-! ### All lines -/

/-- A carriage return at the end of a line is no part of its text. -/
theorem lineText_beforeReturn (line : List Char) :
    lineText ((beforeLast? '\r' line).getD line) = lineText line := by
  rw [beforeLast?]
  split
  · rename_i last
    have split : line = line.dropLast ++ ['\r'] := by
      obtain ⟨kept, same⟩ := List.getLast?_eq_some_iff.1 last
      rw [same, List.dropLast_concat]
    conv_rhs => rw [split]
    rw [lineText, lineText, trim_append_blank (by decide), Option.getD_some]
  · rfl

/-- Each line end cuts off the text before it. -/
theorem texts_line {line : List Char} (single : '\n' ∉ line) (ending : LineEnd)
    (rest : List Char) :
    (lines (line ++ (ending.chars ++ rest))).map lineText =
      lineText line :: (lines rest).map lineText := by
  cases ending with
  | feed =>
    change (lines (line ++ '\n' :: rest)).map lineText = _
    rw [lines_line single, List.map_cons, lineText_beforeReturn]
  | returnFeed =>
    have single : '\n' ∉ line ++ ['\r'] := by simpa using single
    have split : line ++ (LineEnd.returnFeed.chars ++ rest) = (line ++ ['\r']) ++ '\n' :: rest := by
      simp [LineEnd.chars]
    have same : lineText (line ++ ['\r']) = lineText line := by
      rw [lineText, lineText, trim_append_blank (by decide)]
    rw [split, lines_line single, List.map_cons, lineText_beforeReturn, same]

theorem texts_lines {ls : List Line} (isRow : ∀ l ∈ ls, IsRow l.row) (rest : List Char) :
    (lines (ls.flatMap Line.write ++ rest)).map lineText =
      ls.map (·.row) ++ (lines rest).map lineText := by
  induction ls with
  | nil => rfl
  | cons l ls ih =>
    have first := isRow l List.mem_cons_self
    rw [List.flatMap_cons, Line.write, List.append_assoc, List.append_assoc,
      texts_line (single_write l.decoration first), lineText_write l.decoration first,
      ih fun k mem => isRow k (List.mem_cons_of_mem l mem), List.map_cons, List.cons_append]

/-- The texts between the delimiters are the rows, between blank ones. -/
theorem texts_inner {l : Layout} (isRow : ∀ row ∈ l.rows, IsRow row) :
    ∃ behind, (∀ row ∈ behind, row = []) ∧
      (lines l.inner).map lineText = [] :: (l.rows ++ behind) := by
  have lines_isRow : ∀ k ∈ l.lines, IsRow k.row := fun k mem =>
    isRow k.row (List.mem_map_of_mem mem)
  have opening : lineText l.opening = [] := by
    rw [lineText, trim_of_blank l.opening_space.blank]
    rfl
  have rest : (lines l.inner).map lineText =
      [] :: (l.rows ++ (lines (l.closing.write [])).map lineText) := by
    rw [Layout.inner, texts_line l.opening_space.single, opening, texts_lines lines_isRow,
      Layout.rows]
  refine ⟨_, ?_, rest⟩
  intro row mem
  by_cases none : l.closing.write [] = []
  · rw [none, lines_nil] at mem
    exact absurd mem List.not_mem_nil
  · rw [lines_last (single_write l.closing isRow_nil) none] at mem
    rw [List.mem_singleton.1 mem, lineText_write l.closing isRow_nil]

theorem withoutDelimiters_write (l : Layout) : withoutDelimiters l.write = l.inner := by
  have visible : IsTrimmed ("/**".toList ++ (l.inner ++ "*/".toList)) := by
    constructor
    · rintro c ⟨⟩
      decide
    · intro c last
      rw [List.getLast?_append_of_ne_nil _ (by simp), List.getLast?_append_of_ne_nil _ (by simp)]
        at last
      obtain rfl := Option.some.inj last
      decide
  have opened := behind?_eq_some_iff.2
    (show "/**".toList ++ (l.inner ++ "*/".toList) = _ from rfl)
  have closed := ahead?_eq_some_iff.2 (show l.inner ++ "*/".toList = _ from rfl)
  rw [withoutDelimiters, Layout.write, trim_append_blank l.after_blank,
    trim_blank_append l.before_blank, trim_of_isTrimmed visible, opened, Option.getD_some, closed,
    Option.getD_some]

/-- What is read of a comment are its rows, between blank ones. -/
theorem texts_write {l : Layout} (isRow : ∀ row ∈ l.rows, IsRow row) :
    ∃ behind, (∀ row ∈ behind, row = []) ∧
      (lines (withoutDelimiters l.write)).map lineText = [] :: (l.rows ++ behind) := by
  rw [withoutDelimiters_write]
  exact texts_inner isRow

end PhpSymbols.Docblock
