import PhpSymbols.Text.Blank

/-!
# Line breaks

* `lineBreaks`, `IsOneLine`: the line breaks of a text, and that it has none;
* `lineBreaks_append`, `lineBreaks_intercalate`: a text put together has those of its parts;
* `isOneLine_of_visible`: only white space breaks lines.
-/

namespace PhpSymbols.Text

/-- The characters with which a line ends. -/
def isLineBreak (c : Char) : Bool := c == '\n' || c == '\r'

/-- The line breaks of a text, in order. -/
def lineBreaks (s : String) : List Char := s.toList.filter isLineBreak

/-- The text stands on one line. -/
def IsOneLine (s : String) : Prop := lineBreaks s = []

instance (s : String) : Decidable (IsOneLine s) := inferInstanceAs (Decidable (lineBreaks s = []))

variable {s t : String}

theorem isOneLine_iff : IsOneLine s ↔ ∀ c ∈ s.toList, isLineBreak c = false := by
  simp [IsOneLine, lineBreaks]

@[simp]
theorem lineBreaks_append (s t : String) : lineBreaks (s ++ t) = lineBreaks s ++ lineBreaks t := by
  simp [lineBreaks]

@[simp]
theorem lineBreaks_empty : lineBreaks "" = [] := rfl

theorem lineBreaks_intercalate {separator : String} (single : IsOneLine separator)
    (texts : List String) : lineBreaks (separator.intercalate texts) = texts.flatMap lineBreaks := by
  induction texts with
  | nil => rfl
  | cons first texts ih =>
    cases texts with
    | nil => simp
    | cons second texts =>
      rw [String.intercalate_cons_cons, lineBreaks_append, lineBreaks_append, single, ih]
      simp

theorem isBlank_of_isLineBreak {c : Char} (breaks : isLineBreak c = true) : isBlank c = true := by
  simp only [isLineBreak, Bool.or_eq_true, beq_iff_eq] at breaks
  rcases breaks with rfl | rfl <;> decide

theorem isOneLine_of_visible (visible : ∀ c ∈ s.toList, isBlank c = false) : IsOneLine s := by
  apply isOneLine_iff.2
  intro c mem
  apply Bool.eq_false_iff.2
  intro breaks
  have blank := isBlank_of_isLineBreak breaks
  simp [visible c mem] at blank

theorem isOneLine_dropWhile (single : IsOneLine s) (p : Char → Bool) :
    IsOneLine (String.ofList (s.toList.dropWhile p)) := by
  apply isOneLine_iff.2
  rw [String.toList_ofList]
  exact fun c mem => isOneLine_iff.1 single c ((List.dropWhile_suffix _).subset mem)

theorem lineFeed_mem_lineBreaks : '\n' ∈ lineBreaks s ↔ '\n' ∈ s.toList := by
  simp [lineBreaks, isLineBreak]

end PhpSymbols.Text
