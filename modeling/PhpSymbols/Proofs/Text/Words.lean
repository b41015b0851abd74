import PhpSymbols.Proofs.Text.Trimmed

/-!
# Words

* `flatten_splitOnP`, `not_of_mem_splitOnP`: a split loses what it cuts at and nothing else;
* `words_append_cons`: white space ends a word, from which all else about words follows;
* `words_trim`, `words_solid_append`, `words_intercalate`: the words of a trimmed text, of a text
  that starts with a word, and of texts with white space between any two of them;
* `single_of_mem_lines`: no line holds a line feed.
-/

namespace PhpSymbols.Text

/-! ### Splits -/

section
variable {α : Type} {p : α → Bool}

theorem flatten_splitOnP (s : List α) : (s.splitOnP p).flatten = s.filter fun a => !p a := by
  induction s with
  | nil => rfl
  | cons a s ih =>
    rw [List.splitOnP_cons_eq_if_modifyHead]
    by_cases cut : p a = true
    · rw [if_pos cut, List.flatten_cons, List.nil_append, ih,
        List.filter_cons_of_neg (by simp [cut])]
    · obtain ⟨first, more, later⟩ := List.exists_cons_of_ne_nil (List.splitOnP_ne_nil p s)
      rw [later, List.flatten_cons] at ih
      rw [if_neg cut, later, List.modifyHead_cons, List.flatten_cons, List.cons_append, ih,
        List.filter_cons_of_pos (by simpa using cut)]

theorem not_of_mem_splitOnP {s part : List α} (among : part ∈ s.splitOnP p) :
    ∀ a ∈ part, p a = false := by
  intro a mem
  have kept : a ∈ (s.splitOnP p).flatten := List.mem_flatten.2 ⟨part, among, mem⟩
  rw [flatten_splitOnP] at kept
  simpa using (List.mem_filter.1 kept).2

end

/-! ### Words of one text -/

theorem words_nil : words [] = [] := rfl

/-- Words hold all that is no white space. -/
theorem flatten_words (s : List Char) : (words s).flatten = s.filter fun c => !isBlank c := by
  rw [words, List.flatten_filter_not_isEmpty, flatten_splitOnP]

theorem words_ne_nil {s : List Char} {c : Char} (mem : c ∈ s) (visible : isBlank c = false) :
    words s ≠ [] := by
  intro none
  have kept : c ∈ (words s).flatten := by
    rw [flatten_words]
    exact List.mem_filter.2 ⟨mem, by simp [visible]⟩
  rw [none] at kept
  exact absurd kept List.not_mem_nil

/-- White space ends a word. -/
theorem words_append_cons {c : Char} (blank : isBlank c = true) (s t : List Char) :
    words (s ++ c :: t) = words s ++ words t := by
  rw [words, List.splitOnP_append_cons s t blank, List.filter_append, words, words]

theorem words_of_blank {s : List Char} (blank : ∀ c ∈ s, isBlank c = true) : words s = [] := by
  induction s with
  | nil => rfl
  | cons c s ih =>
    have first := words_append_cons (blank c List.mem_cons_self) [] s
    rw [List.nil_append] at first
    rw [first, ih fun d mem => blank d (List.mem_cons_of_mem c mem)]
    rfl

theorem words_append_blank {b : List Char} (blank : ∀ c ∈ b, isBlank c = true) (s : List Char) :
    words (s ++ b) = words s := by
  cases b with
  | nil => rw [List.append_nil]
  | cons c b =>
    rw [words_append_cons (blank c List.mem_cons_self),
      words_of_blank fun d mem => blank d (List.mem_cons_of_mem c mem), List.append_nil]

theorem words_blank_append {a : List Char} (blank : ∀ c ∈ a, isBlank c = true) (s : List Char) :
    words (a ++ s) = words s := by
  induction a with
  | nil => rfl
  | cons c a ih =>
    have first := words_append_cons (blank c List.mem_cons_self) [] (a ++ s)
    rw [List.nil_append] at first
    rw [List.cons_append, first, ih fun d mem => blank d (List.mem_cons_of_mem c mem)]
    rfl

theorem words_trim (s : List Char) : words (trim s) = words s := by
  obtain ⟨before, after, blank, blank', whole⟩ := exists_trim s
  conv_rhs => rw [whole, words_append_blank blank', words_blank_append blank]

/-- White space in a trimmed text stands between words. -/
theorem IsTrimmed.inner {before after : List Char} {c : Char}
    (trimmed : IsTrimmed (before ++ c :: after)) (blank : isBlank c = true) :
    before ≠ [] ∧ words after ≠ [] := by
  constructor
  · rintro rfl
    simpa [blank] using trimmed.head c rfl
  · rcases List.eq_nil_or_concat' after with rfl | ⟨front, d, rfl⟩
    · simpa [blank] using trimmed.last c List.getLast?_concat
    · rw [← List.cons_append, ← List.append_assoc] at trimmed
      have visible := trimmed.last d List.getLast?_concat
      exact words_ne_nil (List.mem_append_right front (List.mem_singleton_self d)) visible

/-- A text that starts with a word. -/
theorem words_solid_append {w rest : List Char} (some : w ≠ []) (solid : ∀ c ∈ w, isBlank c = false)
    (ends : ∀ c ∈ rest.head?, isBlank c = true) : words (w ++ rest) = w :: words rest := by
  have alone : words w = [w] := by
    rw [words, List.splitOnP_eq_singleton solid, List.filter_cons_of_pos (by simpa using some),
      List.filter_nil]
  cases rest with
  | nil => rw [List.append_nil, alone, words_nil]
  | cons c rest =>
    have blank := ends c rfl
    have behind := words_blank_append (a := [c]) (by simpa using blank) rest
    rw [List.singleton_append] at behind
    rw [words_append_cons blank, alone, behind, List.singleton_append]

/-! ### Words of several texts -/

/-- Texts with white space between any two have their words in a row. -/
theorem words_intercalate {gap : List Char} (some : gap ≠ []) (blank : ∀ c ∈ gap, isBlank c = true)
    (texts : List (List Char)) : words (gap.intercalate texts) = texts.flatMap words := by
  obtain ⟨c, gap, rfl⟩ := List.exists_cons_of_ne_nil some
  induction texts with
  | nil => rfl
  | cons s texts ih =>
    cases texts with
    | nil => simp
    | cons t texts =>
      have rest := words_blank_append (fun d mem => blank d (List.mem_cons_of_mem c mem))
        ((c :: gap).intercalate (t :: texts))
      rw [List.intercalate_cons_cons, List.append_assoc, List.cons_append,
        words_append_cons (blank c List.mem_cons_self), rest, ih]
      rfl

/-- Empty texts have no words. -/
theorem flatMap_words_filter (texts : List (List Char)) :
    (texts.filter fun s => !s.isEmpty).flatMap words = texts.flatMap words := by
  induction texts with
  | nil => rfl
  | cons s texts ih =>
    cases s with
    | nil => exact ih
    | cons c s => exact congrArg (words (c :: s) ++ ·) ih

/-! ### Lines -/

theorem mem_of_mem_trim {c : Char} {s : List Char} (mem : c ∈ trim s) : c ∈ s := by
  obtain ⟨before, after, -, -, whole⟩ := exists_trim s
  rw [whole]
  exact List.mem_append_left _ (List.mem_append_right _ mem)

theorem mem_of_mem_withoutReturn {c : Char} {line : List Char}
    (mem : c ∈ (beforeLast? '\r' line).getD line) : c ∈ line := by
  rw [beforeLast?] at mem
  split at mem
  · exact List.dropLast_subset line mem
  · exact mem

theorem single_of_mem_lines {s line : List Char} (mem : line ∈ lines s) : '\n' ∉ line := by
  by_cases more : '\n' ∈ s
  · obtain ⟨first, rest, cut, single⟩ := List.eq_append_cons_of_mem more
    have shorter : rest.length < s.length := by
      rw [cut, List.length_append, List.length_cons]
      omega
    rw [cut, lines_line single] at mem
    rcases List.mem_cons.1 mem with rfl | mem
    · exact fun feed => single (mem_of_mem_withoutReturn feed)
    · exact single_of_mem_lines mem
  · by_cases none : s = []
    · rw [none, lines_nil] at mem
      exact absurd mem List.not_mem_nil
    · rw [lines_last more none] at mem
      rwa [List.mem_singleton.1 mem]
termination_by s.length

end PhpSymbols.Text
