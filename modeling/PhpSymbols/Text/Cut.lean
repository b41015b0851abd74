import PhpSymbols.Text.Blank

/-!
Cutting text. A text under analysis is a `List Char`; what is cut off one end or at a separator
keeps its order and its characters, so nothing is lost but what the cut names.
-/

namespace PhpSymbols.Text

/-- Drops the longest end on which `p` holds. -/
def trimEndWhile (p : Char → Bool) (s : List Char) : List Char :=
  (s.reverse.dropWhile p).reverse

def trimStart (s : List Char) : List Char := s.dropWhile isBlank

def trimEnd (s : List Char) : List Char := trimEndWhile isBlank s

/-- Without the white space at both ends. -/
def trim (s : List Char) : List Char := trimEnd (trimStart s)

/-- Drops one leading `c`, if there is one. -/
def stripFirst (c : Char) : List Char → List Char
  | [] => []
  | d :: s => if d = c then s else d :: s

/-- What is left of `s` before its last character, if that is `c`. -/
def beforeLast? (c : Char) (s : List Char) : Option (List Char) :=
  if s.getLast? = some c then some s.dropLast else none

/-- The text before the first character on which `p` holds, and the text from it on. -/
def breakOn (p : Char → Bool) (s : List Char) : List Char × List Char :=
  (s.takeWhile fun c => !p c, s.dropWhile fun c => !p c)

/-- The text before and after the first `c`. -/
def splitOnce (c : Char) (s : List Char) : Option (List Char × List Char) :=
  match s.dropWhile (· != c) with
  | [] => none
  | _ :: after => some (s.takeWhile (· != c), after)

/-- The text before and after the last `c`. -/
def splitOnceLast (c : Char) (s : List Char) : Option (List Char × List Char) :=
  (splitOnce c s.reverse).map fun (after, before) => (before.reverse, after.reverse)

/-- Maximal runs of characters that are not white space. -/
def words (s : List Char) : List (List Char) :=
  (s.splitOnP isBlank).filter (!·.isEmpty)

/-- A carriage return that stands before a line feed belongs to the line end. -/
private def withoutReturn (line : List Char) : List Char :=
  (beforeLast? '\r' line).getD line

/-- The lines of a text. A line feed ends a line, together with one carriage return before it;
the text after the last line feed is a line only if it is not empty. -/
def lines (s : List Char) : List (List Char) :=
  let parts := s.splitOn '\n'
  let ended := parts.dropLast.map withoutReturn
  match parts.getLast? with
  | none | some [] => ended
  | some rest => ended ++ [rest]

theorem lines_nil : lines [] = [] := rfl

/-- A line feed ends the line before it, together with one carriage return. -/
theorem lines_line {line : List Char} (single : '\n' ∉ line) (rest : List Char) :
    lines (line ++ '\n' :: rest) = (beforeLast? '\r' line).getD line :: lines rest := by
  have other : ∀ c ∈ line, (c == '\n') = false := by
    intro c mem
    exact beq_false_of_ne fun same => single (same ▸ mem)
  have parts : (line ++ '\n' :: rest).splitOn '\n' = line :: rest.splitOn '\n' :=
    List.splitOnP_append_cons_of_forall_mem other '\n' (by decide) rest
  obtain ⟨first, more, later⟩ := List.exists_cons_of_ne_nil
    (List.splitOnP_ne_nil (· == '\n') rest)
  change rest.splitOn '\n' = first :: more at later
  simp only [lines, parts, later, List.dropLast_cons_cons, List.getLast?_cons_cons, List.map_cons]
  split <;> rfl

/-- The text behind the last line feed is a line if there is any. -/
theorem lines_last {line : List Char} (single : '\n' ∉ line) (some : line ≠ []) :
    lines line = [line] := by
  have other : ∀ c ∈ line, (c == '\n') = false := by
    intro c mem
    exact beq_false_of_ne fun same => single (same ▸ mem)
  have parts : line.splitOn '\n' = [line] := List.splitOnP_eq_singleton other
  simp only [lines, parts]
  cases line with
  | nil => exact absurd rfl some
  | cons c line => rfl

/-- Whether `part` stands somewhere in `s`. -/
def containsText (part : List Char) : List Char → Bool
  | [] => part.isEmpty
  | c :: s => part.isPrefixOf (c :: s) || containsText part s

/-- Lower case for the letters A to Z; every other character stays. -/
def lower (s : List Char) : List Char := s.map Char.toLower

/-- What is no letter in lower case is the lower case of itself only. -/
theorem eq_of_toLower {c d : Char} (other : c.isLower = false) (h : d.toLower = c) : d = c := by
  unfold Char.toLower at h
  split at h
  · rename_i upper
    subst h
    unfold Char.isLower at other
    simp [UInt32.le_iff_toNat_le] at other upper
    omega
  · exact h

/-- What follows `part`, if `s` starts with it. -/
def behind? : (part s : List Char) → Option (List Char)
  | [], s => some s
  | _ :: _, [] => none
  | p :: part, c :: s => if p = c then behind? part s else none

/-- What stands before `part`, if `s` ends with it. -/
def ahead? (part s : List Char) : Option (List Char) :=
  (behind? part.reverse s.reverse).map List.reverse

theorem behind?_eq_some_iff {part s rest : List Char} :
    behind? part s = some rest ↔ s = part ++ rest := by
  induction part generalizing s with
  | nil => simp [behind?, eq_comm]
  | cons p part ih =>
    cases s with
    | nil => simp [behind?]
    | cons c s => by_cases h : p = c <;> simp [behind?, h, ih, eq_comm (a := c)]

theorem ahead?_eq_some_iff {part s rest : List Char} :
    ahead? part s = some rest ↔ s = rest ++ part := by
  simp only [ahead?, Option.map_eq_some_iff, behind?_eq_some_iff]
  constructor
  · rintro ⟨back, h, rfl⟩
    rw [← List.reverse_reverse s, h]
    simp
  · intro h
    exact ⟨rest.reverse, by simp [h], by simp⟩

/-- Drops every copy of `part` at the end. -/
def trimEndMatches (part : List Char) (s : List Char) : List Char :=
  match part, ahead? part s with
  | _ :: _, some rest => if rest.length < s.length then trimEndMatches part rest else rest
  | _, _ => s
termination_by s.length

/-- Drops every copy of `part` at the start. -/
def trimStartMatches (part : List Char) (s : List Char) : List Char :=
  match part, behind? part s with
  | _ :: _, some rest => if rest.length < s.length then trimStartMatches part rest else rest
  | _, _ => s
termination_by s.length

/-- A text is broken behind what does not stop it. -/
theorem breakOn_append {p : Char → Bool} {s rest : List Char} (before : ∀ c ∈ s, p c = false)
    (stops : ∀ c ∈ rest.head?, p c = true) : breakOn p (s ++ rest) = (s, rest) := by
  have kept : ∀ c ∈ s, (!p c) = true := fun c hc => by rw [before c hc]; rfl
  rw [breakOn, List.takeWhile_append_of_pos kept, List.dropWhile_append_of_pos kept]
  cases rest with
  | nil => simp
  | cons c rest => simp [stops c rfl]

theorem length_dropWhile_le (p : Char → Bool) (s : List Char) :
    (s.dropWhile p).length ≤ s.length := (List.dropWhile_suffix p).length_le

theorem length_trimEndWhile_le (p : Char → Bool) (s : List Char) :
    (trimEndWhile p s).length ≤ s.length := by
  have := length_dropWhile_le p s.reverse
  simpa [trimEndWhile] using this

theorem length_trim_le (s : List Char) : (trim s).length ≤ s.length :=
  Nat.le_trans (length_trimEndWhile_le _ _) (length_dropWhile_le _ _)

theorem length_stripFirst_le (c : Char) (s : List Char) : (stripFirst c s).length ≤ s.length := by
  unfold stripFirst
  split
  · simp
  · split <;> simp

theorem stripFirst_of_head?_ne {c : Char} {s : List Char} (h : s.head? ≠ some c) :
    stripFirst c s = s := by
  cases s with
  | nil => rfl
  | cons d s => exact if_neg fun same => h (congrArg some same)

end PhpSymbols.Text

namespace PhpSymbols

/-- Whether two names are the same when the letters A to Z are read without case. -/
def sameIgnoringCase (a b : String) : Bool := Text.lower a.toList == Text.lower b.toList

end PhpSymbols
