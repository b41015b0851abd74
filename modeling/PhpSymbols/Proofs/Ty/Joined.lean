import Mathlib.Data.List.Forall2
import PhpSymbols.Proofs.Ty.Brackets

/-!
# Texts joined by a separator

* `outerPlaces`: the places of the separators that stand behind as many opening as closing brackets;
* `length_splitTop`, `mem_outerPlaces_iff`: a split of any text, well bracketed or not, cuts at each
  of these places and nowhere else;
* `map_trim_splitTop_joined`: texts with a separator between every two, and white space around any
  of them, are what a split gives back;
* `split_joined`: unions and lists are split so.
-/

namespace PhpSymbols.Ty.Expression
open Text

/-! ### Separators outside brackets -/

def isOpening (c : Char) : Bool := c ∈ ['<', '(', '{', '[']

def isClosing (c : Char) : Bool := c ∈ ['>', ')', '}', ']']

/-- The places at which `separator` stands in `s` behind as many opening as closing brackets, of
whatever kinds and in whatever order. -/
def outerPlaces (separator : Char) (s : List Char) : List Nat :=
  (List.range s.length).filter fun i =>
    s[i]? = some separator ∧ (s.take i).countP isOpening = (s.take i).countP isClosing

variable {separator : Char} {s : List Char} {start : Int} {i : Nat}

theorem depthAfter_zero (c : Char) :
    depthAfter c 0 = (if isOpening c then 1 else 0) - (if isClosing c then 1 else 0) := by
  unfold depthAfter
  split
  · rename_i opens
    rcases opens with rfl | rfl | rfl | rfl <;> decide
  · rename_i kept
    split
    · rename_i closes
      rcases closes with rfl | rfl | rfl | rfl <;> decide
    · rename_i level
      simp [isOpening, isClosing, kept, level]

/-- The depth counts the brackets that are still to be closed. -/
theorem depth_eq_sub (s : List Char) : depth s = s.countP isOpening - s.countP isClosing := by
  induction s with
  | nil => rfl
  | cons c s ih =>
    have counted (p : Bool) : ((if p then 1 else 0 : Nat) : Int) = if p then 1 else 0 := by
      cases p <;> rfl
    rw [depth_cons, ih, depthAfter_zero, List.countP_cons, List.countP_cons, Int.natCast_add,
      Int.natCast_add, counted, counted]
    omega

/-- At `i` stands a separator outside all brackets, if the text starts at depth `start`. -/
def IsOuter (separator : Char) (s : List Char) (start : Int) (i : Nat) : Prop :=
  s[i]? = some separator ∧ start + depth (s.take i) = 0

instance : Decidable (IsOuter separator s start i) := inferInstanceAs (Decidable (_ ∧ _))

theorem isOuter_cons_zero {c : Char} :
    IsOuter separator (c :: s) start 0 ↔ c = separator ∧ start = 0 := by
  simp [IsOuter]

theorem isOuter_cons_succ {c : Char} : IsOuter separator (c :: s) start (i + 1) ↔
    IsOuter separator s (depthAfter c start) i := by
  rw [IsOuter, IsOuter, List.getElem?_cons_succ, List.take_succ_cons, depth_cons,
    depthAfter_eq c start, Int.add_assoc]

theorem outerPlaces_eq (separator : Char) (s : List Char) :
    outerPlaces separator s = (List.range s.length).filter (IsOuter separator s 0) := by
  apply List.filter_congr
  intro i _
  rw [decide_eq_decide, IsOuter, depth_eq_sub, Int.zero_add]
  exact and_congr_right fun _ => by omega

theorem mem_outerPlaces : i ∈ outerPlaces separator s ↔ IsOuter separator s 0 i := by
  rw [outerPlaces_eq, List.mem_filter, List.mem_range, decide_eq_true_eq]
  refine and_iff_right_of_imp fun outer => ?_
  exact (List.getElem?_eq_some_iff.1 outer.1).1

/-! ### The places of the cuts -/

section
variable (plain : isBracket separator = false)
include plain

/-- One part more than there are separators to cut at. -/
theorem length_splitTop_start (s : List Char) (start : Int) :
    (splitTop separator s start).length =
      (List.range s.length).countP (IsOuter separator s start) + 1 := by
  induction s generalizing start with
  | nil => rfl
  | cons c s ih =>
    have later : (List.range s.length).countP
          ((fun i => decide (IsOuter separator (c :: s) start i)) ∘ Nat.succ) =
        (List.range s.length).countP (IsOuter separator s (depthAfter c start)) := by
      refine List.countP_congr fun i _ => ?_
      simp only [Function.comp, decide_eq_true_eq]
      exact isOuter_cons_succ
    rw [List.length_cons, List.range_succ_eq_map, List.countP_cons, List.countP_map, later]
    simp only [isOuter_cons_zero, decide_eq_true_eq]
    by_cases cut : c = separator ∧ start = 0
    · rw [if_pos cut]
      obtain ⟨rfl, rfl⟩ := cut
      rw [splitTop_separator, List.length_cons, ih, depthAfter_of_not_isBracket plain]
    · rw [if_neg cut, splitTop_other s fun same outside => cut ⟨same, outside⟩,
        List.length_modifyHead, ih]

theorem length_splitTop (s : List Char) :
    (splitTop separator s).length = (outerPlaces separator s).length + 1 := by
  rw [length_splitTop_start plain, outerPlaces_eq, List.countP_eq_length_filter]

/-- Between two parts stands a separator outside all brackets. -/
theorem isOuter_of_splitTop {front back : List (List Char)} (some : front ≠ []) (more : back ≠ [])
    (parts : splitTop separator s start = front ++ back) :
    IsOuter separator s start ([separator].intercalate front).length := by
  obtain ⟨first, front, rfl⟩ := List.exists_cons_of_ne_nil some
  induction s generalizing first front start with
  | nil =>
    have nothing : front ++ back = [] := (List.cons.inj parts).2.symm
    exact absurd (List.append_eq_nil_iff.1 nothing).2 more
  | cons c s ih =>
    by_cases cut : c = separator ∧ start = 0
    · obtain ⟨rfl, rfl⟩ := cut
      rw [splitTop_separator, List.cons_append] at parts
      obtain ⟨rfl, later⟩ := List.cons.inj parts
      cases front with
      | nil => exact isOuter_cons_zero.2 ⟨rfl, rfl⟩
      | cons next front =>
        rw [List.intercalate_cons_cons, List.nil_append, List.singleton_append, List.length_cons,
          isOuter_cons_succ, depthAfter_of_not_isBracket plain]
        exact ih next front (List.cons_ne_nil _ _) later
    · rw [splitTop_other s fun same outside => cut ⟨same, outside⟩] at parts
      obtain ⟨part, rest, found⟩ :=
        List.exists_cons_of_ne_nil (splitTop_ne_nil separator s (depthAfter c start))
      rw [found, List.modifyHead_cons, List.cons_append] at parts
      obtain ⟨rfl, rfl⟩ := List.cons.inj parts
      rw [List.intercalate_cons_cons_left, List.length_cons, isOuter_cons_succ]
      exact ih part front (List.cons_ne_nil _ _) found

/-- A split cuts at each separator outside all brackets and nowhere else. -/
theorem mem_outerPlaces_iff : i ∈ outerPlaces separator s ↔
    ∃ front back, splitTop separator s = front ++ back ∧ front ≠ [] ∧ back ≠ [] ∧
      ([separator].intercalate front).length = i := by
  constructor
  · intro mem
    obtain ⟨here, outside⟩ := mem_outerPlaces.1 mem
    obtain ⟨short, here⟩ := List.getElem?_eq_some_iff.1 here
    have whole : s = s.take i ++ separator :: s.drop (i + 1) := by
      rw [← here, ← List.drop_eq_getElem_cons short, List.take_append_drop]
    rw [Int.zero_add] at outside
    refine ⟨_, _, ?_, splitTop_ne_nil separator (s.take i) 0,
      splitTop_ne_nil separator (s.drop (i + 1)) 0, ?_⟩
    · rw [← splitTop_append_separator plain outside, ← whole]
    · rw [intercalate_splitTop, List.length_take_of_le (Nat.le_of_lt short)]
  · rintro ⟨front, back, parts, some, more, rfl⟩
    exact mem_outerPlaces.2 (isOuter_of_splitTop plain some more parts)

theorem outerPlaces_eq_nil_iff : outerPlaces separator s = [] ↔ IsUndivided separator s := by
  rw [isUndivided_iff plain]
  constructor
  · intro none
    obtain ⟨part, one⟩ := List.length_eq_one_iff.1 (by rw [length_splitTop plain, none]; rfl)
    have whole := intercalate_splitTop separator s 0
    rw [one, List.intercalate_singleton] at whole
    rw [one, whole]
  · intro one
    have count := length_splitTop plain s
    rw [one, List.length_singleton, Nat.right_eq_add] at count
    exact List.length_eq_zero_iff.1 count

end

/-! ### Joined texts -/

/-- `part` is `token` with any white space around it. -/
def IsSpaced (token part : List Char) : Prop :=
  ∃ before after, (∀ c ∈ before, isBlank c = true) ∧ (∀ c ∈ after, isBlank c = true) ∧
    part = before ++ token ++ after

variable {tokens parts : List (List Char)}

theorem IsSpaced.depth_eq {token part : List Char} (spaced : IsSpaced token part) :
    depth part = depth token := by
  obtain ⟨before, after, blank, blank', rfl⟩ := spaced
  rw [depth_append, depth_append, depth_of_plain fun c mem => isBracket_of_isBlank (blank c mem),
    depth_of_plain fun c mem => isBracket_of_isBlank (blank' c mem), Int.zero_add, Int.add_zero]

theorem map_depth_of_spaced (spaced : List.Forall₂ IsSpaced tokens parts) :
    parts.map depth = tokens.map depth := by
  induction spaced with
  | nil => rfl
  | cons spaced _ ih => rw [List.map_cons, List.map_cons, spaced.depth_eq, ih]

/-- Each text comes out of its own split, once it is trimmed. -/
theorem flatMap_splitTop_of_spaced (plain : isBracket separator = false)
    (visible : isBlank separator = false) (spaced : List.Forall₂ IsSpaced tokens parts)
    (trimmed : ∀ token ∈ tokens, IsTrimmed token)
    (undivided : ∀ token ∈ tokens, IsUndivided separator token) :
    parts.flatMap (fun part => (splitTop separator part).map trim) = tokens := by
  induction spaced with
  | nil => rfl
  | @cons token part tokens parts spaced _ ih =>
    obtain ⟨trimmed, restTrimmed⟩ := List.forall_mem_cons.1 trimmed
    obtain ⟨undivided, restUndivided⟩ := List.forall_mem_cons.1 undivided
    obtain ⟨before, after, blank, blank', rfl⟩ := spaced
    rw [List.flatMap_cons, map_trim_splitTop_spaced plain visible blank blank',
      (isUndivided_iff plain).1 undivided, List.map_singleton, trim_of_isTrimmed trimmed,
      ih restTrimmed restUndivided, List.singleton_append]

/-- Trimmed texts that end as deep as they start, and have no separator outside brackets, are what
is split off again. -/
theorem map_trim_splitTop_joined (plain : isBracket separator = false)
    (visible : isBlank separator = false) (some : tokens ≠ [])
    (spaced : List.Forall₂ IsSpaced tokens parts)
    (trimmed : ∀ token ∈ tokens, IsTrimmed token) (closed : ∀ token ∈ tokens, depth token = 0)
    (undivided : ∀ token ∈ tokens, IsUndivided separator token) :
    (splitTop separator ([separator].intercalate parts)).map trim = tokens := by
  have any : parts ≠ [] := by
    rintro rfl
    exact some (List.forall₂_nil_right_iff.1 spaced)
  have level : ∀ part ∈ parts, depth part = 0 := by
    intro part mem
    have mem : depth part ∈ parts.map depth := List.mem_map_of_mem mem
    rw [map_depth_of_spaced spaced] at mem
    obtain ⟨token, mem, same⟩ := List.mem_map.1 mem
    rw [← same, closed token mem]
  rw [splitTop_intercalate_flatMap plain any level, List.map_flatMap]
  exact flatMap_splitTop_of_spaced plain visible spaced trimmed undivided

/-! ### Unions and lists -/

/-- Unions are split at bars, and lists at commas. -/
inductive Splits : Char → (List Char → List (List Char)) → Prop where
  | union : Splits '|' splitUnion
  | list : Splits ',' splitCommas

variable {split : List Char → List (List Char)}

theorem Splits.plain (splits : Splits separator split) : isBracket separator = false := by
  cases splits <;> decide

theorem Splits.visible (splits : Splits separator split) : isBlank separator = false := by
  cases splits <;> decide

theorem Splits.eq_map_trim (splits : Splits separator split) (s : List Char) :
    split s = (splitTop separator s).map trim := by
  cases splits <;> rfl

/-- Splitting undoes joining: trimmed, well bracketed tokens without a separator outside brackets
are what a text is split into in which they stand with separators between them and any white space
around each. And of any text at all, the parts before they are trimmed are the text if separators
are put between them; they are one more than the separators outside all brackets, and the cuts
are at these. -/
theorem split_joined (splits : Splits separator split) :
    (∀ tokens parts : List (List Char), tokens ≠ [] →
      (∀ token ∈ tokens, IsTrimmed token ∧ IsBalanced token ∧ outerPlaces separator token = []) →
      List.Forall₂ IsSpaced tokens parts → split ([separator].intercalate parts) = tokens) ∧
    ∀ s : List Char,
      split s = (splitTop separator s).map trim ∧
      [separator].intercalate (splitTop separator s) = s ∧
      (splitTop separator s).length = (outerPlaces separator s).length + 1 ∧
      ∀ i, i ∈ outerPlaces separator s ↔
        ∃ front back, splitTop separator s = front ++ back ∧ front ≠ [] ∧ back ≠ [] ∧
          ([separator].intercalate front).length = i := by
  refine ⟨?_, fun s => ⟨splits.eq_map_trim s, intercalate_splitTop separator s 0,
    length_splitTop splits.plain s, fun i => mem_outerPlaces_iff splits.plain⟩⟩
  intro tokens parts some good spaced
  have undivided : ∀ token ∈ tokens, IsUndivided separator token := fun token mem =>
    (outerPlaces_eq_nil_iff splits.plain).1 (good token mem).2.2
  rw [splits.eq_map_trim]
  exact map_trim_splitTop_joined splits.plain splits.visible some spaced
    (fun token mem => (good token mem).1) (fun token mem => (good token mem).2.1.closed) undivided

/-- Brackets keep a bar from dividing, and one that is closed too early keeps a comma from it until
the count is right again. -/
theorem split_joined_nested :
    ((∀ token ∈ ["array<int|string, Foo>".toList, "null".toList],
        IsTrimmed token ∧ IsBalanced token ∧ outerPlaces '|' token = []) ∧
      splitUnion "array<int|string, Foo> |\u2003null".toList =
        ["array<int|string, Foo>".toList, "null".toList]) ∧
    outerPlaces ',' "a>,b<,c".toList = [5] ∧
    (splitTop ',' "a>,b<,c".toList).length = 2 ∧
    [','].intercalate (splitTop ',' "a>,b<,c".toList) = "a>,b<,c".toList := by
  have good : ∀ token ∈ ["array<int|string, Foo>".toList, "null".toList],
      IsTrimmed token ∧ IsBalanced token ∧ outerPlaces '|' token = [] := by decide
  have spaced : List.Forall₂ IsSpaced ["array<int|string, Foo>".toList, "null".toList]
      ["array<int|string, Foo> ".toList, "\u2003null".toList] :=
    .cons ⟨[], [' '], by decide, by decide, rfl⟩
      (.cons ⟨['\u2003'], [], by decide, by decide, rfl⟩ .nil)
  have places : outerPlaces ',' "a>,b<,c".toList = [5] := by decide
  obtain ⟨joined, -⟩ := split_joined .union
  obtain ⟨-, rejoined, count, -⟩ := (split_joined .list).2 "a>,b<,c".toList
  rw [places] at count
  exact ⟨⟨good, joined _ _ (List.cons_ne_nil _ _) good spaced⟩, places, count, rejoined⟩

end PhpSymbols.Ty.Expression
