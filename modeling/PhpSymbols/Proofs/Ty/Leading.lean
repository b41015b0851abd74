import PhpSymbols.Proofs.Ty.Alternation

/-!
# The type at the start of a text

* `enclosure`, `IsEnclosed`: how deep in angle brackets, parentheses and braces a text ends, and
  texts with white space inside such brackets only;
* `takeToken_eq_iff`: what is taken off the start of a text as its type;
* `IsWhole`, `takeToken_open`: the expressions that are taken whole in front of white space, and
  those that are taken with more behind them;
* `resolve_clean`: these are read alike with the marks of prose and without.
-/

namespace PhpSymbols.Ty.Expression
open Text

/-! ### Depth -/

/-- What a character adds to the depth in angle brackets, parentheses and braces. -/
def enclosing (c : Char) : Int :=
  if c = '<' ∨ c = '(' ∨ c = '{' then 1
  else if c = '>' ∨ c = ')' ∨ c = '}' then -1
  else 0

/-- How deep in angle brackets, parentheses and braces a text ends. -/
def enclosure (s : List Char) : Int := (s.map enclosing).sum

@[simp] theorem enclosure_nil : enclosure [] = 0 := rfl

@[simp] theorem enclosure_cons (c : Char) (s : List Char) :
    enclosure (c :: s) = enclosing c + enclosure s := by
  simp [enclosure]

@[simp] theorem enclosure_append (s t : List Char) :
    enclosure (s ++ t) = enclosure s + enclosure t := by
  simp [enclosure]

theorem enclosing_of_not_isBracket {c : Char} (plain : isBracket c = false) : enclosing c = 0 := by
  simp only [isBracket, decide_eq_false_iff_not, not_or] at plain
  simp [enclosing, plain]

theorem enclosure_of_plain {s : List Char} (plain : ∀ c ∈ s, isBracket c = false) :
    enclosure s = 0 := by
  induction s with
  | nil => rfl
  | cons c s ih =>
    rw [enclosure_cons, enclosing_of_not_isBracket (plain c List.mem_cons_self),
      ih fun d mem => plain d (List.mem_cons_of_mem c mem), Int.add_zero]

/-- From a start at some depth, all white space stands inside brackets. -/
def IsEnclosed (start : Int) (s : List Char) : Prop :=
  ∀ before c after, s = before ++ c :: after → isBlank c = true → 0 < start + enclosure before

theorem isEnclosed_nil (start : Int) : IsEnclosed start [] := by
  intro before c after cut
  exact absurd cut.symm (by simp)

theorem isEnclosed_cons_iff {start : Int} {c : Char} {s : List Char} :
    IsEnclosed start (c :: s) ↔
      (isBlank c = true → 0 < start) ∧ IsEnclosed (start + enclosing c) s := by
  constructor
  · intro enclosed
    refine ⟨fun blank => ?_, fun before d after cut blank => ?_⟩
    · simpa using enclosed [] c s rfl blank
    · have inside := enclosed (c :: before) d after (by rw [cut]; rfl) blank
      rwa [enclosure_cons, ← Int.add_assoc] at inside
  · rintro ⟨first, later⟩ before d after cut blank
    cases before with
    | nil =>
      obtain ⟨rfl, rfl⟩ := List.cons.inj cut
      rw [enclosure_nil, Int.add_zero]
      exact first blank
    | cons b before =>
      obtain ⟨rfl, rest⟩ := List.cons.inj cut
      have inside := later before d after rest blank
      rwa [enclosure_cons, ← Int.add_assoc]

/-! ### Taking a type -/

theorem takeToken_cons (c : Char) (s : List Char) (start : Int) :
    takeToken (c :: s) start =
      if isBlank c = true ∧ start ≤ 0 then ([], c :: s)
      else (c :: (takeToken s (start + enclosing c)).1, (takeToken s (start + enclosing c)).2) := by
  have next : (if c = '<' ∨ c = '(' ∨ c = '{' then start + 1
      else if c = '>' ∨ c = ')' ∨ c = '}' then start - 1 else start) = start + enclosing c := by
    rw [enclosing]
    split
    · rfl
    · split <;> omega
  rw [takeToken, next]

/-- White space outside brackets ends a type. -/
theorem takeToken_of_ends {rest : List Char} {start : Int}
    (ends : ∀ c ∈ rest.head?, isBlank c = true ∧ start ≤ 0) :
    takeToken rest start = ([], rest) := by
  cases rest with
  | nil => rfl
  | cons c rest => rw [takeToken_cons, if_pos (ends c rfl)]

/-- A text with white space inside brackets only is taken with what is taken behind it. -/
theorem takeToken_append {s : List Char} {start : Int} (enclosed : IsEnclosed start s)
    (rest : List Char) :
    takeToken (s ++ rest) start =
      (s ++ (takeToken rest (start + enclosure s)).1,
        (takeToken rest (start + enclosure s)).2) := by
  induction s generalizing start with
  | nil => rw [enclosure_nil, Int.add_zero, List.nil_append, List.nil_append]
  | cons c s ih =>
    obtain ⟨first, later⟩ := isEnclosed_cons_iff.1 enclosed
    have inside : ¬ (isBlank c = true ∧ start ≤ 0) := by
      rintro ⟨blank, shallow⟩
      have deep := first blank
      omega
    rw [List.cons_append, takeToken_cons, if_neg inside, ih later, enclosure_cons,
      ← Int.add_assoc]
    rfl

theorem takeToken_spec (s : List Char) (start : Int) :
    s = (takeToken s start).1 ++ (takeToken s start).2 ∧ IsEnclosed start (takeToken s start).1 ∧
      ∀ c ∈ (takeToken s start).2.head?,
        isBlank c = true ∧ start + enclosure (takeToken s start).1 ≤ 0 := by
  induction s generalizing start with
  | nil => exact ⟨rfl, isEnclosed_nil start, nofun⟩
  | cons c s ih =>
    rw [takeToken_cons]
    by_cases outside : isBlank c = true ∧ start ≤ 0
    · rw [if_pos outside]
      refine ⟨rfl, isEnclosed_nil start, fun d head => ?_⟩
      obtain rfl := Option.some.inj head
      rwa [enclosure_nil, Int.add_zero]
    · obtain ⟨whole, enclosed, ends⟩ := ih (start + enclosing c)
      rw [if_neg outside, enclosure_cons, ← Int.add_assoc]
      refine ⟨congrArg (c :: ·) whole, isEnclosed_cons_iff.2 ⟨fun blank => ?_, enclosed⟩, ends⟩
      exact Int.not_le.1 fun shallow => outside ⟨blank, shallow⟩

/-- A type reaches to the first white space outside brackets, and without such to the end. -/
theorem takeToken_eq_iff {s type rest : List Char} {start : Int} :
    takeToken s start = (type, rest) ↔
      s = type ++ rest ∧ IsEnclosed start type ∧
        ∀ c ∈ rest.head?, isBlank c = true ∧ start + enclosure type ≤ 0 := by
  constructor
  · intro taken
    have spec := takeToken_spec s start
    rwa [taken] at spec
  · rintro ⟨rfl, enclosed, ends⟩
    rw [takeToken_append enclosed, takeToken_of_ends ends, List.append_nil]

/-- All white space of the text stands inside brackets, and none is left open. -/
structure IsWhole (s : List Char) : Prop where
  enclosed : IsEnclosed 0 s
  closed : enclosure s ≤ 0

/-- In front of white space just such texts are taken whole. -/
theorem isWhole_iff {s : List Char} : IsWhole s ↔ takeToken (s ++ [' ']) = (s, [' ']) := by
  rw [takeToken_eq_iff]
  constructor
  · rintro ⟨enclosed, closed⟩
    refine ⟨rfl, enclosed, fun c head => ?_⟩
    obtain rfl := Option.some.inj head
    exact ⟨by decide, by rwa [Int.zero_add]⟩
  · rintro ⟨-, enclosed, ends⟩
    have closed := (ends ' ' rfl).2
    rw [Int.zero_add] at closed
    exact ⟨enclosed, closed⟩

instance (s : List Char) : Decidable (IsWhole s) := decidable_of_iff _ isWhole_iff.symm

theorem IsWhole.takeToken_append {s rest : List Char} (whole : IsWhole s)
    (ends : ∀ c ∈ rest.head?, isBlank c = true) : takeToken (s ++ rest) = (s, rest) := by
  refine takeToken_eq_iff.2 ⟨rfl, whole.enclosed, fun c head => ⟨ends c head, ?_⟩⟩
  rw [Int.zero_add]
  exact whole.closed

/-- What is taken runs on over the end of a text that leaves a bracket open. -/
theorem takeToken_open {s rest : List Char} (enclosed : IsEnclosed 0 s) (deep : 0 < enclosure s)
    (some : rest ≠ []) : ∃ more, more ≠ [] ∧ (takeToken (s ++ rest)).1 = s ++ more := by
  obtain ⟨c, rest, rfl⟩ := List.exists_cons_of_ne_nil some
  have inside : ¬ (isBlank c = true ∧ 0 + enclosure s ≤ 0) := by omega
  rw [takeToken_append enclosed, takeToken_cons, if_neg inside]
  exact ⟨_, List.cons_ne_nil _ _, rfl⟩

/-- A visible character in front is taken. -/
theorem head?_takeToken {s : List Char} {c : Char} (first : s.head? = some c)
    (visible : isBlank c = false) : (takeToken s).1.head? = some c := by
  obtain ⟨rest, rfl⟩ := List.head?_eq_some_iff.1 first
  rw [takeToken_cons, visible, if_neg (by simp)]
  rfl

theorem isWhole_cons_iff {c : Char} {s : List Char} (plain : enclosing c = 0)
    (visible : isBlank c = false) : IsWhole (c :: s) ↔ IsWhole s := by
  have enclosed : IsEnclosed 0 (c :: s) ↔ IsEnclosed 0 s := by
    rw [isEnclosed_cons_iff, plain, Int.add_zero, visible]
    exact and_iff_right nofun
  have closed : enclosure (c :: s) = enclosure s := by rw [enclosure_cons, plain, Int.zero_add]
  constructor
  · exact fun whole => ⟨enclosed.1 whole.enclosed, closed ▸ whole.closed⟩
  · exact fun whole => ⟨enclosed.2 whole.enclosed, closed ▸ whole.closed⟩

theorem IsWhole.visible_head {s : List Char} (whole : IsWhole s) :
    ∀ c ∈ s.head?, isBlank c = false := by
  intro c head
  by_contra blank
  rw [Bool.not_eq_false] at blank
  obtain ⟨rest, rfl⟩ := List.head?_eq_some_iff.1 head
  exact absurd (whole.enclosed [] c rest rfl blank) (by decide)

/-- No white space stands right before the part of a whole text that has no brackets. -/
theorem IsWhole.visible {s t : List Char} (whole : IsWhole (s ++ t)) (plain : enclosure t = 0) :
    ∀ c ∈ s.getLast?, isBlank c = false := by
  intro c last
  by_contra blank
  rw [Bool.not_eq_false] at blank
  obtain ⟨front, rfl⟩ := List.getLast?_eq_some_iff.1 last
  have inside := whole.enclosed front c t (List.append_assoc front [c] t) blank
  have closed := whole.closed
  rw [enclosure_append, enclosure_append, plain, enclosure_cons, enclosure_nil,
    enclosing_of_not_isBracket (isBracket_of_isBlank blank)] at closed
  omega

/-! ### The marks of prose -/

theorem clean_trim (s : List Char) : clean (trim s) = clean s := by
  rw [clean, clean, trim_of_isTrimmed (isTrimmed_trim s)]

/-- Ends a sentence. -/
def isStop (c : Char) : Bool := c == '.' || c == ','

theorem clean_eq (s : List Char) : clean s = (stripFirst '\\' (trim s)).rdropWhile isStop := rfl

theorem isStop_iff {c : Char} : isStop c = true ↔ c = '.' ∨ c = ',' := by
  rw [isStop, Bool.or_eq_true, beq_iff_eq, beq_iff_eq]

theorem not_isBlank_of_isStop {c : Char} (stop : isStop c = true) : isBlank c = false := by
  rcases isStop_iff.1 stop with rfl | rfl <;> decide

theorem not_isBracket_of_isStop {c : Char} (stop : isStop c = true) : isBracket c = false := by
  rcases isStop_iff.1 stop with rfl | rfl <;> decide

/-- Full stops and commas right behind an expression are cleaned away. -/
theorem clean_append_stops {s stops : List Char} (stop : ∀ c ∈ stops, isStop c = true)
    (visible : ∀ c ∈ s.getLast?, isBlank c = false) : clean (s ++ stops) = clean s := by
  have visible' : ∀ c ∈ (s ++ stops).getLast?, isBlank c = false := by
    intro c last
    rw [List.getLast?_append] at last
    cases behind : stops.getLast? with
    | none =>
      rw [behind] at last
      exact visible c last
    | some d =>
      rw [behind] at last
      obtain rfl := Option.some.inj last
      exact not_isBlank_of_isStop (stop d (List.mem_of_getLast? behind))
  have front : (s ++ stops).dropWhile isBlank = s.dropWhile isBlank ++ stops := by
    rw [List.dropWhile_append]
    split
    · rename_i none
      rw [List.isEmpty_iff.1 none, List.nil_append]
      apply dropWhile_of_visible
      exact fun c head => not_isBlank_of_isStop (stop c (List.mem_of_mem_head? head))
    · rfl
  have complete : stripFirst '\\' (s.dropWhile isBlank ++ stops) =
      stripFirst '\\' (s.dropWhile isBlank) ++ stops := by
    cases s.dropWhile isBlank with
    | nil =>
      apply stripFirst_of_head?_ne
      intro slash
      exact absurd (stop '\\' (List.mem_of_mem_head? slash)) (by decide)
    | cons c s =>
      rw [List.cons_append, stripFirst, stripFirst]
      split <;> rfl
  rw [clean_eq, clean_eq, trim_of_visible visible', trim_of_visible visible, front, complete,
    rdropWhile_append_of_pos stop]

/-- One backslash is cleaned away from what starts with neither another one nor white space. -/
theorem clean_backslash {s : List Char} (complete : s.head? ≠ some '\\')
    (visible : ∀ c ∈ s.head?, isBlank c = false) : clean ('\\' :: s) = clean s := by
  have start := dropWhile_of_visible visible
  have marked : trim ('\\' :: s) = '\\' :: trim s := by
    rw [trim_eq, trim_eq, start, List.dropWhile_cons_of_neg (by decide), List.rdropWhile,
      List.rdropWhile, List.reverse_cons, List.dropWhile_append]
    split
    · rename_i none
      rw [List.isEmpty_iff.1 none]
      rfl
    · rw [List.reverse_append]
      rfl
  have unmarked : stripFirst '\\' (trim s) = trim s := by
    apply stripFirst_of_head?_ne
    intro slash
    have front : trim s <+: s := by
      rw [trim_eq, start]
      exact List.rdropWhile_prefix isBlank s
    obtain ⟨rest, more⟩ := front
    apply complete
    rw [← more, List.head?_append, slash]
    rfl
  rw [clean_eq, clean_eq, marked, unmarked, stripFirst, if_pos rfl]

end PhpSymbols.Ty.Expression

namespace PhpSymbols.Resolver
open Ty Ty.Expression

variable {r : Resolver} {e : List Char}

theorem map_clean_splitUnion (e : List Char) :
    (splitUnion e).map clean = (splitTop '|' e).map clean := by
  simp only [splitUnion, List.map_map, Function.comp_def, clean_trim]

theorem resolve_backslash (r : Resolver) (complete : e.head? ≠ some '\\')
    (visible : ∀ c ∈ e.head?, Text.isBlank c = false) : r.resolve ('\\' :: e) = r.resolve e := by
  obtain ⟨part, parts, found⟩ := List.exists_cons_of_ne_nil (splitTop_ne_nil '|' e 0)
  have first : ∀ c ∈ part.head?, e.head? = some c := by
    intro c head
    obtain ⟨rest, rfl⟩ := prefix_of_splitTop found
    rw [List.head?_append, Option.mem_def.1 head]
    rfl
  have cleaned : clean ('\\' :: part) = clean part :=
    clean_backslash (fun slash => complete (first _ slash)) fun c head => visible c (first c head)
  apply resolve_congr_clean
  rw [map_clean_splitUnion, map_clean_splitUnion, splitTop_other e (by decide),
    depthAfter_of_not_isBracket (by decide), found, List.modifyHead_cons, List.map_cons,
    List.map_cons, cleaned]

theorem resolve_append_stops (r : Resolver) {stops : List Char}
    (stop : ∀ c ∈ stops, isStop c = true) (visible : ∀ c ∈ e.getLast?, Text.isBlank c = false) :
    r.resolve (e ++ stops) = r.resolve e := by
  obtain ⟨parts, last, found⟩ := exists_last_splitTop '|' e 0
  have noBar : ∀ c ∈ stops, c ≠ '|' := by
    rintro c mem rfl
    exact absurd (stop '|' mem) (by decide)
  have behind : splitTop '|' stops (0 + depth e) = [stops] :=
    (solid_of_plain (fun c mem => not_isBracket_of_isStop (stop c mem)) noBar).splitTop_eq
  have visible' : ∀ c ∈ last.getLast?, Text.isBlank c = false := by
    intro c end_
    obtain ⟨front, rfl⟩ := suffix_of_splitTop found
    apply visible c
    rw [List.getLast?_append, Option.mem_def.1 end_]
    rfl
  apply resolve_congr_clean
  rw [map_clean_splitUnion, map_clean_splitUnion, splitTop_append (by decide) found behind, found,
    List.map_append, List.map_append, List.map_singleton, List.map_singleton,
    clean_append_stops stop visible']

/-- The backslash of a complete name does not matter, unless there are two of them. -/
theorem resolve_stripFirst (r : Resolver) (whole : IsWhole e)
    (single : ¬ "\\\\".toList <+: e) :
    IsWhole (Text.stripFirst '\\' e) ∧ r.resolve (Text.stripFirst '\\' e) = r.resolve e := by
  by_cases slash : e.head? = some '\\'
  · obtain ⟨e, rfl⟩ := List.head?_eq_some_iff.1 slash
    have inner : IsWhole e := (isWhole_cons_iff (by decide) (by decide)).1 whole
    have complete : e.head? ≠ some '\\' := by
      intro slash
      obtain ⟨rest, rfl⟩ := List.head?_eq_some_iff.1 slash
      exact single ⟨rest, rfl⟩
    rw [Text.stripFirst, if_pos rfl, resolve_backslash r complete inner.visible_head]
    exact ⟨inner, rfl⟩
  · rw [Text.stripFirst_of_head?_ne slash]
    exact ⟨whole, rfl⟩

/-- An expression that is taken whole off the start of a text is read alike with the marks of prose
and without, unless it starts with two backslashes. -/
theorem resolve_clean (r : Resolver) (whole : IsWhole (Text.trim e))
    (single : ¬ "\\\\".toList <+: Text.trim e) : r.resolve (clean e) = r.resolve e := by
  obtain ⟨inner, same⟩ := resolve_stripFirst r whole single
  obtain ⟨stops, stop, cut⟩ : ∃ stops, (∀ c ∈ stops, isStop c = true) ∧
      Text.stripFirst '\\' (Text.trim e) = clean e ++ stops :=
    ⟨_, fun c mem => List.mem_rtakeWhile_imp mem, (List.rdropWhile_append_rtakeWhile ..).symm⟩
  rw [cut] at inner
  have flat := enclosure_of_plain fun c mem => not_isBracket_of_isStop (stop c mem)
  have visible := inner.visible flat
  rw [← resolve_append_stops r stop visible, ← cut, same, resolve_trim]

end PhpSymbols.Resolver
