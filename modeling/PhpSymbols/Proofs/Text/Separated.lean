import Mathlib.Data.List.TakeWhile
import PhpSymbols.Text.Cut

/-!
# Cuts at one character

* `splitOnce_eq_some_iff`, `splitOnce_eq_none_iff`: a cut at the first place where a character
  stands, and when there is none;
* `splitOnceLast_eq_some_iff`, `splitOnceLast_eq_none_iff`: the same at the last place;
* `behind?_append_cons`: a word does not reach over a character that it has not.
-/

namespace PhpSymbols.Text

variable {c : Char} {s before after : List Char}

theorem splitOnce_append (first : c ∉ before) (after : List Char) :
    splitOnce c (before ++ c :: after) = some (before, after) := by
  have others : ∀ d ∈ before, (d != c) = true := by
    intro d mem
    simpa using fun same : d = c => first (same ▸ mem)
  rw [splitOnce, List.dropWhile_append_of_pos others, List.takeWhile_append_of_pos others,
    List.dropWhile_cons_of_neg (by simp), List.takeWhile_cons_of_neg (by simp),
    List.append_nil]

theorem splitOnce_eq_none_iff : splitOnce c s = none ↔ c ∉ s := by
  constructor
  · intro none mem
    obtain ⟨before, after, rfl, first⟩ := List.eq_append_cons_of_mem mem
    rw [splitOnce_append first] at none
    cases none
  · intro absent
    have others : ∀ d ∈ s, (d != c) = true := by
      intro d mem
      simpa using fun same : d = c => absent (same ▸ mem)
    rw [splitOnce, List.dropWhile_eq_nil_iff.2 others]

/-- The first place is the one with no other in front of it. -/
theorem splitOnce_eq_some_iff :
    splitOnce c s = some (before, after) ↔ s = before ++ c :: after ∧ c ∉ before := by
  constructor
  · intro found
    have mem : c ∈ s := by
      by_contra absent
      rw [splitOnce_eq_none_iff.2 absent] at found
      cases found
    obtain ⟨front, back, rfl, first⟩ := List.eq_append_cons_of_mem mem
    rw [splitOnce_append first] at found
    obtain ⟨rfl, rfl⟩ := Prod.mk.inj (Option.some.inj found)
    exact ⟨rfl, first⟩
  · rintro ⟨rfl, first⟩
    exact splitOnce_append first after

theorem splitOnceLast_eq_none_iff : splitOnceLast c s = none ↔ c ∉ s := by
  rw [splitOnceLast, Option.map_eq_none_iff, splitOnce_eq_none_iff, List.mem_reverse]

/-- The last place is the one with no other behind it. -/
theorem splitOnceLast_eq_some_iff :
    splitOnceLast c s = some (before, after) ↔ s = before ++ c :: after ∧ c ∉ after := by
  rw [splitOnceLast, Option.map_eq_some_iff]
  constructor
  · rintro ⟨⟨back, front⟩, found, same⟩
    obtain ⟨rfl, rfl⟩ := Prod.mk.inj same
    obtain ⟨whole, last⟩ := splitOnce_eq_some_iff.1 found
    refine ⟨?_, fun mem => last (List.mem_reverse.1 mem)⟩
    rw [← List.reverse_reverse s, whole]
    simp
  · rintro ⟨rfl, last⟩
    refine ⟨(after.reverse, before.reverse), splitOnce_eq_some_iff.2 ⟨by simp, ?_⟩, by simp⟩
    exact fun mem => last (List.mem_reverse.1 mem)

theorem splitOnceLast_append (last : c ∉ after) (before : List Char) :
    splitOnceLast c (before ++ c :: after) = some (before, after) :=
  splitOnceLast_eq_some_iff.2 ⟨rfl, last⟩

/-- A word does not reach over a character that it has not. -/
theorem behind?_append_cons {part : List Char} (absent : c ∉ part) (s rest : List Char) :
    behind? part (s ++ c :: rest) = (behind? part s).map (· ++ c :: rest) := by
  induction part generalizing s with
  | nil => rfl
  | cons p part ih =>
    obtain ⟨other, absent⟩ := not_or.1 (List.mem_cons.not.1 absent)
    cases s with
    | nil => exact if_neg (Ne.symm other)
    | cons d s =>
      rw [List.cons_append, behind?, behind?]
      by_cases same : p = d
      · rw [if_pos same, if_pos same, ih absent]
      · rw [if_neg same, if_neg same, Option.map_none]

end PhpSymbols.Text
