import Mathlib.Data.List.DropRight
import Mathlib.Data.List.TakeWhile
import PhpSymbols.Text.Cut

/-!
# White space at the ends

* `IsTrimmed`: a text that neither starts nor ends with white space;
* `isTrimmed_trim`, `trim_of_isTrimmed`: trimming makes a text so, and keeps one that is so;
* `trim_blank_append`, `trim_append_blank`: white space around a text does not matter;
* `dropWhile_of_visible`, `trim_of_visible`: a visible start is kept, and so is a visible end;
* `exists_trim`: a text is its trimmed form with white space around it;
* `trim_append_cons`: around a visible character, each side is trimmed at its own end;
* `trimEndMatches_append`, `trimEndMatches_of_not_suffix`: copies of a part at the end.
-/

namespace PhpSymbols.Text

/-! ### Deciding

What holds of every character of a text is asked of these alone, and not of every character there
is. -/

instance decidableForallMem (p : Char → Prop) [DecidablePred p] (s : List Char) :
    Decidable (∀ c ∈ s, p c) := List.decidableBAll p s

instance decidableForallMemOption (p : Char → Prop) [DecidablePred p] (o : Option Char) :
    Decidable (∀ c ∈ o, p c) :=
  decidable_of_iff (∀ c ∈ o.toList, p c) (by simp)

instance decidableExistsMemOption (p : Char → Prop) [DecidablePred p] (o : Option Char) :
    Decidable (∃ c ∈ o, p c) :=
  @decidable_of_iff _ (∃ c ∈ o.toList, p c) (by simp) (List.decidableBEx p o.toList)

/-! ### Trimming -/

/-- Neither starts nor ends with white space. -/
structure IsTrimmed (s : List Char) : Prop where
  head : ∀ c ∈ s.head?, isBlank c = false
  last : ∀ c ∈ s.getLast?, isBlank c = false

instance (s : List Char) : Decidable (IsTrimmed s) :=
  decidable_of_iff ((∀ c ∈ s.head?, isBlank c = false) ∧ ∀ c ∈ s.getLast?, isBlank c = false)
    ⟨fun h => ⟨h.1, h.2⟩, fun h => ⟨h.head, h.last⟩⟩

theorem trim_eq (s : List Char) : trim s = (s.dropWhile isBlank).rdropWhile isBlank := rfl

theorem isTrimmed_nil : IsTrimmed [] := ⟨nofun, nofun⟩

theorem getLast?_trimEnd (s : List Char) : ∀ c ∈ (trimEnd s).getLast?, isBlank c = false := by
  intro c last
  have kept : trimEnd s ≠ [] := by
    rintro none
    rw [none] at last
    exact absurd last nofun
  have same := List.getLast?_eq_some_getLast kept
  rw [Option.mem_def.1 last] at same
  have visible := List.rdropWhile_last_not isBlank s kept
  rw [Option.some.inj same]
  exact Bool.eq_false_iff.2 visible

theorem isTrimmed_trim (s : List Char) : IsTrimmed (trim s) := by
  refine ⟨?_, getLast?_trimEnd _⟩
  intro c head
  have front : trim s <+: s.dropWhile isBlank := List.rdropWhile_prefix isBlank _
  have head : (s.dropWhile isBlank).head? = some c := by
    obtain ⟨rest, split⟩ := front
    rw [← split, List.head?_append, Option.mem_def.1 head]
    rfl
  have visible := List.head?_dropWhile_not isBlank s
  rw [head] at visible
  exact visible

theorem dropWhile_of_visible {s : List Char} (visible : ∀ c ∈ s.head?, isBlank c = false) :
    s.dropWhile isBlank = s := by
  cases s with
  | nil => rfl
  | cons c s => exact List.dropWhile_cons_of_neg (by simp [visible c rfl])

theorem trim_of_isTrimmed {s : List Char} (trimmed : IsTrimmed s) : trim s = s := by
  rw [trim_eq, dropWhile_of_visible trimmed.head, List.rdropWhile_eq_self_iff]
  intro kept
  exact Bool.eq_false_iff.1 (trimmed.last _ (List.getLast?_eq_some_getLast kept))

theorem head?_blank_append {a : List Char} (some : a ≠ []) (blank : ∀ c ∈ a, isBlank c = true)
    (s : List Char) : ∀ c ∈ (a ++ s).head?, isBlank c = true := by
  intro c head
  rw [List.head?_append_of_ne_nil _ some] at head
  exact blank c (List.mem_of_mem_head? head)

theorem trim_blank_append {a : List Char} (blank : ∀ c ∈ a, isBlank c = true) (s : List Char) :
    trim (a ++ s) = trim s := by
  rw [trim_eq, trim_eq, List.dropWhile_append_of_pos blank]

theorem rdropWhile_append_of_pos {p : Char → Bool} {b : List Char} (drops : ∀ c ∈ b, p c = true)
    (s : List Char) : (s ++ b).rdropWhile p = s.rdropWhile p := by
  rw [List.rdropWhile, List.reverse_append,
    List.dropWhile_append_of_pos fun c mem => drops c (List.mem_reverse.1 mem)]
  rfl

theorem trim_append_blank {b : List Char} (blank : ∀ c ∈ b, isBlank c = true) (s : List Char) :
    trim (s ++ b) = trim s := by
  rw [trim_eq, trim_eq, List.dropWhile_append]
  split
  · rename_i none
    rw [List.isEmpty_iff.1 none, List.dropWhile_eq_nil_iff.2 blank]
  · rw [rdropWhile_append_of_pos blank]

/-- Of a text with a visible end only the start is trimmed. -/
theorem trim_of_visible {s : List Char} (visible : ∀ c ∈ s.getLast?, isBlank c = false) :
    trim s = s.dropWhile isBlank := by
  rw [trim_eq, List.rdropWhile_eq_self_iff]
  intro some
  rw [(List.dropWhile_suffix isBlank).getLast some]
  exact Bool.eq_false_iff.1 (visible _ (List.getLast?_eq_some_getLast _))

/-- What trimming takes away is white space. -/
theorem exists_trim (s : List Char) : ∃ before after,
    (∀ c ∈ before, isBlank c = true) ∧ (∀ c ∈ after, isBlank c = true) ∧
      s = before ++ trim s ++ after := by
  refine ⟨s.takeWhile isBlank, (s.dropWhile isBlank).rtakeWhile isBlank,
    fun c mem => List.mem_takeWhile_imp mem, fun c mem => List.mem_rtakeWhile_imp mem, ?_⟩
  rw [trim_eq, List.append_assoc, List.rdropWhile_append_rtakeWhile,
    List.takeWhile_append_dropWhile]

theorem infix_trim (s : List Char) : trim s <:+: s := by
  obtain ⟨before, after, -, -, whole⟩ := exists_trim s
  exact ⟨before, after, whole.symm⟩

theorem trim_trimStart (s : List Char) : trim (trimStart s) = trim s := by
  rw [trim, trim, trimStart, trimStart, List.dropWhile_idempotent]

theorem trim_trimEnd (s : List Char) : trim (trimEnd s) = trim s := by
  have whole : s = trimEnd s ++ s.rtakeWhile isBlank := List.rdropWhile_append_rtakeWhile.symm
  conv_rhs => rw [whole, trim_append_blank fun c mem => List.mem_rtakeWhile_imp mem]

theorem trimEnd_append_cons {c : Char} (visible : isBlank c = false) (s t : List Char) :
    trimEnd (s ++ c :: t) = s ++ c :: trimEnd t := by
  rw [trimEnd, trimEnd, trimEndWhile, trimEndWhile, List.reverse_append, List.reverse_cons,
    List.append_assoc, List.dropWhile_append]
  split
  · rename_i none
    rw [List.isEmpty_iff.1 none, List.singleton_append,
      List.dropWhile_cons_of_neg (by simp [visible])]
    simp
  · simp

theorem trimStart_append_cons {c : Char} (visible : isBlank c = false) (s t : List Char) :
    trimStart (s ++ c :: t) = trimStart s ++ c :: t := by
  rw [trimStart, trimStart, List.dropWhile_append]
  split
  · rename_i none
    rw [List.isEmpty_iff.1 none, List.dropWhile_cons_of_neg (by simp [visible])]
    rfl
  · rfl

/-- Around a visible character, each side is trimmed at its own end. -/
theorem trim_append_cons {c : Char} (visible : isBlank c = false) (s t : List Char) :
    trim (s ++ c :: t) = trimStart s ++ c :: trimEnd t := by
  rw [trim, trimStart_append_cons visible, trimEnd_append_cons visible]

theorem trim_of_blank {s : List Char} (blank : ∀ c ∈ s, isBlank c = true) : trim s = [] :=
  (trim_append_blank blank []).trans rfl

/-! ### Copies at the end -/

theorem trimEndMatches_append {part : List Char} (some : part ≠ []) (s : List Char) :
    trimEndMatches part (s ++ part) = trimEndMatches part s := by
  obtain ⟨c, part, rfl⟩ := List.exists_cons_of_ne_nil some
  have found : ahead? (c :: part) (s ++ c :: part) = .some s := ahead?_eq_some_iff.2 rfl
  have shorter : s.length < (s ++ c :: part).length := by simp
  rw [trimEndMatches.eq_def]
  simp only [found, if_pos shorter]

theorem trimEndMatches_of_not_suffix {part s : List Char} (other : ¬ part <:+ s) :
    trimEndMatches part s = s := by
  have absent : ahead? part s = none := by
    rw [Option.eq_none_iff_forall_ne_some]
    rintro rest found
    exact other ⟨rest, (ahead?_eq_some_iff.1 found).symm⟩
  rw [trimEndMatches.eq_def, absent]
  cases part <;> rfl

end PhpSymbols.Text
