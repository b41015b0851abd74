import PhpSymbols.Proofs.Text.Trimmed

/-!
# How a text ends

* `Tight`: no white space at the end; empty parts between tight texts do no harm;
* `EndsVisibly`: the last character is no white space, so the text is not empty;
* `EndsLine`: one line end, right behind a visible character. `endsLine_newline` makes such a text
  from one that ends visibly, and `EndsLine.trimEnd` takes the line end off again.
-/

namespace PhpSymbols.Text

/-- Has no white space at its end. -/
def Tight (s : String) : Prop := ∀ c ∈ s.toList.getLast?, isBlank c = false

instance (s : String) : Decidable (Tight s) :=
  inferInstanceAs (Decidable (∀ c ∈ s.toList.getLast?, isBlank c = false))

/-- Ends with a visible character. -/
def EndsVisibly (s : String) : Prop := ∃ c ∈ s.toList.getLast?, isBlank c = false

instance (s : String) : Decidable (EndsVisibly s) :=
  inferInstanceAs (Decidable (∃ c ∈ s.toList.getLast?, isBlank c = false))

/-- Ends with one line end, which stands behind a visible character. -/
def EndsLine (s : String) : Prop :=
  ∃ front c, s.toList = front ++ [c, '\n'] ∧ isBlank c = false

variable {s t : String}

/-! ### Tight texts -/

theorem tight_empty : Tight "" := nofun

theorem EndsVisibly.tight (visible : EndsVisibly s) : Tight s := by
  obtain ⟨c, last, isVisible⟩ := visible
  intro d last'
  rwa [← Option.mem_unique last last']

theorem Tight.endsVisibly (tight : Tight s) (some : s ≠ "") : EndsVisibly s := by
  cases end_ : s.toList.getLast? with
  | none =>
    have none : s.toList = "".toList := List.getLast?_eq_none_iff.1 end_
    exact absurd (String.toList_inj.1 none) some
  | some c => exact ⟨c, end_, tight c end_⟩

theorem EndsVisibly.append (visible : EndsVisibly t) : EndsVisibly (s ++ t) := by
  obtain ⟨c, last, isVisible⟩ := visible
  refine ⟨c, ?_, isVisible⟩
  rw [String.toList_append, List.getLast?_append, Option.mem_def.1 last]
  rfl

theorem EndsVisibly.append_tight (visible : EndsVisibly s) (tight : Tight t) :
    EndsVisibly (s ++ t) := by
  obtain ⟨c, last, isVisible⟩ := visible
  cases end_ : t.toList.getLast? with
  | none =>
    refine ⟨c, ?_, isVisible⟩
    rw [String.toList_append, List.getLast?_append, end_]
    exact last
  | some d => exact EndsVisibly.append ⟨d, end_, tight d end_⟩

theorem Tight.append (first : Tight s) (second : Tight t) : Tight (s ++ t) := by
  cases end_ : t.toList.getLast? with
  | none =>
    rw [Tight, String.toList_append, List.getLast?_append, end_]
    exact first
  | some d => exact (EndsVisibly.append ⟨d, end_, second d end_⟩).tight

theorem tight_join {texts : List String} (each : ∀ t ∈ texts, Tight t) :
    Tight (String.join texts) := by
  induction texts with
  | nil => exact tight_empty
  | cons t texts ih =>
    rw [String.join_cons]
    exact (each t List.mem_cons_self).append (ih fun u mem => each u (List.mem_cons_of_mem t mem))

/-- No part is empty, so the separator never comes last. -/
theorem endsVisibly_intercalate {separator : String} {texts : List String} (some : texts ≠ [])
    (each : ∀ t ∈ texts, EndsVisibly t) : EndsVisibly (String.intercalate separator texts) := by
  induction texts with
  | nil => exact absurd rfl some
  | cons t texts ih =>
    cases texts with
    | nil =>
      rw [String.intercalate_singleton]
      exact each t List.mem_cons_self
    | cons u texts =>
      rw [String.intercalate_cons_cons]
      exact (ih nofun fun v mem => each v (List.mem_cons_of_mem t mem)).append

/-! ### Line ends -/

theorem endsLine_newline (visible : EndsVisibly s) : EndsLine (s ++ "\n") := by
  obtain ⟨c, last, isVisible⟩ := visible
  obtain ⟨front, split⟩ := List.getLast?_eq_some_iff.1 last
  refine ⟨front, c, ?_, isVisible⟩
  rw [String.toList_append, split, List.append_assoc]
  rfl

theorem EndsLine.append (ends : EndsLine t) : EndsLine (s ++ t) := by
  obtain ⟨front, c, split, isVisible⟩ := ends
  exact ⟨s.toList ++ front, c, by rw [String.toList_append, split, List.append_assoc], isVisible⟩

/-- What trimming takes from such a text is its line end. -/
theorem EndsLine.trimEnd (ends : EndsLine s) :
    String.ofList (trimEnd s.toList) ++ "\n" = s := by
  obtain ⟨front, c, split, isVisible⟩ := ends
  have trimmed : Text.trimEnd s.toList = front ++ [c] := by
    have cut := List.rdropWhile_concat_pos isBlank (front ++ [c]) '\n' (by decide)
    rw [List.rdropWhile_concat_neg isBlank front c (by simp [isVisible])] at cut
    rwa [List.append_assoc, List.cons_append, List.nil_append, ← split] at cut
  rw [← String.toList_inj, String.toList_append, String.toList_ofList, trimmed, split,
    List.append_assoc]
  rfl

end PhpSymbols.Text
