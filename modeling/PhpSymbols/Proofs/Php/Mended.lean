import Mathlib
import PhpSymbols.Php.Repair
import PhpSymbols.Proofs.Text.StandsAt

/-!
# Mended sources

* `standsAt_of_insertSemicolons`: in a text with semicolons put into it, every other character
  stands as many bytes behind its place as semicolons stand before it;
* `Reading.program_eq`: a reading is the program of its text, mended or not;
* `Reading.exists_standsAt`: where a character other than a semicolon stands in the text as read is
  the place, shifted, where it stands in the source.

The reading of a fixed source is found by evaluation (`cbv`), which takes the equations of library
functions from wherever the library has them; so it is imported whole, here and nowhere else.
-/

namespace PhpSymbols.Php
open Text (byteLength StandsAt)

/-- A semicolon stands before each character that is not before its place. -/
theorem standsAt_of_insertSemicolons {at_ : Nat} {places : List Nat} {s : List Char} {n : Nat}
    {c : Char} (other : c ≠ ';') (h : StandsAt (insertSemicolons at_ places s) n c) :
    ∃ o, StandsAt s o c ∧ n = o + (places.takeWhile (· ≤ at_ + o)).length := by
  obtain ⟨before, behind, split, rfl⟩ := h
  fun_induction insertSemicolons at_ places s generalizing before with
  | case1 at_ s => exact ⟨byteLength before, ⟨before, behind, split, rfl⟩, rfl⟩
  | case2 at_ p ps =>
    have mem : c ∈ (p :: ps).map fun _ => ';' := by simp [split]
    obtain ⟨-, -, same⟩ := List.mem_map.1 mem
    exact absurd same.symm other
  | case3 at_ p ps d s due ih =>
    cases before with
    | nil => exact absurd (List.cons.inj split).1.symm other
    | cons e before =>
      obtain ⟨rfl, inner⟩ := List.cons.inj split
      obtain ⟨o, stands, same⟩ := ih before inner
      refine ⟨o, stands, ?_⟩
      have first : p ≤ at_ + o := Nat.le_add_right_of_le due
      rw [Text.byteLength_cons, same, List.takeWhile_cons_of_pos (by simpa using first),
        List.length_cons]
      have size : (';' : Char).utf8Size = 1 := by decide
      omega
  | case4 at_ p ps d s later ih =>
    cases before with
    | nil =>
      obtain ⟨rfl, -⟩ := List.cons.inj split
      refine ⟨0, ⟨[], s, rfl, rfl⟩, ?_⟩
      rw [List.takeWhile_cons_of_neg (by simpa using later)]
      rfl
    | cons e before =>
      obtain ⟨rfl, inner⟩ := List.cons.inj split
      obtain ⟨o, ⟨before', behind', split', rfl⟩, same⟩ := ih before inner
      refine ⟨d.utf8Size + byteLength before', ⟨d :: before', behind', ?_, rfl⟩, ?_⟩
      · rw [split']
        rfl
      · rw [Text.byteLength_cons, same, ← Nat.add_assoc, ← Nat.add_assoc at_]

/-! ### The places of a reading -/

theorem withoutRepeats_sublist (places : List Nat) : (withoutRepeats places).Sublist places := by
  fun_induction withoutRepeats places with
  | case1 => exact .refl _
  | case2 => exact .refl _
  | case3 x xs ih => exact .cons x ih
  | case4 x y xs _ ih => exact .cons_cons x ih

theorem pairwise_withoutRepeats {places : List Nat} (ascending : places.Pairwise (· ≤ ·)) :
    (withoutRepeats places).Pairwise (· < ·) := by
  fun_induction withoutRepeats places with
  | case1 => exact .nil
  | case2 x => exact List.pairwise_singleton _ x
  | case3 x xs ih => exact ih ascending.of_cons
  | case4 x y xs other ih =>
    obtain ⟨first, rest⟩ := List.pairwise_cons.1 ascending
    refine List.pairwise_cons.2 ⟨fun z mem => ?_, ih rest⟩
    have le : y ≤ z := by
      rcases List.mem_cons.1 ((withoutRepeats_sublist _).subset mem) with rfl | mem
      · exact Nat.le_refl _
      · exact (List.pairwise_cons.1 rest).1 z mem
    have := first y List.mem_cons_self
    omega

/-- Each header is mended once, however many faults it makes. -/
theorem pairwise_headerEnds (text : List Char) (faults : List Fault) :
    (headerEnds text faults).Pairwise (· < ·) := by
  apply pairwise_withoutRepeats
  have sorted (places : List Nat) :
      (places.mergeSort (· ≤ ·)).Pairwise fun a b => decide (a ≤ b) = true :=
    List.pairwise_mergeSort (by simpa using fun a b c => Nat.le_trans) (by simpa using Nat.le_total)
      places
  simpa using sorted (faults.filterMap (headerEnd? text))

theorem ascending_headerEnds (text : List Char) (faults : List Fault) :
    (headerEnds text faults).Pairwise (· ≤ ·) :=
  (pairwise_headerEnds text faults).imp Nat.le_of_lt

theorem takeWhile_eq_filter {places : List Nat} (ascending : places.Pairwise (· ≤ ·)) (o : Nat) :
    places.takeWhile (· ≤ o) = places.filter (· ≤ o) := by
  induction ascending with
  | nil => rfl
  | @cons p ps first _ ih =>
    by_cases before : p ≤ o
    · rw [List.takeWhile_cons_of_pos (by simpa using before),
        List.filter_cons_of_pos (by simpa using before), ih]
    · have none : (p :: ps).filter (· ≤ o) = [] := by
        rw [List.filter_eq_nil_iff]
        intro q mem
        rcases List.mem_cons.1 mem with rfl | mem
        · simpa using before
        · have := first q mem
          simp only [decide_eq_true_eq]
          omega
      rw [List.takeWhile_cons_of_neg (by simpa using before), none]

namespace Reading
variable [Frontend]

theorem ascending_inserted (source : String) :
    (Reading.of source).inserted.Pairwise (· ≤ ·) := by
  have ascending := ascending_headerEnds source.toList (Frontend.parse source).faults
  rw [Reading.of]
  split
  · exact .nil
  · exact ascending

theorem program_eq (source : String) :
    (Reading.of source).program = Frontend.parse (String.ofList (Reading.of source).text) := by
  rw [Reading.of]
  split
  · rw [String.ofList_toList]
  · rfl

theorem text_eq (source : String) :
    (Reading.of source).text =
      insertSemicolons 0 (Reading.of source).inserted source.toList := by
  rw [Reading.of]
  split
  · rw [insertSemicolons]
  · rfl

/-- What is read from a place stands in the source, and the place is the shifted one. -/
theorem exists_standsAt {source : String} {n : Nat} {c : Char} (other : c ≠ ';')
    (h : StandsAt (Reading.of source).text n c) :
    ∃ o, StandsAt source.toList o c ∧ n = (Reading.of source).shifted o := by
  rw [text_eq] at h
  obtain ⟨o, stands, same⟩ := standsAt_of_insertSemicolons other h
  refine ⟨o, stands, ?_⟩
  rw [same, Nat.zero_add, takeWhile_eq_filter (ascending_inserted source), shifted]

end Reading

end PhpSymbols.Php
