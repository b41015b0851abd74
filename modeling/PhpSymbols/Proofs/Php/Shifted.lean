import Mathlib.Data.List.DropRight
import Mathlib.Order.Monotone.Defs
import PhpSymbols.Proofs.Php.Mended

/-!
# Shifted places

What mending does to a text, byte by byte, for any text and any faults:

* `withSemicolons`: bytes with semicolons put in at places of theirs; `eraseIdx_withSemicolons`
  takes them out again, and `drop_withSemicolons` is what stands behind a place;
* `bytes_insertSemicolons`: this is what mending makes of the bytes of a text;
* `isPlace_of_mem_headerEnds`, `pairwise_headerEnds`: headers end at places of the text, each of
  which is mended once;
* `drop_bytes_mended`, `getElem?_bytes_mended`: what stands in the mended text at the shifted place
  of a byte, and from there on;
* `Reading.shifted_mended`: so mending moves the bytes of a text to their shifted places, and
  changes nothing else.
-/

namespace PhpSymbols

namespace Text

/-- The UTF-8 form of a text. -/
def bytes (s : List Char) : List UInt8 := s.flatMap String.utf8EncodeChar

theorem length_bytes (s : List Char) : (bytes s).length = byteLength s := length_utf8 s

theorem bytes_cons (c : Char) (s : List Char) :
    bytes (c :: s) = String.utf8EncodeChar c ++ bytes s := List.flatMap_cons

/-- A place behind the start of a text is behind its first character. -/
theorem utf8Size_le_of_isPlace {c : Char} {s : List Char} {n : Nat}
    (place : isPlace n (c :: s) = true) (behind : 0 < n) :
    c.utf8Size ≤ n ∧ isPlace (n - c.utf8Size) s = true := by
  obtain ⟨before, rest, split, rfl⟩ := isPlace_iff.1 place
  cases before with
  | nil => simp at behind
  | cons d before =>
    obtain ⟨rfl, rfl⟩ := List.cons.inj split
    rw [byteLength_cons, Nat.add_sub_cancel_left]
    exact ⟨Nat.le_add_right _ _, isPlace_iff.2 ⟨before, rest, rfl, rfl⟩⟩

end Text

namespace Php
open Text

/-! ### Bytes with semicolons put in -/

/-- The bytes with a semicolon put in at each of the ascending `places`. What is put in moves the
places behind it, so the last semicolon goes in first. -/
def withSemicolons (places : List Nat) (bs : List UInt8) : List UInt8 :=
  places.foldr (fun p bs => bs.insertIdx p ';'.toUInt8) bs

theorem withSemicolons_cons (p : Nat) (ps : List Nat) (bs : List UInt8) :
    withSemicolons (p :: ps) bs = (withSemicolons ps bs).insertIdx p ';'.toUInt8 := rfl

theorem length_le_withSemicolons (places : List Nat) (bs : List UInt8) :
    bs.length ≤ (withSemicolons places bs).length := by
  induction places with
  | nil => exact Nat.le_refl _
  | cons p ps ih => exact Nat.le_trans ih List.length_le_length_insertIdx

theorem length_withSemicolons {places : List Nat} {bs : List UInt8}
    (inside : ∀ p ∈ places, p ≤ bs.length) :
    (withSemicolons places bs).length = bs.length + places.length := by
  induction places with
  | nil => rfl
  | cons p ps ih =>
    obtain ⟨first, others⟩ := List.forall_mem_cons.1 inside
    have fits := Nat.le_trans first (length_le_withSemicolons ps bs)
    rw [withSemicolons_cons, List.length_insertIdx_of_le_length fits, ih others, List.length_cons]
    omega

/-- One after the other, each semicolon stands at its place when those before it are gone. -/
theorem eraseIdx_withSemicolons (places : List Nat) (bs : List UInt8) :
    places.foldl List.eraseIdx (withSemicolons places bs) = bs := by
  induction places with
  | nil => rfl
  | cons p ps ih =>
    rw [List.foldl_cons, withSemicolons_cons, List.eraseIdx_insertIdx_self, ih]

/-- Nothing is put in at the start if no place is there. -/
theorem head?_withSemicolons {places : List Nat} (bs : List UInt8)
    (behind : ∀ p ∈ places, 0 < p) : (withSemicolons places bs)[0]? = bs[0]? := by
  induction places with
  | nil => rfl
  | cons p ps ih =>
    obtain ⟨first, others⟩ := List.forall_mem_cons.1 behind
    rw [withSemicolons_cons, List.getElem?_insertIdx_of_lt first, ih others]

theorem drop_insertIdx_of_le {bs : List UInt8} {p n : Nat} (before : p ≤ n) (b : UInt8) :
    (bs.insertIdx p b).drop (n + 1) = bs.drop n := by
  apply List.ext_getElem?
  intro i
  rw [List.getElem?_drop, List.getElem?_drop, List.getElem?_insertIdx_of_gt (by omega)]
  congr 1
  omega

theorem drop_insertIdx_of_lt {bs : List UInt8} {p n : Nat} (behind : n < p) (b : UInt8) :
    (bs.insertIdx p b).drop n = (bs.drop n).insertIdx (p - n) b := by
  apply List.ext_getElem?
  intro i
  simp only [List.getElem?_drop, List.getElem?_insertIdx, List.length_drop]
  rcases Nat.lt_trichotomy (n + i) p with lt | eq | gt
  · simp [lt, show i < p - n by omega]
  · obtain rfl : i = p - n := by omega
    simp only [eq, Nat.lt_irrefl, if_false, if_true]
    congr 1
    apply propext
    omega
  · simp only [show ¬ n + i < p by omega, show ¬ n + i = p by omega, show ¬ i < p - n by omega,
      show ¬ i = p - n by omega, if_false]
    congr 1
    omega

/-- Behind place `o`, and behind all that was put in up to it, stand the bytes from `o` on, with
what was put in behind it. -/
theorem drop_withSemicolons {places : List Nat} (ascending : places.Pairwise (· ≤ ·))
    (bs : List UInt8) (o : Nat) :
    (withSemicolons places bs).drop (o + (places.filter (· ≤ o)).length) =
      withSemicolons ((places.filter (o < ·)).map (· - o)) (bs.drop o) := by
  induction ascending with
  | nil => rfl
  | @cons p ps first _ ih =>
    by_cases before : p ≤ o
    · rw [List.filter_cons_of_pos (by simpa using before),
        List.filter_cons_of_neg (by simpa using before), List.length_cons, ← Nat.add_assoc,
        withSemicolons_cons, drop_insertIdx_of_le (by omega), ih]
    · have none : ps.filter (· ≤ o) = [] := by
        rw [List.filter_eq_nil_iff]
        intro q mem
        have := first q mem
        simp only [decide_eq_true_eq]
        omega
      have all : ps.filter (o < ·) = ps := by
        rw [List.filter_eq_self]
        intro q mem
        have := first q mem
        simp only [decide_eq_true_eq]
        omega
      rw [none, all, List.length_nil, Nat.add_zero] at ih
      rw [List.filter_cons_of_neg (by simpa using before), none, List.length_nil, Nat.add_zero,
        List.filter_cons_of_pos (by simpa using before), all, withSemicolons_cons, List.map_cons,
        withSemicolons_cons, ← ih, drop_insertIdx_of_lt (by omega)]

/-! ### The bytes of a mended text -/

theorem insertIdx_append (as bs : List UInt8) (p : Nat) (b : UInt8) :
    (as ++ bs).insertIdx (p + as.length) b = as ++ bs.insertIdx p b := by
  induction as with
  | nil => rfl
  | cons a as ih =>
    rw [List.length_cons, ← Nat.add_assoc, List.cons_append, List.insertIdx_succ_cons, ih,
      List.cons_append]

theorem withSemicolons_append (places : List Nat) (as bs : List UInt8) :
    withSemicolons (places.map (· + as.length)) (as ++ bs) = as ++ withSemicolons places bs := by
  induction places with
  | nil => rfl
  | cons p ps ih =>
    rw [List.map_cons, withSemicolons_cons, ih, withSemicolons_cons, insertIdx_append]

theorem utf8EncodeChar_semicolon : String.utf8EncodeChar ';' = [';'.toUInt8] := by decide

/-- Behind the last character of a text nothing but semicolons is put in. -/
theorem bytes_semicolons (places : List Nat) :
    bytes (places.map fun _ => ';') = withSemicolons (places.map fun _ => 0) (bytes []) := by
  induction places with
  | nil => rfl
  | cons p ps ih =>
    rw [List.map_cons, List.map_cons, withSemicolons_cons, ← ih, bytes_cons,
      utf8EncodeChar_semicolon, List.insertIdx_zero, List.singleton_append]

/-- Mending puts its semicolons in at the places of the bytes. -/
theorem bytes_insertSemicolons {at_ : Nat} {places : List Nat} {s : List Char}
    (ascending : places.Pairwise (· ≤ ·))
    (inside : ∀ p ∈ places, at_ ≤ p ∧ isPlace (p - at_) s = true) :
    bytes (insertSemicolons at_ places s) = withSemicolons (places.map (· - at_)) (bytes s) := by
  fun_induction insertSemicolons at_ places s with
  | case1 at_ s => rfl
  | case2 at_ p ps =>
    have ends : (p :: ps).map (· - at_) = (p :: ps).map fun _ => 0 := by
      apply List.map_congr_left
      intro q mem
      obtain ⟨before, rest, split, same⟩ := isPlace_iff.1 (inside q mem).2
      obtain ⟨rfl, -⟩ := List.append_eq_nil_iff.1 split.symm
      exact same.symm
    rw [ends]
    exact bytes_semicolons (p :: ps)
  | case3 at_ p ps c s due ih =>
    obtain ⟨first, others⟩ := List.forall_mem_cons.1 inside
    have here : p - at_ = 0 := by omega
    rw [bytes_cons, utf8EncodeChar_semicolon, ih ascending.of_cons others, List.map_cons, here,
      withSemicolons_cons, List.insertIdx_zero, List.singleton_append]
  | case4 at_ p ps c s later ih =>
    have behind : ∀ q ∈ p :: ps, at_ + c.utf8Size ≤ q ∧ isPlace (q - (at_ + c.utf8Size)) s := by
      intro q mem
      have le : p ≤ q := by
        rcases List.mem_cons.1 mem with rfl | mem
        · exact Nat.le_refl _
        · exact (List.pairwise_cons.1 ascending).1 q mem
      obtain ⟨size, place⟩ := utf8Size_le_of_isPlace (inside q mem).2 (by omega)
      rw [Nat.sub_add_eq]
      exact ⟨by omega, place⟩
    have shift : (p :: ps).map (· - at_) =
        ((p :: ps).map (· - (at_ + c.utf8Size))).map (· + (String.utf8EncodeChar c).length) := by
      rw [List.map_map]
      apply List.map_congr_left
      intro q mem
      have := (behind q mem).1
      simp only [Function.comp_apply, String.length_utf8EncodeChar]
      omega
    rw [bytes_cons, bytes_cons, ih ascending behind, shift, withSemicolons_append]

/-! ### Where headers end -/

/-- A header ends between two characters of the text. -/
theorem isPlace_of_headerEnd? {text : List Char} {fault : Fault} {p : Nat}
    (found : headerEnd? text fault = some p) : isPlace p text = true := by
  unfold headerEnd? at found
  split at found
  · cases found
  · obtain ⟨before, taken, found⟩ := Option.bind_eq_some_iff.1 found
    obtain ⟨behind, split⟩ := exists_of_takeBytes? taken
    dsimp only at found
    split at found
    · -- the header stands between the last boundary and white space, and all of it before the fault
      obtain rfl := Option.some.inj found
      let front := before.rdropWhile fun c => c != '\x7b' && c != '\x7d' && c != ';'
      let rest := sinceBoundary before
      let tail := rest.rtakeWhile Text.isBlank
      have cut : before = front ++ rest := List.rdropWhile_append_rtakeWhile.symm
      have trimmed : rest = trimEnd rest ++ tail := List.rdropWhile_append_rtakeWhile.symm
      refine isPlace_iff.2 ⟨front ++ trimEnd rest, tail ++ behind, ?_, ?_⟩
      · rw [split, List.append_assoc, ← List.append_assoc (trimEnd rest), ← trimmed,
          ← List.append_assoc, ← cut]
      · have length : byteLength before = byteLength front + byteLength rest := by
          rw [← byteLength_append, ← cut]
        rw [byteLength_append, length, Nat.add_sub_cancel]
    · cases found

theorem isPlace_of_mem_headerEnds {text : List Char} {faults : List Fault} {p : Nat}
    (mem : p ∈ headerEnds text faults) : isPlace p text = true := by
  have sorted := (withoutRepeats_sublist _).subset mem
  obtain ⟨fault, -, found⟩ := List.mem_filterMap.1 (List.mem_mergeSort.1 sorted)
  exact isPlace_of_headerEnd? found

namespace Reading

/-- The source mended where the faults call for it, and the program that is then read. -/
def mended (text : List Char) (faults : List Fault) (program : Program) : Reading where
  text := insertSemicolons 0 (headerEnds text faults) text
  program := program
  inserted := headerEnds text faults

theorem exists_mended [Frontend] (source : String) :
    ∃ program, Reading.of source =
      mended source.toList (Frontend.parse source).faults program := by
  rw [Reading.of]
  split
  · rename_i none
    exact ⟨_, by rw [mended, none, insertSemicolons]⟩
  · exact ⟨_, rfl⟩

theorem strictMono_shifted (r : Reading) : StrictMono r.shifted := by
  intro a b lt
  have more : (r.inserted.filter (· ≤ a)).length ≤ (r.inserted.filter (· ≤ b)).length := by
    apply List.Sublist.length_le
    apply List.monotone_filter_right
    intro p before
    simp only [decide_eq_true_eq] at before ⊢
    omega
  unfold shifted
  omega

section
variable (text : List Char) (faults : List Fault) (program : Program)

theorem bytes_mended : bytes (mended text faults program).text =
    withSemicolons (headerEnds text faults) (bytes text) := by
  have put := @bytes_insertSemicolons 0 (headerEnds text faults) text
    (ascending_headerEnds text faults)
    fun p mem => ⟨Nat.zero_le p, isPlace_of_mem_headerEnds mem⟩
  simp only [Nat.sub_zero, List.map_id'] at put
  exact put

theorem length_bytes_mended : (bytes (mended text faults program).text).length =
    (bytes text).length + (headerEnds text faults).length := by
  rw [bytes_mended]
  apply length_withSemicolons
  intro p mem
  obtain ⟨before, rest, split, rfl⟩ := isPlace_iff.1 (isPlace_of_mem_headerEnds mem)
  rw [length_bytes, split, byteLength_append]
  exact Nat.le_add_right _ _

theorem drop_bytes_mended (o : Nat) :
    (bytes (mended text faults program).text).drop ((mended text faults program).shifted o) =
      withSemicolons (((headerEnds text faults).filter (o < ·)).map (· - o))
        ((bytes text).drop o) := by
  rw [bytes_mended]
  exact drop_withSemicolons (ascending_headerEnds text faults) (bytes text) o

/-- What is put in behind a place does not stand at it. -/
theorem getElem?_bytes_mended (o : Nat) :
    (bytes (mended text faults program).text)[(mended text faults program).shifted o]? =
      (bytes text)[o]? := by
  have behind : ∀ p ∈ ((headerEnds text faults).filter (o < ·)).map (· - o), 0 < p := by
    intro p mem
    obtain ⟨q, later, rfl⟩ := List.mem_map.1 mem
    have := (List.mem_filter.1 later).2
    simp only [decide_eq_true_eq] at this
    omega
  have same := head?_withSemicolons ((bytes text).drop o) behind
  rw [← drop_bytes_mended text faults program o] at same
  simpa using same

theorem shifted_le_mended {o : Nat} (inside : o ≤ (bytes text).length) :
    (mended text faults program).shifted o ≤ (bytes (mended text faults program).text).length := by
  have few : ((headerEnds text faults).filter (· ≤ o)).length ≤ (headerEnds text faults).length :=
    List.length_filter_le _ _
  have shifts : (mended text faults program).shifted o =
      o + ((headerEnds text faults).filter (· ≤ o)).length := rfl
  rw [length_bytes_mended]
  omega

end

/-- A source is read as mended, and mending is faithful to places. Headers end at ascending places
of the text, and mending puts one semicolon in at each; these taken out again, the bytes are those
of the text. Places keep their order, and behind the shifted place of any byte, which stands there
too, the mended text goes on as the text does, with the semicolons that are put in behind this
place. What was put in bounds how far a place is shifted, so an offset can tell it where one can
tell the length of the mended text. -/
theorem shifted_mended [Frontend] (source : String) (faults : List Fault) (program : Program) :
    let text := source.toList
    let places := headerEnds text faults
    let r := mended text faults program
    (∃ program, Reading.of source = mended text (Frontend.parse source).faults program) ∧
    (places.Pairwise (· < ·) ∧ ∀ p ∈ places, isPlace p text = true) ∧
    (bytes r.text = withSemicolons places (bytes text) ∧
      places.foldl List.eraseIdx (bytes r.text) = bytes text) ∧
    StrictMono r.shifted ∧
    ∀ o ≤ (bytes text).length,
      (bytes r.text).drop (r.shifted o) =
        withSemicolons ((places.filter (o < ·)).map (· - o)) ((bytes text).drop o) ∧
      (bytes r.text)[r.shifted o]? = (bytes text)[o]? ∧
      r.shifted o ≤ (bytes r.text).length ∧
      (bytes r.text).length = (bytes text).length + places.length ∧
      ((bytes text).length + places.length < offsetLimit → r.shifted o < offsetLimit) := by
  intro text places r
  have mends : bytes r.text = withSemicolons places (bytes text) := bytes_mended text faults program
  refine ⟨exists_mended source, ⟨pairwise_headerEnds text faults, ?_⟩, ⟨mends, ?_⟩,
    r.strictMono_shifted, fun o inside => ⟨?_, ?_, ?_, ?_, fun fits => ?_⟩⟩
  · exact fun p mem => isPlace_of_mem_headerEnds mem
  · rw [mends, eraseIdx_withSemicolons]
  · exact drop_bytes_mended text faults program o
  · exact getElem?_bytes_mended text faults program o
  · exact shifted_le_mended text faults program inside
  · exact length_bytes_mended text faults program
  · rw [← length_bytes_mended text faults program] at fits
    exact Nat.lt_of_le_of_lt (shifted_le_mended text faults program inside) fits

/-- Neither header is finished, and the first stands behind a character of two bytes. -/
def unfinishedTwice : String := "<?php class É{function f()}class B{function g()}"

set_option maxRecDepth 100000 in
theorem headerEnds_unfinishedTwice :
    headerEnds unfinishedTwice.toList (Program.parse unfinishedTwice).faults = [27, 48] := by
  cbv

/-- The byte behind the first header stands behind its semicolon, and the other semicolon is still
to come. -/
theorem shifted_mended_unfinishedTwice :
    let text := unfinishedTwice.toList
    let r := mended text (Program.parse unfinishedTwice).faults {}
    27 ≤ (bytes text).length ∧ r.shifted 27 = 28 ∧
    (bytes r.text).drop 28 = withSemicolons [21] ((bytes text).drop 27) ∧
    (bytes r.text)[28]? = (bytes text)[27]? := by
  intro text r
  have inside : 27 ≤ (bytes text).length := by decide
  have ends : headerEnds text (Program.parse unfinishedTwice).faults = [27, 48] :=
    headerEnds_unfinishedTwice
  have place : r.shifted 27 = 28 := by
    rw [shifted, show r.inserted = [27, 48] from ends]
    rfl
  obtain ⟨-, -, -, -, behind⟩ :=
    shifted_mended unfinishedTwice (Program.parse unfinishedTwice).faults {}
  obtain ⟨rest, same, -⟩ := behind 27 inside
  rw [ends] at rest
  exact ⟨inside, place, place ▸ rest, place ▸ same⟩

end Reading
end Php
end PhpSymbols
