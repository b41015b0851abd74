import PhpSymbols.Text.Bytes

/-!
# Characters and bytes

* `Text.StandsAt`: a character stands at a byte of a text;
* `byteAt?_of_standsAt`: where an ASCII character stands, the text has it as a byte;
* `isPlace_iff`: the places of a text are those where it can be cut in two;
* `infix_slice`: what is cut out is a stretch of the text;
* `all_slice_iff`: what is cut out between two places are the characters that stand there.
-/

namespace PhpSymbols

/-- A byte of the UTF-8 form of a text. -/
def byteAt? (source : String) (n : Nat) : Option UInt8 := source.toUTF8.data[n]?

namespace Text

/-- The character `c` stands at byte `n` of `s`. -/
def StandsAt (s : List Char) (n : Nat) (c : Char) : Prop :=
  ∃ before behind, s = before ++ c :: behind ∧ byteLength before = n

theorem length_utf8 (s : List Char) : (s.flatMap String.utf8EncodeChar).length = byteLength s := by
  induction s with
  | nil => rfl
  | cons c s ih =>
    rw [List.flatMap_cons, List.length_append, ih, String.length_utf8EncodeChar, byteLength_cons]

theorem byteAt?_of_standsAt {source : String} {n : Nat} {c : Char} (ascii : c.utf8Size = 1)
    (h : StandsAt source.toList n c) : byteAt? source n = some c.toUInt8 := by
  obtain ⟨before, behind, split, rfl⟩ := h
  have bytes : source.toUTF8.data.toList = before.flatMap String.utf8EncodeChar ++
      c.toUInt8 :: behind.flatMap String.utf8EncodeChar := by
    rw [String.toUTF8_eq_toByteArray, ← String.utf8Encode_toList, List.utf8Encode,
      List.data_toByteArray, split, List.flatMap_append, List.flatMap_cons,
      String.utf8EncodeChar_eq_singleton ascii]
    rfl
  rw [byteAt?, ← Array.getElem?_toList, bytes, ← length_utf8,
    List.getElem?_append_right (Nat.le_refl _), Nat.sub_self, List.getElem?_cons_zero]

/-! ### Cuts -/

theorem StandsAt.lt {s : List Char} {n : Nat} {c : Char} (h : StandsAt s n c) :
    n < byteLength s := by
  obtain ⟨before, behind, rfl, rfl⟩ := h
  have := c.utf8Size_pos
  simp only [byteLength_append, byteLength_cons]
  omega

theorem exists_standsAt_iff {s : List Char} {c : Char} : (∃ n, StandsAt s n c) ↔ c ∈ s := by
  constructor
  · rintro ⟨-, before, behind, rfl, -⟩
    simp
  · intro mem
    obtain ⟨before, behind, split⟩ := List.append_of_mem mem
    exact ⟨byteLength before, before, behind, split, rfl⟩

theorem standsAt_append_iff {s t : List Char} {n : Nat} {c : Char} :
    StandsAt (s ++ t) n c ↔ StandsAt s n c ∨ ∃ m, n = byteLength s + m ∧ StandsAt t m c := by
  constructor
  · rintro ⟨before, behind, split, rfl⟩
    rcases List.append_eq_append_iff.1 split with ⟨middle, rfl, rest⟩ | ⟨middle, rfl, rest⟩
    · exact .inr ⟨byteLength middle, byteLength_append .., middle, behind, rest, rfl⟩
    · cases middle with
      | nil => exact .inr ⟨0, by simp, [], behind, rest.symm, rfl⟩
      | cons d middle =>
        obtain ⟨rfl, rfl⟩ := List.cons.inj rest
        exact .inl ⟨before, middle, rfl, rfl⟩
  · rintro (⟨before, behind, rfl, rfl⟩ | ⟨m, rfl, before, behind, rfl, rfl⟩)
    · exact ⟨before, behind ++ t, by simp, rfl⟩
    · exact ⟨s ++ before, behind, by simp, byteLength_append ..⟩

/-- The bytes of a text are those of its first character and those of the rest. -/
theorem exists_byteLength_cons (c : Char) (s : List Char) :
    ∃ k, byteLength (c :: s) = k + 1 ∧ c.utf8Size ≤ k + 1 ∧
      k + 1 - c.utf8Size = byteLength s := by
  have := c.utf8Size_pos
  refine ⟨byteLength (c :: s) - 1, ?_, ?_, ?_⟩ <;> simp only [byteLength_cons] <;> omega

@[simp] theorem dropBytes?_zero (s : List Char) : dropBytes? 0 s = some s := by
  cases s <;> rfl

@[simp] theorem takeBytes?_zero (s : List Char) : takeBytes? 0 s = some [] := by
  cases s <;> rfl

theorem dropBytes?_append (s t : List Char) : dropBytes? (byteLength s) (s ++ t) = some t := by
  induction s with
  | nil => simp
  | cons c s ih =>
    obtain ⟨k, length, fits, left⟩ := exists_byteLength_cons c s
    rw [length, List.cons_append, dropBytes?, if_pos fits, left]
    exact ih

theorem takeBytes?_append (s t : List Char) : takeBytes? (byteLength s) (s ++ t) = some s := by
  induction s with
  | nil => simp
  | cons c s ih =>
    obtain ⟨k, length, fits, left⟩ := exists_byteLength_cons c s
    rw [length, List.cons_append, takeBytes?, if_pos fits, left, ih]
    rfl

/-- The places of a text are those where it can be cut in two. -/
theorem isPlace_iff {n : Nat} {s : List Char} :
    isPlace n s = true ↔ ∃ before behind, s = before ++ behind ∧ byteLength before = n := by
  constructor
  · intro place
    fun_induction dropBytes? n s with
    | case1 s => exact ⟨[], s, rfl, rfl⟩
    | case2 n => simp [isPlace, dropBytes?] at place
    | case3 n c s fits ih =>
      rw [isPlace, dropBytes?, if_pos fits] at place
      obtain ⟨before, behind, rfl, length⟩ := ih place
      refine ⟨c :: before, behind, rfl, ?_⟩
      rw [byteLength_cons]
      omega
    | case4 n c s long => simp [isPlace, dropBytes?, long] at place
  · rintro ⟨before, behind, rfl, rfl⟩
    rw [isPlace, dropBytes?_append]
    rfl

theorem exists_of_takeBytes? {n : Nat} {s before : List Char}
    (taken : takeBytes? n s = some before) : ∃ rest, s = before ++ rest := by
  fun_induction takeBytes? n s generalizing before with
  | case1 s =>
    obtain rfl := Option.some.inj taken
    exact ⟨s, rfl⟩
  | case2 => simp at taken
  | case3 n c s _ ih =>
    obtain ⟨front, inner, rfl⟩ := Option.map_eq_some_iff.1 taken
    obtain ⟨rest, rfl⟩ := ih inner
    exact ⟨rest, rfl⟩
  | case4 => simp at taken

theorem exists_of_dropBytes? {n : Nat} {s behind : List Char}
    (dropped : dropBytes? n s = some behind) : ∃ before, s = before ++ behind := by
  fun_induction dropBytes? n s with
  | case1 s =>
    obtain rfl := Option.some.inj dropped
    exact ⟨[], rfl⟩
  | case2 => simp at dropped
  | case3 n c s _ ih =>
    obtain ⟨before, rfl⟩ := ih dropped
    exact ⟨c :: before, rfl⟩
  | case4 => simp at dropped

/-- What is cut out is a stretch of the text. -/
theorem infix_slice (start stop : Nat) (s : List Char) : slice start stop s <:+: s := by
  unfold slice
  split
  · cases cut : (dropBytes? start s).bind (takeBytes? (stop - start)) with
    | none => exact List.nil_infix
    | some inside =>
      obtain ⟨rest, dropped, taken⟩ := Option.bind_eq_some_iff.1 cut
      obtain ⟨before, rfl⟩ := exists_of_dropBytes? dropped
      obtain ⟨behind, rfl⟩ := exists_of_takeBytes? taken
      exact ⟨before, behind, by simp⟩
  · exact List.nil_infix

theorem slice_append (s t rest : List Char) :
    slice (byteLength s) (byteLength s + byteLength t) (s ++ (t ++ rest)) = t := by
  rw [slice, if_pos (by omega), dropBytes?_append, Nat.add_sub_cancel_left]
  simp [takeBytes?_append]

/-- What is cut out between two places are the characters that stand there. -/
theorem all_slice_iff {lo hi : Nat} {s : List Char} (start : isPlace lo s = true)
    (stop : isPlace hi s = true) (p : Char → Bool) :
    (slice lo hi s).all p = true ↔
      ∀ n c, StandsAt s n c → lo ≤ n → n < hi → p c = true := by
  by_cases ordered : lo ≤ hi
  · obtain ⟨a, rest, rfl, rfl⟩ := isPlace_iff.1 start
    obtain ⟨b, last, split, rfl⟩ := isPlace_iff.1 stop
    obtain ⟨t, rfl, rfl⟩ : ∃ t, b = a ++ t ∧ rest = t ++ last := by
      rcases List.append_eq_append_iff.1 split with ⟨t, rfl, rfl⟩ | ⟨t, rfl, rfl⟩
      · exact ⟨t, rfl, rfl⟩
      · -- the text up to the later place is no shorter than that up to the earlier one
        cases t with
        | nil => exact ⟨[], by simp⟩
        | cons c t =>
          have := c.utf8Size_pos
          simp only [byteLength_append, byteLength_cons] at ordered
          omega
    rw [byteLength_append, slice_append, List.all_eq_true]
    constructor
    · intro all n c stands behind before
      rcases standsAt_append_iff.1 stands with front | ⟨m, rfl, inner⟩
      · have := front.lt
        omega
      · rcases standsAt_append_iff.1 inner with middle | ⟨k, rfl, -⟩
        · exact all c (exists_standsAt_iff.1 ⟨m, middle⟩)
        · omega
    · intro all c mem
      obtain ⟨m, middle⟩ := exists_standsAt_iff.2 mem
      have := middle.lt
      refine all (byteLength a + m) c ?_ (by omega) (by omega)
      exact standsAt_append_iff.2 (.inr ⟨m, rfl, standsAt_append_iff.2 (.inl middle)⟩)
  · rw [slice, if_neg ordered]
    simp only [List.all_nil, true_iff]
    intro n c _ _ _
    omega

end Text
end PhpSymbols
