import PhpSymbols.Proofs.Ty.Reading
import PhpSymbols.Proofs.Ty.Splitting
import PhpSymbols.Proofs.Ty.Union

/-!
# The written form of types

* `isWritten`: the characters of written types, none of them trimmed or cleaned away;
* `tokens`, `chars_eq_intercalate`: a written type is its tokens with bars between them;
* `printed_chars`, `solid_chars`: what a written type starts and ends with, and where a
  split leaves it in one piece.
-/

namespace PhpSymbols.Ty
open Expression Text

/-! ### Characters -/

/-- The characters of names. -/
def isWordChar (c : Char) : Bool := c = '\\' ∨ c = '_' ∨ c = '-' ∨ isAlphanumeric c = true

def isWritten (c : Char) : Bool :=
  isWordChar c ∨ c = '(' ∨ c = ')' ∨ c = '[' ∨ c = ']' ∨ c = '?' ∨ c = '|'

def blankCodes : List Nat :=
  [9, 10, 11, 12, 13, 0x20, 0x85, 0xA0, 0x1680, 0x2000, 0x2001, 0x2002, 0x2003, 0x2004, 0x2005,
    0x2006, 0x2007, 0x2008, 0x2009, 0x200A, 0x2028, 0x2029, 0x202F, 0x205F, 0x3000]

theorem mem_blankCodes {c : Char} (h : isBlank c = true) : c.toNat ∈ blankCodes := by
  simp only [isBlank, Bool.or_eq_true, Bool.and_eq_true, decide_eq_true_eq, beq_iff_eq] at h
  simp only [blankCodes, List.mem_cons, List.not_mem_nil, or_false]
  omega

theorem not_isBlank_of_isWritten {c : Char} (h : isWritten c = true) : isBlank c = false := by
  have codes : ∀ n ∈ blankCodes, isWritten (Char.ofNat n) = false := by decide +kernel
  by_contra blank
  have written := codes c.toNat (mem_blankCodes (Bool.not_eq_false _ ▸ blank))
  rw [Char.ofNat_toNat, h] at written
  cases written

theorem isBracket_of_isWordChar {c : Char} (h : isWordChar c = true) : isBracket c = false := by
  by_contra bracket
  simp only [isBracket, decide_eq_true_eq, Bool.not_eq_false] at bracket
  rcases bracket with rfl | rfl | rfl | rfl | rfl | rfl | rfl | rfl <;> revert h <;> decide

/-- A name as it stands in a written type. -/
structure IsWord (s : List Char) : Prop where
  chars : ∀ c ∈ s, isWordChar c = true
  nonempty : s ≠ []
  complete : s.head? ≠ some '\\'

theorem isAlphanumeric_of_isNameSegment {s : List Char} (h : isNameSegment s = true) :
    ∀ c ∈ s, c = '_' ∨ isAlphanumeric c = true := by
  cases s with
  | nil => exact fun _ hc => absurd hc List.not_mem_nil
  | cons first rest =>
    simp only [isNameSegment, Bool.and_eq_true, List.all_eq_true, Bool.or_eq_true,
      beq_iff_eq] at h
    intro c hc
    rcases List.mem_cons.1 hc with rfl | hc
    · exact h.1.imp_right isAlphanumeric_of_isAlphabetic
    · exact h.2 c hc

theorem eq_or_mem_splitOn {s : List Char} {c d : Char} (h : d ∈ s) :
    d = c ∨ ∃ part ∈ s.splitOn c, d ∈ part := by
  induction s with
  | nil => cases h
  | cons e s ih =>
    rw [List.splitOn_cons_eq_if_modifyHead]
    cases parts : s.splitOn c with
    | nil => exact absurd parts (List.splitOn_ne_nil c s)
    | cons first rest =>
      rw [parts] at ih
      by_cases same : e = c
      · subst same
        rcases List.mem_cons.1 h with rfl | h
        · exact .inl rfl
        · obtain rfl | ⟨part, hp, hd⟩ := ih h
          · exact .inl rfl
          · exact .inr ⟨part, by simpa using .inr (List.mem_cons.1 hp), hd⟩
      · simp only [beq_iff_eq, same, if_false, List.modifyHead_cons]
        rcases List.mem_cons.1 h with rfl | h
        · exact .inr ⟨_, List.mem_cons_self, List.mem_cons_self⟩
        · obtain rfl | ⟨part, hp, hd⟩ := ih h
          · exact .inl rfl
          · rcases List.mem_cons.1 hp with rfl | hp
            · exact .inr ⟨_, List.mem_cons_self, List.mem_cons_of_mem e hd⟩
            · exact .inr ⟨part, List.mem_cons_of_mem _ hp, hd⟩

theorem IsClassPath.isAlphanumeric {n : String} (h : IsClassPath n) :
    ∀ c ∈ n.toList, c = '\\' ∨ c = '_' ∨ isAlphanumeric c = true := by
  have segments := List.all_eq_true.1 (isClassPath_iff.1 h)
  intro c hc
  rcases eq_or_mem_splitOn (c := '\\') hc with rfl | ⟨segment, member, hc⟩
  · exact .inl rfl
  · exact .inr (isAlphanumeric_of_isNameSegment (segments segment member) c hc)

theorem IsClassPath.isWord {n : String} (h : IsClassPath n) : IsWord n.toList := by
  refine ⟨fun c hc => ?_, fun empty => ?_, h.2⟩
  · rw [isWordChar, decide_eq_true_eq]
    exact (h.isAlphanumeric c hc).imp_right (.imp_right .inr)
  · have segments := List.all_eq_true.1 (isClassPath_iff.1 h)
    rw [empty] at segments
    exact absurd (segments [] List.mem_cons_self) Bool.false_ne_true

theorem isWord_scalar {n : String} (h : n ∈ scalarNames) : IsWord n.toList := by
  have names : ∀ n ∈ scalarNames, (n.toList.all isWordChar && n.toList != [] &&
      n.toList.head? != some '\\') = true := by decide +kernel
  have word := names n h
  simp only [Bool.and_eq_true, List.all_eq_true, bne_iff_ne] at word
  exact ⟨word.1.1, word.1.2, word.2⟩

/-! ### Cleaning -/

theorem trimEndWhile_of_none {p : Char → Bool} {s : List Char} (none : ∀ c ∈ s, p c = false) :
    trimEndWhile p s = s := by
  have kept : s.reverse.dropWhile p = s.reverse := by
    cases h : s.reverse with
    | nil => rfl
    | cons c rest =>
      have last : c ∈ s := List.mem_reverse.1 (h ▸ List.mem_cons_self)
      exact List.dropWhile_cons_of_neg (by simp [none c last])
  rw [trimEndWhile, kept, List.reverse_reverse]

theorem trim_of_written {s : List Char} (written : ∀ c ∈ s, isWritten c = true) :
    trim s = s := by
  have dark : ∀ c ∈ s, isBlank c = false := fun c hc => not_isBlank_of_isWritten (written c hc)
  have start : trimStart s = s := by
    cases s with
    | nil => rfl
    | cons c rest =>
      exact List.dropWhile_cons_of_neg (by simp [dark c List.mem_cons_self])
  rw [trim, start]
  exact trimEndWhile_of_none dark

theorem clean_of_written {s : List Char} (written : ∀ c ∈ s, isWritten c = true)
    (complete : s.head? ≠ some '\\') : clean s = s := by
  rw [clean, trim_of_written written, stripFirst_of_head?_ne complete]
  apply trimEndWhile_of_none
  intro c hc
  by_contra ends
  simp only [Bool.not_eq_false, Bool.or_eq_true, beq_iff_eq] at ends
  have := written c hc
  rcases ends with rfl | rfl <;> revert this <;> decide

/-- What may stand for a type on its own, before a suffix or behind a question mark. -/
structure IsPrinted (s : List Char) : Prop where
  written : ∀ c ∈ s, isWritten c = true
  nonempty : s ≠ []
  complete : s.head? ≠ some '\\'
  last : s.getLast? ≠ some ')'

theorem IsPrinted.append {s t : List Char} (hs : IsPrinted s)
    (written : ∀ c ∈ t, isWritten c = true) (last : t.getLast? ≠ some ')') :
    IsPrinted (s ++ t) := by
  refine ⟨?_, fun h => hs.nonempty (List.append_eq_nil_iff.1 h).1, ?_, ?_⟩
  · intro c hc
    exact (List.mem_append.1 hc).elim (hs.written c) (written c)
  · cases s with
    | nil => exact absurd rfl hs.nonempty
    | cons c s => exact hs.complete
  · rw [List.getLast?_append]
    cases found : t.getLast? with
    | none => exact hs.last
    | some c =>
      rw [found] at last
      exact last

theorem IsPrinted.cons {s : List Char} {c : Char} (hs : IsPrinted s)
    (written : isWritten c = true) (complete : c ≠ '\\') : IsPrinted (c :: s) := by
  refine ⟨?_, List.cons_ne_nil c s, fun h => complete (Option.some.inj h), ?_⟩
  · exact List.forall_mem_cons.2 ⟨written, hs.written⟩
  · rw [List.getLast?_cons_of_ne_nil hs.nonempty]
    exact hs.last

theorem IsWord.isPrinted {s : List Char} (h : IsWord s) : IsPrinted s := by
  have written : ∀ c ∈ s, isWritten c = true := by
    intro c hc
    simp only [isWritten, decide_eq_true_eq]
    exact .inl (h.chars c hc)
  refine ⟨written, h.nonempty, h.complete, fun last => ?_⟩
  exact absurd (h.chars ')' (List.mem_of_getLast? last)) (by decide)

theorem isPrinted_intercalate {parts : List (List Char)} (some : parts ≠ [])
    (printed : ∀ s ∈ parts, IsPrinted s) : IsPrinted (['|'].intercalate parts) := by
  induction parts with
  | nil => exact absurd rfl some
  | cons s parts ih =>
    have hs := printed s List.mem_cons_self
    cases parts with
    | nil =>
      rw [List.intercalate_singleton]
      exact hs
    | cons t parts =>
      have rest := ih (List.cons_ne_nil t parts) fun u hu => printed u (List.mem_cons_of_mem s hu)
      rw [List.intercalate_cons_cons, List.append_assoc, List.singleton_append]
      have barred := rest.cons (c := '|') (by decide) (by decide)
      exact hs.append barred.written barred.last

/-! ### Equations -/

theorem chars_scalar (n : String) : (scalar n).chars = n.toList := by rw [chars.eq_def]

theorem chars_classRef (n : String) : (classRef n).chars = n.toList := by rw [chars.eq_def]

theorem chars_mixed : mixed.chars = "mixed".toList := by rw [chars.eq_def]

theorem chars_arrayOf {t : Ty} (leaf : t.IsLeaf) :
    (arrayOf t).chars = t.chars ++ "[]".toList := by
  cases t <;> first | exact leaf.elim | rw [chars.eq_def]

theorem chars_arrayOf_group {t : Ty} (group : ¬ t.IsLeaf) :
    (arrayOf t).chars = ('(' :: t.chars ++ [')']) ++ "[]".toList := by
  have suffix : ")[]".toList = [')'] ++ "[]".toList := by decide
  cases t with
  | union | nullable => rw [chars.eq_def, List.append_assoc, ← suffix]
  | _ => exact absurd trivial group

theorem charsList_eq_intercalate (ts : List Ty) :
    charsList ts = ['|'].intercalate (ts.map chars) := by
  induction ts with
  | nil => rfl
  | cons t ts ih =>
    cases ts with
    | nil => simp [charsList]
    | cons u ts => simp [charsList, ih, List.intercalate_cons_cons]

theorem chars_union (ts : List Ty) : (union ts).chars = ['|'].intercalate (ts.map chars) := by
  rw [chars.eq_def]
  exact charsList_eq_intercalate ts

theorem intercalate_concat {c : Char} {parts : List (List Char)} (some : parts ≠ [])
    (s : List Char) : [c].intercalate (parts ++ [s]) = [c].intercalate parts ++ c :: s := by
  induction parts with
  | nil => exact absurd rfl some
  | cons t parts ih =>
    cases parts with
    | nil => simp [List.intercalate_cons_cons]
    | cons u parts =>
      simpa [List.intercalate_cons_cons] using ih (List.cons_ne_nil u parts)

theorem chars_nullable {t : Ty} (leaf : t.IsLeaf) : (nullable t).chars = '?' :: t.chars := by
  cases t <;> first | exact leaf.elim | rw [chars.eq_def]

theorem chars_nullable_union (ts : List Ty) :
    (nullable (union ts)).chars = (union ts).chars ++ '|' :: null.chars := by
  have bar : "|null".toList = '|' :: null.chars := by
    rw [null, chars_scalar]
    decide
  rw [chars.eq_def, ← bar]

/-! ### Tokens -/

/-- The tokens that the written form of a type consists of. -/
def tokens : Ty → List Ty
  | .union ts => ts
  | .nullable (.union ts) => ts ++ [null]
  | t => [t]

variable {P : String → Prop}

theorem LacksNull.union_or_isLeaf {t : Ty} (lacks : t.LacksNull) :
    (∃ ts, t = .union ts) ∨ t.IsLeaf := by
  cases t with
  | union ts => exact .inl ⟨ts, rfl⟩
  | nullable => exact lacks.elim
  | _ => exact .inr trivial

theorem tokens_of_isLeaf {t : Ty} (leaf : t.IsLeaf) : t.tokens = [t] := by
  cases t with
  | union | nullable => exact leaf.elim
  | _ => rfl

theorem tokens_nullable {t : Ty} (leaf : t.IsLeaf) : (nullable t).tokens = [nullable t] := by
  cases t with
  | union => exact leaf.elim
  | _ => rfl

/-- A written type is its tokens with a bar between any two. -/
theorem chars_eq_intercalate {t : Ty} (h : t.Known P) :
    t.chars = ['|'].intercalate (t.tokens.map chars) := by
  have single (one : t.tokens = [t]) : t.chars = ['|'].intercalate (t.tokens.map chars) := by
    rw [one, List.map_singleton, List.intercalate_singleton]
  cases h with
  | union => exact chars_union _
  | nullable lacks ht =>
    rcases lacks.union_or_isLeaf with ⟨ts, rfl⟩ | leaf
    · cases ht with
      | union two =>
        have some : ts.map chars ≠ [] := List.ne_nil_of_length_pos (by simp; omega)
        rw [chars_nullable_union, chars_union, tokens, List.map_append, List.map_singleton,
          intercalate_concat some]
    · exact single (tokens_nullable leaf)
  | scalar | classRef | arrayOf | mixed => exact single rfl

/-- The tokens of a known type are known and themselves single tokens. -/
theorem Known.token {t : Ty} (h : t.Known P) : ∀ u ∈ t.tokens, u.Known P ∧ u.tokens = [u] := by
  have single (one : t.tokens = [t]) : ∀ u ∈ t.tokens, u.Known P ∧ u.tokens = [u] := by
    intro u hu
    rw [one] at hu
    obtain rfl := List.mem_singleton.1 hu
    exact ⟨h, one⟩
  cases h with
  | union _ _ alternatives known =>
    exact fun u hu => ⟨known u hu, tokens_of_isLeaf (alternatives u hu).isLeaf⟩
  | nullable lacks ht =>
    rcases lacks.union_or_isLeaf with ⟨ts, rfl⟩ | leaf
    · cases ht with
      | union _ _ alternatives known =>
        intro u hu
        rcases List.mem_append.1 hu with hu | hu
        · exact ⟨known u hu, tokens_of_isLeaf (alternatives u hu).isLeaf⟩
        · obtain rfl := List.mem_singleton.1 hu
          exact ⟨known_null, rfl⟩
    · exact single (tokens_nullable leaf)
  | scalar | classRef | arrayOf | mixed => exact single rfl

theorem isWord_mixed : IsWord "mixed".toList :=
  ⟨List.all_eq_true.1 (by decide), by decide, by decide⟩

theorem isPrinted_bar_null : IsPrinted ('|' :: null.chars) := by
  rw [null, chars_scalar]
  exact (isWord_scalar (by decide)).isPrinted.cons (by decide) (by decide)

theorem written_suffix : ∀ c ∈ "[]".toList, isWritten c = true :=
  List.all_eq_true.1 (by decide)

theorem printed_chars {t : Ty} (h : t.Known IsClassPath) : IsPrinted t.chars := by
  induction h with
  | scalar hn => exact chars_scalar _ ▸ (isWord_scalar hn).isPrinted
  | classRef hn => exact chars_classRef _ ▸ hn.isWord.isPrinted
  | mixed => exact chars_mixed ▸ isWord_mixed.isPrinted
  | @arrayOf t _ ih =>
    by_cases leaf : t.IsLeaf
    · rw [chars_arrayOf leaf]
      exact ih.append written_suffix (by decide)
    · rw [chars_arrayOf_group leaf, List.append_assoc]
      exact (ih.cons (by decide) (by decide)).append
        (List.forall_mem_cons.2 ⟨by decide, written_suffix⟩) (by decide)
  | union two _ _ _ ih =>
    rw [chars_union]
    apply isPrinted_intercalate (List.ne_nil_of_length_pos (by simp; omega))
    intro s hs
    obtain ⟨t, ht, rfl⟩ := List.mem_map.1 hs
    exact ih t ht
  | nullable lacks _ ih =>
    rcases lacks.union_or_isLeaf with ⟨ts, rfl⟩ | leaf
    · rw [chars_nullable_union]
      exact ih.append isPrinted_bar_null.written isPrinted_bar_null.last
    · rw [chars_nullable leaf]
      exact ih.cons (by decide) (by decide)

/-! ### Splitting -/

theorem IsWord.solid {s : List Char} (h : IsWord s) {depth : Int} : Solid '|' depth s := by
  apply solid_of_plain
  · exact fun c hc => isBracket_of_isWordChar (h.chars c hc)
  · rintro c hc rfl
    exact absurd (h.chars '|' hc) (by decide)

theorem solid_suffix {depth : Int} (deep : 0 ≤ depth) : Solid '|' depth "[]".toList := by
  have opens : depthAfter '[' depth = depth + 1 := by simp [depthAfter]
  have closes : depthAfter ']' (depth + 1) = depth := by simp [depthAfter]
  exact solid_nil.enclosed deep opens closes (by decide)

theorem solid_group {s : List Char} {depth : Int} (deep : 0 ≤ depth)
    (hs : Solid '|' (depth + 1) s) : Solid '|' depth ('(' :: s ++ [')']) := by
  have opens : depthAfter '(' depth = depth + 1 := by simp [depthAfter]
  have closes : depthAfter ')' (depth + 1) = depth := by simp [depthAfter]
  exact hs.enclosed deep opens closes (by decide)

/-- Neither a single token nor anything inside brackets is split. -/
theorem solid_chars {t : Ty} (h : t.Known IsClassPath) : ∀ depth : Int, 0 ≤ depth →
    (depth = 0 → t.tokens = [t]) → Solid '|' depth t.chars := by
  induction h with
  | scalar hn => exact fun _ _ _ => chars_scalar _ ▸ (isWord_scalar hn).solid
  | classRef hn => exact fun _ _ _ => chars_classRef _ ▸ hn.isWord.solid
  | mixed => exact fun _ _ _ => chars_mixed ▸ isWord_mixed.solid
  | @arrayOf t _ ih =>
    intro depth deep _
    by_cases leaf : t.IsLeaf
    · rw [chars_arrayOf leaf]
      exact (ih depth deep fun _ => tokens_of_isLeaf leaf).append (solid_suffix deep)
    · rw [chars_arrayOf_group leaf]
      have inner := ih (depth + 1) (by omega) (by omega)
      exact (solid_group deep inner).append (solid_suffix deep)
  | @union ts two _ alternatives _ ih =>
    intro depth deep single
    have inside : depth ≠ 0 := by
      intro zero
      have one := congrArg List.length (single zero)
      rw [tokens, List.length_singleton] at one
      omega
    rw [chars_union]
    refine solid_intercalate (by decide) inside fun s hs => ?_
    obtain ⟨t, ht, rfl⟩ := List.mem_map.1 hs
    exact ih t ht depth deep fun zero => absurd zero inside
  | @nullable t lacks ht ih =>
    intro depth deep single
    rcases lacks.union_or_isLeaf with ⟨ts, rfl⟩ | leaf
    · have inside : depth ≠ 0 := by
        intro zero
        have one := congrArg List.length (single zero)
        rw [tokens, List.length_append, List.length_singleton, List.length_singleton] at one
        cases ht with
        | union two => omega
      have bar : Solid '|' depth ['|'] := solid_singleton (by decide) fun _ => inside
      have nullWord : Solid '|' depth null.chars :=
        chars_scalar _ ▸ (isWord_scalar (by decide)).solid
      rw [chars_nullable_union]
      exact (ih depth deep fun zero => absurd zero inside).append (bar.append nullWord)
    · rw [chars_nullable leaf]
      have mark : Solid '|' depth ['?'] :=
        solid_singleton (by decide) fun h => absurd h (by decide)
      exact mark.append (ih depth deep fun _ => tokens_of_isLeaf leaf)

end PhpSymbols.Ty
