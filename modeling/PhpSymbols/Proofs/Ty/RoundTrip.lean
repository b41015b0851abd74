import Mathlib.Data.List.TakeWhile
import PhpSymbols.Proofs.Text.Trimmed
import PhpSymbols.Proofs.Ty.Printing

/-!
# Reading written types

* `join_tokens`: the union of the tokens of a union is that union;
* `not_isReserved_iff`: the names that are read past `mixed` and all built-ins;
* `resolveToken_of_group`, `resolveToken_of_question`, `resolveToken_of_suffix`,
  `resolveToken_of_base`: reading each form of a token;
* `resolveToken_chars`: every token of a written type reads as itself;
* `resolve_text`: reading undoes writing.
-/

namespace PhpSymbols.Ty
open Expression Text

/-- Read as a built-in or as `mixed`, whatever the letter case. -/
def IsReserved (n : String) : Prop :=
  sameIgnoringCase n "mixed" = true ∨
    ∃ spelling ∈ scalarSpellings, sameIgnoringCase n spelling.1 = true

instance (n : String) : Decidable (IsReserved n) := inferInstanceAs (Decidable (_ ∨ _))

theorem lower_spelling : ∀ spelling ∈ scalarSpellings,
    Text.lower spelling.1.toList = spelling.1.toList := by
  decide

theorem scalarOfSpelling?_eq_none_iff {n : String} :
    scalarOfSpelling? n.toList = none ↔
      ∀ spelling ∈ scalarSpellings, ¬ sameIgnoringCase n spelling.1 = true := by
  rw [scalarOfSpelling?, Option.map_eq_none_iff, List.lookup_eq_none_iff]
  refine forall₂_congr fun spelling mem => ?_
  rw [bne_iff_ne, sameIgnoringCase, lower_spelling spelling mem, beq_iff_eq, Ne,
    ← String.toList_inj, String.toList_ofList]

/-- A name is reserved unless it is read past `mixed` and all built-ins. -/
theorem not_isReserved_iff {n : String} :
    ¬ IsReserved n ↔ Text.lower n.toList ≠ "mixed".toList ∧ scalarOfSpelling? n.toList = none := by
  have mixed : sameIgnoringCase n "mixed" = true ↔ Text.lower n.toList = "mixed".toList := by
    rw [sameIgnoringCase, beq_iff_eq]
    exact Iff.rfl
  simp only [IsReserved, not_or, mixed, scalarOfSpelling?_eq_none_iff, not_exists, not_and, Ne]

/-- The class names that can be written: all but those that are read as something else. -/
def IsWritable (n : String) : Prop := IsClassPath n ∧ ¬ IsReserved n

variable {P Q : String → Prop}

theorem Known.mono (implies : ∀ n, P n → Q n) {t : Ty} (h : t.Known P) : t.Known Q := by
  induction h with
  | scalar hn => exact .scalar hn
  | classRef hn => exact .classRef (implies _ hn)
  | arrayOf _ ih => exact .arrayOf ih
  | union two distinct alternatives _ ih => exact .union two distinct alternatives ih
  | nullable lacks _ ih => exact .nullable lacks ih
  | mixed => exact .mixed

/-! ### Unions -/

/-- A type of several tokens is their union. -/
theorem Known.join_tokens {t : Ty} (h : t.Known P) (several : t.tokens ≠ [t]) :
    2 ≤ t.tokens.length ∧ join t.tokens = t := by
  cases h with
  | union two distinct alternatives _ => exact ⟨two, join_union two distinct alternatives⟩
  | nullable lacks ht =>
    rcases lacks.union_or_isLeaf with ⟨ts, rfl⟩ | leaf
    · cases ht with
      | union two distinct alternatives _ =>
        exact ⟨by simp [tokens]; omega, join_union_null two distinct alternatives⟩
    · exact absurd (tokens_nullable leaf) several
  | scalar | classRef | arrayOf | mixed => exact absurd rfl several

end PhpSymbols.Ty

namespace PhpSymbols.Resolver
open Ty Ty.Expression

variable (r : Resolver)

/-! ### Forms of tokens -/

theorem between?_of_last {l c : Char} {s : List Char} (last : s.getLast? ≠ some c) :
    between? l c s = none := by
  cases s with
  | nil => rfl
  | cons d s =>
    rw [between?]
    split
    · apply if_neg
      cases s with
      | nil => simp
      | cons e s => simpa using last
    · rfl

theorem between?_eq_some_iff {l c : Char} {s inner : List Char} :
    between? l c s = some inner ↔ s = l :: inner ++ [c] := by
  cases s with
  | nil => simp [between?]
  | cons d s =>
    rw [between?, Text.beforeLast?, List.cons_append, List.cons.injEq]
    split
    · rename_i same
      rw [and_iff_right same]
      constructor
      · intro h
        split at h
        · rename_i last
          obtain ⟨front, rfl⟩ := List.getLast?_eq_some_iff.1 last
          rw [← Option.some.inj h, List.dropLast_concat]
        · cases h
      · rintro rfl
        rw [if_pos List.getLast?_concat, List.dropLast_concat]
    · rename_i other
      simp [other]

theorem between?_enclosed (l c : Char) (s : List Char) :
    between? l c (l :: s ++ [c]) = some s :=
  between?_eq_some_iff.2 rfl

variable {raw : List Char}

theorem resolveToken_of_group {inner : List Char} (cleaned : clean raw = '(' :: inner ++ [')']) :
    r.resolveToken raw = known? (r.resolve inner) := by
  have group := between?_enclosed '(' ')' inner
  rw [List.cons_append] at cleaned group
  rw [resolveToken_eq, cleaned]
  simp only [group]

theorem resolveToken_of_question {rest : List Char} (cleaned : clean raw = '?' :: rest) :
    r.resolveToken raw = (r.resolveToken rest).map orNull := by
  rw [resolveToken_eq, cleaned]
  rfl

theorem resolveToken_of_suffix {element : List Char}
    (cleaned : clean raw = element ++ "[]".toList) (noMark : element.head? ≠ some '?') :
    r.resolveToken raw = (r.resolveToken element).map arrayOf := by
  have noGroup : between? '(' ')' (element ++ "[]".toList) = none := by
    apply between?_of_last
    rw [List.getLast?_append]
    exact (by decide : some ']' ≠ some ')')
  have suffix : Text.ahead? "[]".toList (element ++ "[]".toList) = some element :=
    Text.ahead?_eq_some_iff.2 rfl
  rw [resolveToken_eq, cleaned]
  cases element with
  | nil => rfl
  | cons c rest =>
    have notMark : c ≠ '?' := fun h => noMark (congrArg some h)
    rw [List.cons_append] at noGroup suffix ⊢
    simp only [noGroup, if_neg notMark, suffix]

/-- A name is read together with the bracket that opens behind it. -/
theorem resolveToken_of_base {base opened : List Char} (cleaned : clean raw = base ++ opened)
    (some : base ++ opened ≠ []) (word : ∀ c ∈ base, isWordChar c = true)
    (opens : ∀ c ∈ opened.head?, opensArguments c = true)
    (last : ∀ c ∈ (base ++ opened).getLast?, c ≠ ')' ∧ c ≠ ']') :
    r.resolveToken raw = r.readBase base opened := by
  have noGroup : between? '(' ')' (base ++ opened) = none :=
    between?_of_last fun closed => (last ')' closed).1 rfl
  have noMark : ∀ c rest, base ++ opened = c :: rest → c ≠ '?' := by
    rintro c rest first rfl
    cases base with
    | nil => exact absurd (opens '?' (congrArg List.head? first)) (by decide)
    | cons c base =>
      obtain rfl : c = '?' := (List.cons.inj first).1
      exact absurd (word '?' List.mem_cons_self) (by decide)
  have noSuffix : Text.ahead? "[]".toList (base ++ opened) = none := by
    by_contra h
    obtain ⟨element, found⟩ := Option.ne_none_iff_exists'.1 h
    apply (last ']' _).2 rfl
    rw [Text.ahead?_eq_some_iff.1 found, List.getLast?_append]
    rfl
  have broken : Text.breakOn opensArguments (base ++ opened) = (base, opened) := by
    refine Text.breakOn_append (fun c hc => ?_) opens
    by_contra h
    simp only [opensArguments, Bool.not_eq_false, Bool.or_eq_true, beq_iff_eq] at h
    have := word c hc
    rcases h with (rfl | rfl) | rfl <;> revert this <;> decide
  rw [resolveToken_eq, cleaned]
  cases whole : base ++ opened with
  | nil => exact absurd whole some
  | cons c rest =>
    rw [whole] at noGroup noSuffix broken
    simp only [noGroup, if_neg (noMark c rest whole), noSuffix, broken]

theorem resolveToken_of_name (some : clean raw ≠ [])
    (word : ∀ c ∈ clean raw, isWordChar c = true) : r.resolveToken raw = readName (clean raw) := by
  have cleaned : clean raw = clean raw ++ [] := (List.append_nil _).symm
  refine resolveToken_of_base r cleaned (by rwa [← cleaned]) word nofun fun c last => ?_
  rw [← cleaned] at last
  have := word c (List.mem_of_getLast? last)
  constructor <;> rintro rfl <;> revert this <;> decide

theorem resolveToken_of_generics {base arguments : List Char}
    (cleaned : clean raw = base ++ ('<' :: arguments ++ ['>']))
    (word : ∀ c ∈ base, isWordChar c = true) :
    r.resolveToken raw = r.readGenerics base ('<' :: arguments ++ ['>']) := by
  have last : (base ++ ('<' :: arguments ++ ['>'])).getLast? = some '>' := by
    rw [← List.append_assoc, List.getLast?_concat]
  refine resolveToken_of_base r cleaned (by simp) word (fun c first => ?_) fun c same => ?_
  · obtain rfl : '<' = c := Option.some.inj first
    decide
  · obtain rfl : '>' = c := Option.some.inj (last.symm.trans same)
    decide

theorem resolveToken_word {s : List Char} (word : IsWord s) : r.resolveToken s = readName s := by
  have cleaned := clean_of_written word.isPrinted.written word.complete
  rw [resolveToken_of_name r (by rw [cleaned]; exact word.nonempty)
    (by rw [cleaned]; exact word.chars), cleaned]

theorem written_group {s : List Char} (written : ∀ c ∈ s, isWritten c = true) :
    ∀ c ∈ '(' :: s ++ [')'], isWritten c = true := by
  intro c hc
  simp only [List.cons_append, List.mem_cons, List.mem_append, List.not_mem_nil, or_false] at hc
  rcases hc with rfl | hc | rfl
  · decide
  · exact written c hc
  · decide

theorem isTrimmed_group (s : List Char) : Text.IsTrimmed ('(' :: s ++ [')']) := by
  have last : ('(' :: s ++ [')']).getLast? = some ')' := List.getLast?_concat
  refine ⟨?_, by rw [last]; decide⟩
  rintro c ⟨⟩
  decide

/-- Nothing is cleaned away of a text without white space around it that is marked neither as
complete nor as the end of a sentence. -/
theorem clean_of_isTrimmed {s : List Char} (trimmed : Text.IsTrimmed s)
    (complete : s.head? ≠ some '\\') (last : ∀ c ∈ s.getLast?, c ≠ '.' ∧ c ≠ ',') :
    clean s = s := by
  rw [clean, Text.trim_of_isTrimmed trimmed, Text.stripFirst_of_head?_ne complete]
  apply List.rdropWhile_eq_self_iff.2
  intro kept
  simpa using last _ (List.getLast?_eq_some_getLast kept)

theorem clean_group (s : List Char) : clean ('(' :: s ++ [')']) = '(' :: s ++ [')'] := by
  apply clean_of_isTrimmed (isTrimmed_group s) (by simp)
  rw [List.getLast?_concat]
  decide

theorem resolveToken_group (s : List Char) :
    r.resolveToken ('(' :: s ++ [')']) = known? (r.resolve s) :=
  resolveToken_of_group r (clean_group s)

theorem resolveToken_question {s : List Char} (printed : IsPrinted s) :
    r.resolveToken ('?' :: s) = (r.resolveToken s).map orNull := by
  have marked := printed.cons (c := '?') (by decide) (by decide)
  exact resolveToken_of_question r (clean_of_written marked.written marked.complete)

theorem resolveToken_suffix {s : List Char} (written : ∀ c ∈ s, isWritten c = true)
    (nonempty : s ≠ []) (complete : s.head? ≠ some '\\') (noMark : s.head? ≠ some '?') :
    r.resolveToken (s ++ "[]".toList) = (r.resolveToken s).map arrayOf := by
  have all : ∀ c ∈ s ++ "[]".toList, isWritten c = true := by
    intro c hc
    rcases List.mem_append.1 hc with hc | hc
    · exact written c hc
    · exact written_suffix c hc
  have first : (s ++ "[]".toList).head? = s.head? := List.head?_append_of_ne_nil s nonempty
  exact resolveToken_of_suffix r (clean_of_written all (first ▸ complete)) noMark

/-! ### Names -/

theorem readName_scalar {n : String} (h : n ∈ scalarNames) :
    readName n.toList = some (.scalar n) := by
  have names : ∀ n ∈ scalarNames, readName n.toList = some (.scalar n) := by decide
  exact names n h

theorem readName_class {n : String} (h : ¬ IsReserved n) :
    readName n.toList = if isClassName n.toList then some (ofClass n) else none := by
  obtain ⟨notMixed, notScalar⟩ := not_isReserved_iff.1 h
  rw [readName, if_neg notMixed, notScalar, String.ofList_toList]

theorem ofClass_complete {n : String} (complete : n.toList.head? ≠ some '\\') :
    ofClass n = .classRef n := by
  rw [ofClass]
  split
  · rename_i rest slash
    exact absurd (congrArg List.head? slash) complete
  · rfl

theorem readName_classRef {n : String} (h : IsWritable n) :
    readName n.toList = some (.classRef n) := by
  rw [readName_class h.2, if_pos h.1.1, ofClass_complete h.1.2]

/-! ### Whole types -/

/-- A written type is split into its tokens. -/
theorem splitUnion_chars {t : Ty} (h : t.Known IsClassPath) :
    splitUnion (Text.trim t.chars) = t.tokens.map chars := by
  have some : t.tokens.map chars ≠ [] := by
    intro empty
    apply (printed_chars h).nonempty
    rw [chars_eq_intercalate h, empty]
    rfl
  have solid : ∀ s ∈ t.tokens.map chars, Solid '|' 0 s := by
    intro s hs
    obtain ⟨u, hu, rfl⟩ := List.mem_map.1 hs
    obtain ⟨known, single⟩ := h.token u hu
    exact solid_chars known 0 (Int.le_refl 0) fun _ => single
  have trimmed : ∀ s ∈ t.tokens.map chars, Text.trim s = s := by
    intro s hs
    obtain ⟨u, hu, rfl⟩ := List.mem_map.1 hs
    exact trim_of_written (printed_chars (h.token u hu).1).written
  rw [trim_of_written (printed_chars h).written, splitUnion, chars_eq_intercalate h,
    splitTop_intercalate some solid]
  exact (List.map_congr_left trimmed).trans (List.map_id _)

/-- A type reads as itself if its tokens do. -/
theorem resolve_of_tokens {t : Ty} (h : t.Known IsClassPath)
    (tokens : ∀ u ∈ t.tokens, r.resolveToken u.chars = some u) : r.resolve t.chars = t := by
  by_cases single : t.tokens = [t]
  · have one : splitUnion (Text.trim t.chars) = [t.chars] := by
      rw [splitUnion_chars h, single, List.map_singleton]
    rw [resolve_of_single one, tokens t (single ▸ List.mem_singleton_self t)]
    rfl
  · obtain ⟨two, joined⟩ := h.join_tokens single
    have several : ∀ token, splitUnion (Text.trim t.chars) ≠ [token] := by
      intro token one
      have := congrArg List.length one
      rw [splitUnion_chars h, List.length_map, List.length_singleton] at this
      omega
    have contributed : (splitUnion (Text.trim t.chars)).flatMap r.contribution = t.tokens := by
      rw [splitUnion_chars h, List.flatMap_map]
      have each : ∀ u ∈ t.tokens, r.contribution u.chars = [u] := by
        intro u hu
        rw [contribution, tokens u hu]
      rw [List.flatMap_def, List.map_congr_left each, ← List.flatMap_def]
      exact List.flatMap_singleton' _
    rw [resolve_of_several several, contributed]
    split
    · rename_i empty
      rw [empty] at two
      exact absurd two (by decide)
    · exact joined

/-- Only nullable types start with a question mark. -/
theorem head?_chars_of_isLeaf {t : Ty} (h : t.Known IsClassPath) (leaf : t.IsLeaf) :
    t.chars.head? ≠ some '?' := by
  have word {s : List Char} (hs : IsWord s) : s.head? ≠ some '?' :=
    fun first => absurd (hs.chars '?' (List.mem_of_head? first)) (by decide)
  induction h with
  | scalar hn => exact chars_scalar _ ▸ word (isWord_scalar hn)
  | classRef hn => exact chars_classRef _ ▸ word hn.isWord
  | mixed => exact chars_mixed ▸ word isWord_mixed
  | @arrayOf t ht ih =>
    by_cases leaf : t.IsLeaf
    · rw [chars_arrayOf leaf, List.head?_append]
      cases first : t.chars.head? with
      | none => exact absurd (List.head?_eq_none_iff.1 first) (printed_chars ht).nonempty
      | some c =>
        have notMark := ih leaf
        rw [first] at notMark
        exact notMark
    · rw [chars_arrayOf_group leaf]
      exact (by decide : some '(' ≠ some '?')
  | union | nullable => exact leaf.elim

theorem orNull_of_lacksNull {t : Ty} (lacks : t.LacksNull) : t.orNull = .nullable t := by
  cases t with
  | scalar n => exact if_neg lacks
  | classRef | arrayOf | union => rfl
  | nullable | mixed | unknown => exact lacks.elim

/-- The tokens of a written type read as themselves. -/
theorem resolveToken_chars {t : Ty} (h : t.Known IsWritable) :
    ∀ u ∈ t.tokens, r.resolveToken u.chars = some u := by
  have single {t : Ty} (read : r.resolveToken t.chars = some t) (one : t.tokens = [t]) :
      ∀ u ∈ t.tokens, r.resolveToken u.chars = some u := by
    intro u hu
    rw [one] at hu
    obtain rfl := List.mem_singleton.1 hu
    exact read
  have isClassPath : ∀ n, IsWritable n → IsClassPath n := fun _ hn => hn.1
  induction h with
  | scalar hn =>
    refine single ?_ rfl
    rw [chars_scalar, resolveToken_word r (isWord_scalar hn), readName_scalar hn]
  | classRef hn =>
    refine single ?_ rfl
    rw [chars_classRef, resolveToken_word r hn.1.isWord, readName_classRef hn]
  | mixed =>
    refine single ?_ rfl
    rw [chars_mixed, resolveToken_word r isWord_mixed]
    rfl
  | @arrayOf t ht ih =>
    refine single ?_ rfl
    have hc := ht.mono isClassPath
    have printed := printed_chars hc
    by_cases leaf : t.IsLeaf
    · have element : r.resolveToken t.chars = some t :=
        ih t (tokens_of_isLeaf leaf ▸ List.mem_singleton_self t)
      have noMark := head?_chars_of_isLeaf hc leaf
      rw [chars_arrayOf leaf,
        resolveToken_suffix r printed.written printed.nonempty printed.complete noMark, element]
      rfl
    · have inner : known? (r.resolve t.chars) = some t := by
        rw [resolve_of_tokens r hc ih, known?, if_neg ht.ne_unknown]
      have written := written_group printed.written
      rw [chars_arrayOf_group leaf, resolveToken_suffix r written (by simp) (by simp) (by simp),
        resolveToken_group r, inner]
      rfl
  | union _ _ alternatives _ ih =>
    intro u hu
    exact ih u hu u (tokens_of_isLeaf (alternatives u hu).isLeaf ▸ List.mem_singleton_self u)
  | @nullable t lacks ht ih =>
    rcases lacks.union_or_isLeaf with ⟨ts, rfl⟩ | leaf
    · intro u hu
      rcases List.mem_append.1 hu with hu | hu
      · exact ih u hu
      · obtain rfl := List.mem_singleton.1 hu
        rw [null, chars_scalar, resolveToken_word r (isWord_scalar (by decide)),
          readName_scalar (by decide)]
    · refine single ?_ (tokens_nullable leaf)
      have inner : r.resolveToken t.chars = some t :=
        ih t (tokens_of_isLeaf leaf ▸ List.mem_singleton_self t)
      rw [chars_nullable leaf, resolveToken_question r (printed_chars (ht.mono isClassPath)),
        inner, Option.map_some, orNull_of_lacksNull lacks]

theorem resolve_chars {t : Ty} (h : t.Known IsWritable) : r.resolve t.chars = t :=
  resolve_of_tokens r (h.mono fun _ hn => hn.1) (resolveToken_chars r h)

/-- A name on its own is read as such. -/
theorem resolve_word {s : List Char} (word : IsWord s) :
    r.resolve s = (readName s).getD .unknown := by
  have trimmed : Text.trim s = s := trim_of_written word.isPrinted.written
  have single : splitUnion (Text.trim s) = [s] := by
    rw [trimmed, splitUnion, word.solid.splitTop_eq, List.map_singleton, trimmed]
  rw [resolve_of_single single, resolveToken_word r word]

theorem resolve_scalar {n : String} (h : n ∈ scalarNames) : r.resolve n.toList = .scalar n := by
  rw [resolve_word r (isWord_scalar h), readName_scalar h, Option.getD_some]

/-- The angle brackets make generic arguments of nothing. -/
theorem resolve_unknown : r.resolve unknown.chars = .unknown := by
  have one : splitUnion (Text.trim "<unknown>".toList) = ["<unknown>".toList] := by decide
  have cleaned : clean "<unknown>".toList = '<' :: "unknown>".toList := by decide
  have noGroup : between? '(' ')' ('<' :: "unknown>".toList) = none := by decide
  have noSuffix : Text.ahead? "[]".toList ('<' :: "unknown>".toList) = none := by decide
  have arguments : Text.breakOn opensArguments ('<' :: "unknown>".toList) =
      ([], '<' :: "unknown>".toList) := by decide
  have noBase : r.readBase [] ('<' :: "unknown>".toList) = none := rfl
  rw [chars.eq_def]
  rw [resolve_of_single one, resolveToken_eq, cleaned]
  simp only [noGroup, noSuffix, arguments, noBase]
  rfl

/-- Reading undoes writing: a canonical type whose class names can be written
reads as itself. -/
theorem resolve_text {t : Ty} (h : t.Canonical IsWritable) : r.resolve t.text.toList = t := by
  rw [text, String.toList_ofList]
  rcases h with rfl | h
  · exact resolve_unknown r
  · exact resolve_of_tokens r (h.mono fun _ hn => hn.1) (resolveToken_chars r h)

theorem resolve_text_nested :
    let t : Ty := .nullable (.union [.arrayOf (.nullable (.scalar "int")), .classRef "App\\User"])
    t.Canonical IsWritable ∧ (Resolver.mk .ignore).resolve t.text.toList = t := by
  intro t
  have int : (Ty.scalar "int").Known IsWritable := .scalar (by decide)
  have user : IsWritable "App\\User" := ⟨isClassPath_iff.2 (by decide), by decide⟩
  have members : ∀ u ∈ [Ty.arrayOf (.nullable (.scalar "int")), .classRef "App\\User"],
      u.IsAlternative ∧ u.Known IsWritable := by
    intro u hu
    simp only [List.mem_cons, List.not_mem_nil, or_false] at hu
    rcases hu with rfl | rfl
    · exact ⟨trivial, .arrayOf (.nullable (by decide : "int" ≠ "null") int)⟩
    · exact ⟨trivial, .classRef user⟩
  have canonical : t.Canonical IsWritable :=
    .inr (.nullable trivial (.union (by decide) (by decide) (fun u hu => (members u hu).1)
      fun u hu => (members u hu).2))
  exact ⟨canonical, resolve_text _ canonical⟩

end PhpSymbols.Resolver
