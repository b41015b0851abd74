import PhpSymbols.Proofs.Ty.Alternation
import PhpSymbols.Proofs.Ty.Parts

/-!
# Classes named like built-ins

* `classRef_notMem_readName`, `classRef_mem_parts_ofClass`: a reserved name on its own is not read
  as a class, but what is made a class may be one behind a backslash;
* `resolve_generic`: a name with generic arguments is read as a class, reserved or not, unless it is
  that of an array;
* `classRef_mem_parts_resolve`: a class occurs in what an expression reads as if it does in what one
  of its tokens reads as, unless that is `mixed`;
* `ShowsClass`, `namesClass_iff_showsClass`: all the ways in which a token shows a class of a
  reserved name;
* `reserved_classes`: so it is for all that is read from expressions; without such classes the
  members of every union are written differently.
-/

namespace PhpSymbols.Ty
open Expression

theorem head?_lower (s : List Char) : (Text.lower s).head? = s.head?.map Char.toLower :=
  List.head?_map

/-- No reserved name starts with a backslash. -/
theorem IsReserved.complete {n : String} (h : IsReserved n) : n.toList.head? ≠ some '\\' := by
  have names : ∀ m ∈ "mixed" :: scalarSpellings.map Prod.fst,
      (Text.lower m.toList).head? ≠ some '\\' := by
    decide
  obtain ⟨m, mem, same⟩ : ∃ m ∈ "mixed" :: scalarSpellings.map Prod.fst,
      Text.lower n.toList = Text.lower m.toList := by
    rcases h with same | ⟨spelling, mem, same⟩
    · exact ⟨"mixed", List.mem_cons_self, beq_iff_eq.1 same⟩
    · exact ⟨spelling.1, List.mem_cons_of_mem _ (List.mem_map_of_mem mem), beq_iff_eq.1 same⟩
  intro slash
  apply names m mem
  rw [← same, head?_lower, slash]
  rfl

/-- There is no hyphen in a class name. -/
theorem lower_ne_of_isClassName {s : List Char} (name : isClassName s = true) :
    Text.lower s ≠ "class-string".toList := by
  intro same
  have complete : s.head? ≠ some '\\' := by
    intro slash
    have first := head?_lower s
    rw [same, slash] at first
    exact absurd first (by decide)
  have path : IsClassPath (String.ofList s) := by
    rw [IsClassPath, String.toList_ofList]
    exact ⟨name, complete⟩
  have hyphen : '-' ∈ Text.lower s := by
    rw [same]
    decide
  obtain ⟨c, mem, lowered⟩ := List.mem_map.1 hyphen
  rw [Text.eq_of_toLower (by decide) lowered] at mem
  have letters := path.isAlphanumeric '-' (by rwa [String.toList_ofList])
  exact absurd letters (by decide)

theorem isClassName_backslash {n : String} (h : IsClassPath n) :
    isClassName ('\\' :: n.toList) = true := by
  rw [isClassName, Text.stripFirst, if_pos rfl]
  exact isClassPath_iff.1 h

/-- A class has the name that it is made from, or that without a backslash. -/
theorem classRef_mem_parts_ofClass {n m : String} :
    .classRef n ∈ (ofClass m).parts ↔
      m.toList = '\\' :: n.toList ∨ m = n ∧ m.toList.head? ≠ some '\\' := by
  rw [ofClass]
  split
  · rename_i rest complete
    simp only [parts, List.mem_singleton, classRef.injEq, complete, List.cons.injEq, true_and,
      List.head?_cons, ne_eq, not_true_eq_false, and_false, or_false]
    rw [← String.toList_inj, String.toList_ofList, eq_comm]
  · rename_i incomplete
    have noSlash : m.toList.head? ≠ some '\\' := by
      intro first
      obtain ⟨rest, complete⟩ := List.head?_eq_some_iff.1 first
      exact incomplete rest complete
    rw [parts, List.mem_singleton, classRef.injEq, or_iff_right (incomplete _),
      and_iff_left noSlash, eq_comm]

end PhpSymbols.Ty

namespace PhpSymbols.Resolver
open Ty Ty.Expression

/-! ### Names -/

/-- A reserved name is read as a built-in or as `mixed`. -/
theorem classRef_notMem_readName {n m : String} {t : Ty} (reserved : IsReserved m)
    (read : readName m.toList = some t) : .classRef n ∉ t.parts := by
  rw [readName] at read
  split at read
  · obtain rfl := Option.some.inj read
    simp [parts]
  · rename_i notMixed
    cases found : scalarOfSpelling? m.toList with
    | none => exact absurd reserved (not_isReserved_iff.2 ⟨notMixed, found⟩)
    | some u =>
      rw [found] at read
      obtain rfl := Option.some.inj read
      obtain ⟨shown, _, rfl⟩ := Option.map_eq_some_iff.1 found
      simp [parts]

variable {r : Resolver} {n : String}

theorem classRef_mem_known? {t : Ty} :
    (∃ u, known? t = some u ∧ .classRef n ∈ u.parts) ↔ .classRef n ∈ t.parts := by
  rw [known?]
  split
  · rename_i unknown
    simp [unknown, parts]
  · simp

theorem classRef_mem_getD_known? {t : Ty} :
    .classRef n ∈ ((known? t).getD .mixed).parts ↔ .classRef n ∈ t.parts := by
  rw [known?]
  split
  · rename_i unknown
    simp [unknown, parts]
  · rfl

/-! ### Generic arguments -/

/-- A generic base is not looked up among the built-ins: other than those of arrays and
`class-string`, each is the class that it names. -/
theorem classRef_mem_readGenerics {base arguments : List Char} :
    (∃ t, r.readGenerics base ('<' :: arguments ++ ['>']) = some t ∧ .classRef n ∈ t.parts) ↔
      if String.ofList (Text.lower base) ∈ iterableBases then
        .classRef n ∈ (r.resolve (lastArgument arguments)).parts
      else isClassName base = true ∧
        (base = '\\' :: n.toList ∨ base = n.toList ∧ base.head? ≠ some '\\') := by
  rw [readGenerics, between?_enclosed]
  simp only [List.contains_iff_mem]
  split
  · simp [parts, classRef_mem_getD_known?]
  · split
    · rename_i hyphen
      have noName : isClassName base ≠ true := fun name => lower_ne_of_isClassName name hyphen
      simp [noName, parts]
    · split
      · rename_i name
        have same : String.ofList base = n ↔ base = n.toList := by
          rw [← String.toList_inj, String.toList_ofList]
        simp [classRef_mem_parts_ofClass, name, same]
      · rename_i noName
        simp [noName]

theorem clean_generic {base : List Char} (word : IsWord base) (arguments : List Char) :
    Text.IsTrimmed (base ++ ('<' :: arguments ++ ['>'])) ∧
      clean (base ++ ('<' :: arguments ++ ['>'])) = base ++ ('<' :: arguments ++ ['>']) := by
  have first : (base ++ ('<' :: arguments ++ ['>'])).head? = base.head? :=
    List.head?_append_of_ne_nil _ word.nonempty
  have last : (base ++ ('<' :: arguments ++ ['>'])).getLast? = some '>' := by
    rw [← List.append_assoc, List.getLast?_concat]
  have trimmed : Text.IsTrimmed (base ++ ('<' :: arguments ++ ['>'])) := by
    constructor
    · intro c head
      rw [first] at head
      exact not_isBlank_of_isWritten (word.isPrinted.written c (List.mem_of_head? head))
    · rw [last]
      decide
  exact ⟨trimmed, clean_of_isTrimmed trimmed (by rw [first]; exact word.complete)
    (by rw [last]; decide)⟩

/-- A class name is read as the class whatever generic arguments it has, unless it names an
array. -/
theorem resolve_generic (r : Resolver) (n : String) (arguments : List Char) (path : IsClassPath n)
    (other : String.ofList (Text.lower n.toList) ∉ iterableBases)
    (undivided : IsUndivided '|' (n.toList ++ ('<' :: arguments ++ ['>']))) :
    r.resolve (n.toList ++ ('<' :: arguments ++ ['>'])) = .classRef n := by
  obtain ⟨trimmed, cleaned⟩ := clean_generic path.isWord arguments
  have notArray : iterableBases.contains (String.ofList (Text.lower n.toList)) ≠ true :=
    fun mem => other (List.contains_iff_mem.1 mem)
  have read : r.readGenerics n.toList ('<' :: arguments ++ ['>']) = some (.classRef n) := by
    rw [readGenerics, between?_enclosed]
    dsimp only
    rw [if_neg notArray, if_neg (lower_ne_of_isClassName path.1), if_pos path.1,
      String.ofList_toList, ofClass_complete path.2]
  rw [resolve_token (splitUnion_of_isUndivided undivided), Text.trim_of_isTrimmed trimmed,
    resolveToken_of_generics r cleaned path.isWord.chars, read]
  rfl

/-! ### Expressions -/

/-- The token is read as a type in which the class `n` occurs. -/
def NamesClass (r : Resolver) (n : String) (token : List Char) : Prop :=
  ∃ t, r.resolveToken token = some t ∧ .classRef n ∈ t.parts

theorem classRef_mem_contribution {token : List Char} :
    (∃ t ∈ r.contribution token, .classRef n ∈ t.parts) ↔ r.NamesClass n token := by
  rw [NamesClass, contribution]
  cases r.resolveToken token with
  | some t => simp
  | none =>
    rw [unrecognised]
    cases r.policy <;> simp [parts]

/-- A class occurs in what an expression reads as exactly if it does in what one of its tokens
reads as, unless the whole is `mixed`. -/
theorem classRef_mem_parts_resolve {e : List Char} :
    .classRef n ∈ (r.resolve e).parts ↔
      r.resolve e ≠ .mixed ∧ ∃ token ∈ splitUnion e, r.NamesClass n token := by
  have offered : (∃ t ∈ r.contributions e, .classRef n ∈ t.parts) ↔
      ∃ token ∈ splitUnion e, r.NamesClass n token := by
    simp only [contributions, List.mem_flatMap, ← classRef_mem_contribution]
    constructor
    · rintro ⟨t, ⟨token, mem, adds⟩, within⟩
      exact ⟨token, mem, t, adds, within⟩
    · rintro ⟨token, mem, t, adds, within⟩
      exact ⟨t, ⟨token, mem, adds⟩, within⟩
  by_cases one : ∃ token, splitUnion e = [token]
  · obtain ⟨token, single⟩ := one
    rw [resolve_token single, single]
    simp only [List.mem_singleton, exists_eq_left, NamesClass]
    cases r.resolveToken token with
    | none => simp [parts]
    | some t =>
      have notMixed : .classRef n ∈ t.parts → t ≠ .mixed := by
        rintro within rfl
        simp [parts] at within
      simpa using notMixed
  · rw [← offered, resolve_tokens (not_exists.1 one)]
    split
    · simp [parts]
    · rename_i some
      exact classRef_mem_parts_join

/-! ### Tokens -/

/-- The forms of a token that is read as something. -/
theorem exists_form {raw : List Char} {t : Ty} (found : r.resolveToken raw = some t) :
    (∃ inner, clean raw = '(' :: inner ++ [')']) ∨
    (∃ rest, clean raw = '?' :: rest) ∨
    (∃ element, clean raw = element ++ "[]".toList ∧ element.head? ≠ some '?') ∨
    ∃ base opened, clean raw = base ++ opened ∧ r.readBase base opened = some t := by
  rw [resolveToken_eq] at found
  split at found
  · cases found
  · rename_i c rest cleaned
    rw [cleaned]
    split at found
    · rename_i inner grouped
      exact .inl ⟨inner, between?_eq_some_iff.1 grouped⟩
    · split at found
      · rename_i mark
        exact .inr (.inl ⟨rest, by rw [mark]⟩)
      · rename_i noMark
        split at found
        · rename_i element suffixed
          have whole := Text.ahead?_eq_some_iff.1 suffixed
          refine .inr (.inr (.inl ⟨element, whole, fun first => noMark ?_⟩))
          obtain ⟨more, rfl⟩ := List.head?_eq_some_iff.1 first
          exact (List.cons.inj whole).1
        · exact .inr (.inr (.inr ⟨_, _, List.takeWhile_append_dropWhile.symm, found⟩))

/-- The ways in which a token shows a class of the reserved name `n`: behind two backslashes, of
which one is cleaned away and one is taken for the mark of a complete name; as the base of generic
arguments; and as part of an array, a nullable or a union that it shows in turn. -/
inductive ShowsClass (r : Resolver) (n : String) : List Char → Prop where
  | named {raw : List Char} : clean raw = '\\' :: n.toList → ShowsClass r n raw
  | generic {raw base arguments : List Char} :
      clean raw = base ++ ('<' :: arguments ++ ['>']) → base = '\\' :: n.toList ∨ base = n.toList →
      String.ofList (Text.lower base) ∉ iterableBases → ShowsClass r n raw
  | elements {raw base arguments token : List Char} :
      clean raw = base ++ ('<' :: arguments ++ ['>']) →
      String.ofList (Text.lower base) ∈ iterableBases →
      r.resolve (lastArgument arguments) ≠ .mixed → token ∈ splitUnion (lastArgument arguments) →
      ShowsClass r n token → ShowsClass r n raw
  | suffixed {raw element : List Char} : clean raw = element ++ "[]".toList →
      element.head? ≠ some '?' → ShowsClass r n element → ShowsClass r n raw
  | nullable {raw rest : List Char} : clean raw = '?' :: rest → ShowsClass r n rest →
      ShowsClass r n raw
  | grouped {raw inner token : List Char} : clean raw = '(' :: inner ++ [')'] →
      r.resolve inner ≠ .mixed → token ∈ splitUnion inner → ShowsClass r n token →
      ShowsClass r n raw

/-- An expression shows a class if one of its tokens does, unless it reads as `mixed`. -/
def Shows (r : Resolver) (n : String) (e : List Char) : Prop :=
  r.resolve e ≠ .mixed ∧ ∃ token ∈ splitUnion e, r.ShowsClass n token

theorem namesClass_group {raw inner : List Char} (cleaned : clean raw = '(' :: inner ++ [')']) :
    r.NamesClass n raw ↔ .classRef n ∈ (r.resolve inner).parts := by
  rw [NamesClass, resolveToken_of_group r cleaned, classRef_mem_known?]

theorem namesClass_question {raw rest : List Char} (cleaned : clean raw = '?' :: rest) :
    r.NamesClass n raw ↔ r.NamesClass n rest := by
  simp [NamesClass, resolveToken_of_question r cleaned, classRef_mem_parts_orNull]

theorem namesClass_suffix {raw element : List Char} (cleaned : clean raw = element ++ "[]".toList)
    (noMark : element.head? ≠ some '?') : r.NamesClass n raw ↔ r.NamesClass n element := by
  simp [NamesClass, resolveToken_of_suffix r cleaned noMark, parts]

theorem namesClass_generics {raw base arguments : List Char}
    (cleaned : clean raw = base ++ ('<' :: arguments ++ ['>']))
    (word : ∀ c ∈ base, isWordChar c = true) :
    r.NamesClass n raw ↔
      if String.ofList (Text.lower base) ∈ iterableBases then
        .classRef n ∈ (r.resolve (lastArgument arguments)).parts
      else isClassName base = true ∧
        (base = '\\' :: n.toList ∨ base = n.toList ∧ base.head? ≠ some '\\') := by
  rw [NamesClass, resolveToken_of_generics r cleaned word, classRef_mem_readGenerics]

theorem isWordChar_of_toLower {c : Char} (h : isWordChar c.toLower = true) :
    isWordChar c = true := by
  unfold Char.toLower at h
  split at h
  · rename_i upper
    have letter : Text.isAlphanumeric c = true := by
      have ascii : c.toNat < 128 := by
        simp only [UInt32.le_iff_toNat_le] at upper
        exact Nat.lt_of_le_of_lt upper.2 (by decide)
      have isUpper : c.isUpper = true := by
        unfold Char.isUpper
        simpa using upper
      rw [Text.isAlphanumeric, if_pos ascii]
      unfold Char.isAlphanum Char.isAlpha
      rw [isUpper]
      rfl
    simp [isWordChar, letter]
  · exact h

theorem isWordChar_of_mem_iterableBases {base : List Char}
    (iterable : String.ofList (Text.lower base) ∈ iterableBases) :
    ∀ c ∈ base, isWordChar c = true := by
  have bases : ∀ b ∈ iterableBases, ∀ c ∈ b.toList, isWordChar c = true := by decide
  intro c mem
  apply isWordChar_of_toLower
  apply bases _ iterable
  rw [String.toList_ofList]
  exact List.mem_map_of_mem mem

/-- Each of the ways shows the class. -/
theorem ShowsClass.namesClass (path : IsClassPath n) {token : List Char}
    (shows : r.ShowsClass n token) : r.NamesClass n token := by
  have slashed : ∀ c ∈ '\\' :: n.toList, isWordChar c = true :=
    List.forall_mem_cons.2 ⟨by decide, path.isWord.chars⟩
  induction shows with
  | @named raw cleaned =>
    have unreserved : ¬ IsReserved (String.ofList ('\\' :: n.toList)) := by
      intro reserved
      exact reserved.complete (by rw [String.toList_ofList]; rfl)
    have read := readName_class unreserved
    rw [String.toList_ofList, if_pos (isClassName_backslash path)] at read
    rw [NamesClass, resolveToken_of_name r (by simp [cleaned]) (by rwa [cleaned]), cleaned, read]
    exact ⟨_, rfl, classRef_mem_parts_ofClass.2 (.inl (String.toList_ofList))⟩
  | @generic raw base arguments cleaned base_eq other =>
    rw [namesClass_generics cleaned, if_neg other]
    · rcases base_eq with rfl | rfl
      · exact ⟨isClassName_backslash path, .inl rfl⟩
      · exact ⟨path.1, .inr ⟨rfl, path.2⟩⟩
    · rcases base_eq with rfl | rfl
      · exact slashed
      · exact path.isWord.chars
  | elements cleaned iterable notMixed mem _ ih =>
    rw [namesClass_generics cleaned (isWordChar_of_mem_iterableBases iterable), if_pos iterable]
    exact classRef_mem_parts_resolve.2 ⟨notMixed, _, mem, ih⟩
  | suffixed cleaned noMark _ ih => exact (namesClass_suffix cleaned noMark).2 ih
  | nullable cleaned _ ih => exact (namesClass_question cleaned).2 ih
  | grouped cleaned notMixed mem _ ih =>
    exact (namesClass_group cleaned).2 (classRef_mem_parts_resolve.2 ⟨notMixed, _, mem, ih⟩)

theorem classRef_notMem_readShape {base : List Char} {t : Ty} (found : readShape base = some t) :
    .classRef n ∉ t.parts := by
  unfold readShape at found
  dsimp only at found
  split_ifs at found <;> obtain rfl := Option.some.inj found <;> simp [parts]

theorem classRef_notMem_readSignature {base : List Char} {t : Ty} (reserved : IsReserved n)
    (found : readSignature base = some t) : .classRef n ∉ t.parts := by
  unfold readSignature at found
  dsimp only at found
  split_ifs at found <;> obtain rfl := Option.some.inj found
  · simp [parts]
  · have other : n ≠ "Closure" := by
      rintro rfl
      exact absurd reserved (by decide)
    simpa [parts] using other

/-- What is read as a class of a reserved name has a backslash or generic arguments. -/
theorem ShowsClass.of_readBase {raw base opened : List Char} {t : Ty} (reserved : IsReserved n)
    (cleaned : clean raw = base ++ opened)
    (expressions : ∀ e, e.length < (clean raw).length → .classRef n ∈ (r.resolve e).parts →
      r.Shows n e)
    (found : r.readBase base opened = some t) (within : .classRef n ∈ t.parts) :
    r.ShowsClass n raw := by
  unfold readBase at found
  split at found
  · rw [← String.toList_ofList (l := base)] at found
    have unreserved : ¬ IsReserved (String.ofList base) :=
      fun reserved => classRef_notMem_readName reserved found within
    rw [readName_class unreserved] at found
    split at found
    · obtain rfl := Option.some.inj found
      rcases classRef_mem_parts_ofClass.1 within with slashed | ⟨rfl, _⟩
      · rw [String.toList_ofList] at slashed
        exact .named (by rw [cleaned, List.append_nil, slashed])
      · exact absurd reserved unreserved
    · cases found
  · exact absurd within (classRef_notMem_readShape found)
  · exact absurd within (classRef_notMem_readSignature reserved found)
  · cases enclosed : between? '<' '>' opened with
    | none =>
      rw [readGenerics, enclosed] at found
      cases found
    | some arguments =>
      obtain rfl := between?_eq_some_iff.1 enclosed
      have shown := classRef_mem_readGenerics.1 ⟨t, found, within⟩
      split at shown
      · rename_i iterable
        have shorter : (lastArgument arguments).length < (clean raw).length := by
          have last := length_lastArgument_le arguments
          rw [cleaned, List.length_append, List.length_append, List.length_cons]
          omega
        obtain ⟨notMixed, token, mem, shows⟩ := expressions _ shorter shown
        exact .elements cleaned iterable notMixed mem shows
      · rename_i other
        exact .generic cleaned (shown.2.imp_right And.left) other

theorem showsClass_of_namesClass (reserved : IsReserved n) (bound : Nat) :
    ∀ token, token.length ≤ bound → r.NamesClass n token → r.ShowsClass n token := by
  induction bound using Nat.strongRecOn with
  | ind bound ih =>
    intro raw le names
    have le := Nat.le_trans (length_clean_le raw) le
    have tokens : ∀ token, token.length < (clean raw).length → r.NamesClass n token →
        r.ShowsClass n token :=
      fun token lt => ih token.length (by omega) token (Nat.le_refl _)
    have expressions : ∀ e, e.length < (clean raw).length → .classRef n ∈ (r.resolve e).parts →
        r.Shows n e := by
      intro e lt within
      obtain ⟨notMixed, token, mem, names⟩ := classRef_mem_parts_resolve.1 within
      have short := length_of_mem_splitUnion mem
      exact ⟨notMixed, token, mem, tokens token (by omega) names⟩
    have ⟨t, found, within⟩ := names
    obtain ⟨inner, cleaned⟩ | ⟨rest, cleaned⟩ | ⟨element, cleaned, noMark⟩ |
      ⟨base, opened, cleaned, read⟩ := exists_form found
    · have shorter : inner.length < (clean raw).length := by
        rw [cleaned, List.length_append, List.length_cons]
        omega
      obtain ⟨notMixed, token, mem, shows⟩ :=
        expressions inner shorter ((namesClass_group cleaned).1 names)
      exact .grouped cleaned notMixed mem shows
    · have shorter : rest.length < (clean raw).length := by
        rw [cleaned, List.length_cons]
        omega
      exact .nullable cleaned (tokens rest shorter ((namesClass_question cleaned).1 names))
    · have shorter : element.length < (clean raw).length := by
        have suffix : 0 < "[]".toList.length := by decide
        rw [cleaned, List.length_append]
        omega
      exact .suffixed cleaned noMark
        (tokens element shorter ((namesClass_suffix cleaned noMark).1 names))
    · exact .of_readBase reserved cleaned expressions read within

/-- There are no other ways. -/
theorem namesClass_iff_showsClass (reserved : IsReserved n) (path : IsClassPath n)
    {token : List Char} : r.NamesClass n token ↔ r.ShowsClass n token :=
  ⟨showsClass_of_namesClass reserved token.length token (Nat.le_refl _),
    ShowsClass.namesClass path⟩

/-! ### Whatever is read -/

theorem classRef_mem_resolve (reserved : IsReserved n) {e : List Char} :
    .classRef n ∈ (r.resolve e).parts ↔ IsClassPath n ∧ r.Shows n e := by
  have path (within : .classRef n ∈ (r.resolve e).parts) : IsClassPath n := by
    rcases canonical_resolve r e with unknown | known
    · rw [unknown] at within
      simp [parts] at within
    · exact known.class within
  constructor
  · intro within
    obtain ⟨notMixed, token, mem, names⟩ := classRef_mem_parts_resolve.1 within
    exact ⟨path within, notMixed, token, mem,
      (namesClass_iff_showsClass reserved (path within)).1 names⟩
  · rintro ⟨path, notMixed, token, mem, shows⟩
    exact classRef_mem_parts_resolve.2 ⟨notMixed, token, mem, shows.namesClass path⟩

/-- What is read from one expression, from alternatives, or from a hint beside its
documentation. -/
inductive ReadFrom (r : Resolver) : List String → Ty → Prop where
  | one (e : String) : ReadFrom r [e] (r.resolve e.toList)
  | all (es : List String) : ReadFrom r es (r.resolveAll es)
  | declared (native documented : Option String) :
      ReadFrom r (native.toList ++ documented.toList) (r.resolveDeclared native documented)

/-- What holds of each expression's type and is kept by unions holds of all that is read. -/
theorem ReadFrom.of_join {es : List String} {t : Ty} (read : r.ReadFrom es t) (holds : Ty → Prop)
    (join : ∀ ts, (∀ t ∈ ts, holds t) → holds (Ty.join ts))
    (each : ∀ e ∈ es, holds (r.resolve e.toList)) : holds t := by
  cases read with
  | one e => exact each e (List.mem_singleton_self e)
  | all => exact join _ (List.forall_mem_map.2 each)
  | declared native documented =>
    match native, documented with
    | none, none => exact join [] nofun
    | some native, none => exact each native (List.mem_singleton_self _)
    | none, some documented => exact each documented (List.mem_singleton_self _)
    | some native, some documented =>
      have hn := each native List.mem_cons_self
      have hd := each documented (List.mem_cons_of_mem _ (List.mem_singleton_self _))
      unfold resolveDeclared
      dsimp only
      split_ifs
      · exact hn
      · exact hd
      · exact join _ (List.forall_mem_cons.2 ⟨hn, List.forall_mem_singleton.2 hd⟩)

theorem ReadFrom.canonical {es : List String} {t : Ty} (read : r.ReadFrom es t) :
    t.Canonical IsClassPath :=
  read.of_join (Canonical IsClassPath) (fun _ => canonical_join) fun e _ =>
    canonical_resolve r e.toList

/-- A class occurs in what is read only if it does in what one of the expressions reads as. -/
theorem ReadFrom.exists_mem {es : List String} {t : Ty} (read : r.ReadFrom es t)
    (within : .classRef n ∈ t.parts) : ∃ e ∈ es, .classRef n ∈ (r.resolve e.toList).parts := by
  by_contra none
  have without : ∀ e ∈ es, .classRef n ∉ (r.resolve e.toList).parts :=
    fun e mem within => none ⟨e, mem, within⟩
  refine read.of_join (fun t => .classRef n ∉ t.parts) (fun ts each within => ?_) without within
  obtain ⟨-, u, mem, within⟩ := classRef_mem_parts_join.1 within
  exact each u mem within

/-- All that is written of a type without classes of reserved names is different. -/
theorem nodup_texts_of_parts {t : Ty} (canonical : t.Canonical IsClassPath)
    (unreserved : ∀ n, IsReserved n → .classRef n ∉ t.parts) :
    ∀ u ∈ t.parts, (u.tokens.map text).Nodup := by
  rcases canonical with rfl | known
  · intro u mem
    obtain rfl := List.mem_singleton.1 mem
    exact List.nodup_singleton _
  · have writable : t.Known IsWritable := known.of_parts fun n within =>
      ⟨known.class within, fun reserved => unreserved n reserved within⟩
    exact fun u mem => nodup_texts (writable.part u mem)

/-- A class of a reserved name occurs in what an expression reads as in just the ways described, and
in a type read from several expressions only if it does in that of one of them. In a type without
such a class the members of every union are written differently. -/
theorem reserved_classes (r : Resolver) :
    (∀ e n, IsReserved n →
      (.classRef n ∈ (r.resolve e).parts ↔ IsClassPath n ∧ r.Shows n e)) ∧
    ∀ es t, r.ReadFrom es t →
      (∀ n, IsReserved n → .classRef n ∈ t.parts → ∃ e ∈ es, r.Shows n e.toList) ∧
      ((∀ n, IsReserved n → .classRef n ∉ t.parts) →
        ∀ u ∈ t.parts, (u.tokens.map text).Nodup) := by
  refine ⟨fun e n reserved => classRef_mem_resolve reserved, fun es t read => ⟨?_, ?_⟩⟩
  · intro n reserved within
    obtain ⟨e, mem, within⟩ := read.exists_mem within
    exact ⟨e, mem, ((classRef_mem_resolve reserved).1 within).2⟩
  · exact nodup_texts_of_parts read.canonical

theorem reserved_classes_collection :
    let r : Resolver := {}
    let t := r.resolveDeclared (some "int") (some "Collection<User>")
    (IsReserved "int" ∧ .classRef "int" ∈ (r.resolve "int<0, max>".toList).parts) ∧
    (r.ReadFrom ["int", "Collection<User>"] t ∧ ∀ n, IsReserved n → .classRef n ∉ t.parts) ∧
      ∀ u ∈ t.parts, (u.tokens.map text).Nodup := by
  intro r t
  have range : r.resolve "int<0, max>".toList = .classRef "int" :=
    resolve_generic _ "int" "0, max".toList (isClassPath_iff.2 (by decide)) (by decide) (by decide)
  have int := resolve_scalar r (by decide : "int" ∈ scalarNames)
  have collection : r.resolve "Collection<User>".toList = .classRef "Collection" :=
    resolve_generic _ "Collection" "User".toList (isClassPath_iff.2 (by decide)) (by decide)
      (by decide)
  have whole : t = .union [.scalar "int", .classRef "Collection"] := by
    simp only [t, resolveDeclared, int, collection]
    decide
  have shows : r.Shows "int" "int<0, max>".toList := by
    refine ⟨by rw [range]; exact nofun, "int<0, max>".toList, by decide, ?_⟩
    have cleaned : clean "int<0, max>".toList =
        "int".toList ++ ('<' :: "0, max".toList ++ ['>']) := by decide
    exact .generic cleaned (.inr rfl) (by decide)
  have read : r.ReadFrom ["int", "Collection<User>"] t :=
    .declared (some "int") (some "Collection<User>")
  have unreserved : ∀ n, IsReserved n → .classRef n ∉ t.parts := by
    rintro n reserved within
    simp only [whole, parts, partsAll, List.mem_cons, List.append_nil, List.singleton_append,
      reduceCtorEq, false_or, classRef.injEq, List.not_mem_nil, or_false] at within
    subst within
    exact absurd reserved (by decide)
  have theory := reserved_classes r
  exact ⟨⟨by decide, (theory.1 _ _ (by decide)).2 ⟨isClassPath_iff.2 (by decide), shows⟩⟩,
    ⟨read, unreserved⟩, (theory.2 _ _ read).2 unreserved⟩

theorem reserved_classes_range :
    let t := ({} : Resolver).resolveDeclared (some "int") (some "int<0, max>")
    IsReserved "int" ∧ .classRef "int" ∈ t.parts ∧ t.text = "int|int" ∧
      ¬ (t.tokens.map text).Nodup := by
  intro t
  have range : ({} : Resolver).resolve "int<0, max>".toList = .classRef "int" :=
    resolve_generic _ "int" "0, max".toList (isClassPath_iff.2 (by decide)) (by decide) (by decide)
  have int := resolve_scalar {} (by decide : "int" ∈ scalarNames)
  have whole : t = .union [.scalar "int", .classRef "int"] := by
    simp only [t, resolveDeclared, int, range]
    decide
  rw [whole]
  exact ⟨by decide, by decide, by decide, by decide⟩

end PhpSymbols.Resolver
