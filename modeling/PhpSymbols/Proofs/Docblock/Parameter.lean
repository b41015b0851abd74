import PhpSymbols.Proofs.Ty.Leading
import PhpSymbols.Proofs.Docblock.Words

/-!
# Documented parameters

* `tagsNamed_of_single`: the tag of a row, if no other row opens one of that name;
* `documentedParameter?_eq`: the parameter that a tag is about is told by the first word behind the
  type;
* `ParameterRow`: a row that documents a parameter, and `ParameterRow.exists_body`, what the body
  of its tag is;
* `paramType?_row`: what is found as the type of the parameter.
-/

namespace PhpSymbols.Docblock
open Text Ty.Expression

/-! ### Tags of one name -/

/-- The row opens a tag of that name. -/
def Opens (name : String) (row : List Char) : Prop :=
  (tagOfLine? row).map Prod.fst = some name.toList

instance (name : String) (row : List Char) : Decidable (Opens name row) :=
  inferInstanceAs (Decidable (_ = _))

variable {name : String} {row first : List Char} {before after : List (List Char)}

/-- Rows that open no tag of that name add none. -/
theorem filter_gather_append (other : ∀ row ∈ before, ¬ Opens name row) (rows : List (List Char)) :
    (gather (before ++ rows)).2.filter (·.name == name) =
      (gather rows).2.filter (·.name == name) := by
  induction before with
  | nil => rfl
  | cons row before ih =>
    have later := ih fun row mem => other row (List.mem_cons_of_mem _ mem)
    rw [List.cons_append]
    cases opens : tagOfLine? row with
    | none =>
      rw [gather_other opens]
      exact later
    | some opened =>
      obtain ⟨word, first⟩ := opened
      have different : String.ofList word ≠ name := by
        rintro rfl
        apply other row List.mem_cons_self
        rw [Opens, opens, String.toList_ofList]
        rfl
      rw [gather_opening opens, List.filter_cons_of_neg (by simpa using different)]
      exact later

theorem tagsNamed_of_single {raw : String} (rows : rowsOf raw = before ++ row :: after)
    (only : ∀ row ∈ before ++ after, ¬ Opens name row)
    (opens : tagOfLine? row = some (name.toList, first)) :
    (parse raw).tagsNamed name = [⟨name, joinBody (first :: (gather after).1)⟩] := by
  have none : (gather after).2.filter (·.name == name) = [] := by
    have all := filter_gather_append
      (fun row mem => only row (List.mem_append_right before mem)) []
    rwa [List.append_nil] at all
  rw [tagsNamed, parse_eq, rows]
  dsimp only
  rw [filter_gather_append (fun row mem => only row (List.mem_append_left after mem)),
    gather_opening opens, String.ofList_toList, List.filter_cons_of_pos (by simp), none]

/-- A body starts with the text that stands with the name, and goes on behind a space. -/
theorem exists_joinBody (some : first ≠ []) (rows : List (List Char)) :
    ∃ more, (joinBody (first :: rows)).toList = first ++ more ∧
      ∀ c ∈ more.head?, isBlank c = true := by
  rw [joinBody, String.toList_ofList, List.filter_cons_of_pos (by simpa using some)]
  cases rows.filter fun row => !row.isEmpty with
  | nil =>
    rw [List.intercalate_singleton]
    exact ⟨[], (List.append_nil _).symm, by simp⟩
  | cons row rows =>
    rw [List.intercalate_cons_cons, List.append_assoc]
    refine ⟨_, rfl, fun c head => ?_⟩
    obtain rfl := Option.some.inj head
    decide

/-! ### The name behind the type -/

/-- The parameter that a word names, behind the marks of a reference and of a variadic one. -/
def parameterOfWord? (word : List Char) : Option (List Char) :=
  match trimStartMatches "...".toList (word.dropWhile (· == '&')) with
  | '$' :: name => some name
  | _ => none

/-- Only the first word is looked at. -/
theorem documentedParameter?_eq (s : List Char) :
    documentedParameter? s = (words s).head?.bind parameterOfWord? := by
  rw [documentedParameter?]
  cases words s <;> rfl

/-- White space around the first words does not matter, nor does what stands behind more of it. -/
theorem documentedParameter?_append {c : Char} {more gap : List Char} (blank : isBlank c = true)
    (some : words more ≠ []) (apart : gap ≠ []) (blanks : ∀ c ∈ gap, isBlank c = true)
    (rest : List Char) :
    documentedParameter? (c :: more ++ (gap ++ rest)) = documentedParameter? more := by
  obtain ⟨d, gap, rfl⟩ := List.exists_cons_of_ne_nil apart
  have front : words (c :: more) = words more := words_blank_append (a := [c]) (by simpa) more
  have cut : c :: more ++ (d :: gap ++ rest) = (c :: more) ++ d :: (gap ++ rest) := rfl
  rw [documentedParameter?_eq, documentedParameter?_eq, cut,
    words_append_cons (blanks d List.mem_cons_self), front, List.head?_append_of_ne_nil _ some]

theorem trimStartMatches_append {part : List Char} (some : part ≠ []) (s : List Char) :
    trimStartMatches part (part ++ s) = trimStartMatches part s := by
  obtain ⟨c, part, rfl⟩ := List.exists_cons_of_ne_nil some
  have found : behind? (c :: part) (c :: part ++ s) = .some s := behind?_eq_some_iff.2 rfl
  have shorter : s.length < (c :: part ++ s).length := by
    simp only [List.length_append, List.length_cons]
    omega
  rw [trimStartMatches.eq_def]
  simp only [found, if_pos shorter]

/-- The word by which a parameter is documented. -/
def parameterWord (byReference variadic : Bool) (name : List Char) : List Char :=
  (if byReference then ['&'] else []) ++ ((if variadic then "...".toList else []) ++ '$' :: name)

theorem parameterOfWord?_parameterWord (byReference variadic : Bool) (name : List Char) :
    parameterOfWord? (parameterWord byReference variadic name) = some name := by
  have bare : trimStartMatches "...".toList ('$' :: name) = '$' :: name := by
    rw [trimStartMatches.eq_def]
    rfl
  have marked : (parameterWord byReference variadic name).dropWhile (· == '&') =
      (if variadic then "...".toList else []) ++ '$' :: name := by
    cases byReference <;> cases variadic <;> rfl
  rw [parameterOfWord?, marked]
  cases variadic with
  | false =>
    rw [if_neg Bool.false_ne_true, List.nil_append, bare]
    rfl
  | true =>
    rw [if_pos rfl, trimStartMatches_append (by decide), bare]
    rfl

/-! ### Rows of parameters -/

/-- A row that documents a parameter: what stands on it, in this order. -/
structure ParameterRow where
  gap : List Char := [' ']
  /-- The expression of the type, perhaps with white space around it. -/
  type : List Char
  between : List Char := [' ']
  byReference : Bool := false
  variadic : Bool := false
  name : List Char
  behind : List Char := []
  gap_blank : gap ≠ [] ∧ ∀ c ∈ gap, isBlank c = true := by decide
  type_visible : trim type ≠ [] := by decide
  between_blank : between ≠ [] ∧ ∀ c ∈ between, isBlank c = true := by decide
  solid : ∀ c ∈ name, isBlank c = false := by decide
  behind_apart : ∀ c ∈ behind.head?, isBlank c = true := by decide

namespace ParameterRow
variable {w : ParameterRow}

def word (w : ParameterRow) : List Char := parameterWord w.byReference w.variadic w.name

def text (w : ParameterRow) : List Char :=
  "@param".toList ++ (w.gap ++ (w.type ++ (w.between ++ (w.word ++ w.behind))))

theorem word_ne_nil : w.word ≠ [] := by simp [word, parameterWord]

theorem solid_word : ∀ c ∈ w.word, isBlank c = false := by
  intro c mem
  have among : w.byReference = true ∧ c = '&' ∨ w.variadic = true ∧ c = '.' ∨ c = '$' ∨
      c ∈ w.name := by
    simpa [word, parameterWord] using mem
  rcases among with ⟨-, rfl⟩ | ⟨-, rfl⟩ | rfl | named
  · decide
  · decide
  · decide
  · exact w.solid c named

/-- What stands behind the name of the tag and the white space after that. -/
def written (w : ParameterRow) : List Char := w.type ++ (w.between ++ (w.word ++ w.behind))

theorem tagOfLine?_text : tagOfLine? w.text = some ("param".toList, trim w.written) := by
  have stops := head?_blank_append w.gap_blank.1 w.gap_blank.2 w.written
  have solid : ∀ c ∈ "param".toList, isBlank c = false := by decide
  have whole : w.text = '@' :: ("param".toList ++ (w.gap ++ w.written)) := rfl
  rw [whole, tagOfLine?_append (by decide) solid stops, trim_blank_append w.gap_blank.2]

/-- Behind the type stands white space, and then the word that names the parameter. -/
theorem exists_trim_written (line : IsTrimmed w.text) : ∃ gap, gap ≠ [] ∧
    (∀ c ∈ gap, isBlank c = true) ∧
    trim w.written = trim w.type ++ (gap ++ (w.word ++ w.behind)) := by
  obtain ⟨front, back, blank, blank', type⟩ := exists_trim w.type
  refine ⟨back ++ w.between, fun none => w.between_blank.1 (List.append_eq_nil_iff.1 none).2,
    fun c mem => (List.mem_append.1 mem).elim (blank' c) (w.between_blank.2 c), ?_⟩
  have whole : w.written =
      front ++ (trim w.type ++ (back ++ w.between ++ (w.word ++ w.behind))) := by
    rw [written]
    conv_lhs => rw [type]
    simp only [List.append_assoc]
  have visible : IsTrimmed (trim w.type ++ (back ++ w.between ++ (w.word ++ w.behind))) := by
    constructor
    · intro c head
      rw [List.head?_append_of_ne_nil _ w.type_visible] at head
      exact (isTrimmed_trim w.type).head c head
    · intro c last
      apply line.last c
      rw [text, ← written, whole, ← List.append_assoc, ← List.append_assoc,
        List.getLast?_append_of_ne_nil]
      · exact last
      · exact List.append_ne_nil_of_left_ne_nil w.type_visible _
  rw [whole, trim_blank_append blank, trim_of_isTrimmed visible]

/-- So it does in the body of the tag, with more white space in front of what may follow. -/
theorem exists_body (line : IsTrimmed w.text) (rows : List (List Char)) :
    ∃ gap behind, gap ≠ [] ∧ (∀ c ∈ gap, isBlank c = true) ∧
      (∀ c ∈ behind.head?, isBlank c = true) ∧
      (joinBody (trim w.written :: rows)).toList = trim w.type ++ (gap ++ (w.word ++ behind)) := by
  obtain ⟨gap, apart, blank, first⟩ := exists_trim_written line
  have some : trim w.written ≠ [] := by
    rw [first]
    exact List.append_ne_nil_of_left_ne_nil w.type_visible _
  obtain ⟨more, body, ends⟩ := exists_joinBody some rows
  refine ⟨gap, w.behind ++ more, apart, blank, fun c head => ?_, ?_⟩
  · rw [List.head?_append] at head
    cases stands : w.behind.head? with
    | none =>
      rw [stands] at head
      exact ends c head
    | some d =>
      rw [stands] at head
      exact w.behind_apart c (stands.trans head)
  · rw [body, first]
    simp only [List.append_assoc]

theorem documentedParameter?_word {gap behind : List Char}
    (blank : ∀ c ∈ gap, isBlank c = true) (ends : ∀ c ∈ behind.head?, isBlank c = true) :
    documentedParameter? (gap ++ (w.word ++ behind)) = some w.name := by
  rw [documentedParameter?_eq, words_blank_append blank,
    words_solid_append word_ne_nil solid_word ends]
  exact parameterOfWord?_parameterWord w.byReference w.variadic w.name

/-- What is found for the parameter hangs on where the type is taken to end. -/
theorem exists_reading {raw : String} {before after : List (List Char)}
    (rows : rowsOf raw = before ++ w.text :: after)
    (only : ∀ row ∈ before ++ after, ¬ Opens "param" row) {asked : String}
    (named : stripFirst '$' asked.toList = w.name) :
    ∃ gap behind, gap ≠ [] ∧ (∀ c ∈ gap, isBlank c = true) ∧
      (∀ c ∈ behind.head?, isBlank c = true) ∧
      ∀ type rest, takeToken (trim w.type ++ (gap ++ (w.word ++ behind))) = (type, rest) →
        (parse raw).paramType? asked =
          if type.head? = some '$' then none
          else if documentedParameter? rest = some w.name then some (String.ofList (clean type))
          else none := by
  have among : w.text ∈ rowsOf raw := by simp [rows]
  obtain ⟨gap, behind, apart, blank, ends, body⟩ :=
    exists_body (isLine_of_mem_rowsOf among).1 (gather after).1
  refine ⟨gap, behind, apart, blank, ends, fun type rest taken => ?_⟩
  simp only [paramType?, tagsNamed_of_single rows only tagOfLine?_text, named,
    List.findSome?_singleton, paramTypeOfTag?, body]
  rw [taken]

end ParameterRow

/-- What is found as the type of a parameter that one row alone documents. A type that has all its
white space inside angle brackets, parentheses and braces, and closes these, is found whole, and
is read as the expression that stands there unless that starts with two backslashes. Otherwise the
type ends at the first white space outside brackets, and is found only if the parameter is named
right behind that; or it runs on over what follows a bracket that is left open. -/
theorem paramType?_row (w : ParameterRow) {raw : String} {before after : List (List Char)}
    (rows : rowsOf raw = before ++ w.text :: after)
    (only : ∀ row ∈ before ++ after, ¬ Opens "param" row) {asked : String}
    (named : stripFirst '$' asked.toList = w.name) :
    let e := trim w.type
    let found := (parse raw).paramType? asked
    (e.head? = some '$' → found = none) ∧
    (e.head? ≠ some '$' →
      (IsWhole e → found = some (String.ofList (clean w.type)) ∧
        (¬ "\\\\".toList <+: e → ∀ r : Resolver, r.resolve (clean w.type) = r.resolve w.type)) ∧
      (∀ type c more, e = type ++ c :: more → isBlank c = true → IsWhole type →
        found = if documentedParameter? more = some w.name then some (String.ofList (clean type))
          else none) ∧
      (IsEnclosed 0 e → 0 < enclosure e → ∀ type, found = some type →
        ∃ more, more ≠ [] ∧ type = String.ofList (clean (e ++ more)))) := by
  intro e found
  obtain ⟨gap, behind, apart, blank, ends, read⟩ := w.exists_reading rows only named
  have stops := head?_blank_append apart blank (w.word ++ behind)
  refine ⟨fun dollar => ?_, fun noDollar => ⟨fun whole => ⟨?_, ?_⟩, ?_, ?_⟩⟩
  · have first : (e ++ (gap ++ (w.word ++ behind))).head? = some '$' := by
      rw [List.head?_append_of_ne_nil e w.type_visible, dollar]
    exact (read _ _ rfl).trans (if_pos (head?_takeToken first (by decide)))
  · have named' : documentedParameter? (gap ++ (w.word ++ behind)) = some w.name :=
      ParameterRow.documentedParameter?_word blank ends
    exact (read e _ (whole.takeToken_append stops)).trans
      (by rw [if_neg noDollar, if_pos named', clean_trim])
  · exact fun single r => Resolver.resolve_clean r whole single
  · intro type c more cut outside whole
    have trimmed : IsTrimmed (type ++ c :: more) := cut ▸ isTrimmed_trim w.type
    obtain ⟨front, back⟩ := trimmed.inner outside
    have starts : type.head? ≠ some '$' := by
      rwa [cut, List.head?_append_of_ne_nil _ front] at noDollar
    have taken : takeToken (e ++ (gap ++ (w.word ++ behind))) =
        (type, c :: more ++ (gap ++ (w.word ++ behind))) := by
      rw [cut, List.append_assoc]
      refine whole.takeToken_append fun d head => ?_
      obtain rfl := Option.some.inj head
      exact outside
    exact (read _ _ taken).trans
      (by rw [if_neg starts, documentedParameter?_append outside back apart blank])
  · intro enclosed deep type same
    have some : gap ++ (w.word ++ behind) ≠ [] := List.append_ne_nil_of_left_ne_nil apart _
    obtain ⟨more, longer, taken⟩ := takeToken_open enclosed deep some
    refine ⟨more, longer, ?_⟩
    have same := (read _ _ rfl).symm.trans same
    rw [taken] at same
    split at same
    · cases same
    · split at same
      · exact (Option.some.inj same).symm
      · cases same

theorem paramType?_row_variadic :
    let w : ParameterRow :=
      { type := "\\App\\User|array<int, ?string>".toList
        byReference := true
        variadic := true
        name := "users".toList
        behind := " Those".toList }
    let raw := "/**\n * Saves.\n *\n * @param \\App\\User|array<int, ?string> &...$users Those\n" ++
      " *   to save.\n * @return void\n */"
    let before := [[], "Saves.".toList, []]
    let after := ["to save.".toList, "@return void".toList, []]
    (rowsOf raw = before ++ w.text :: after ∧ (∀ row ∈ before ++ after, ¬ Opens "param" row) ∧
      stripFirst '$' "$users".toList = w.name) ∧
    (parse raw).paramType? "$users" = some "App\\User|array<int, ?string>" ∧
    ∀ r : Resolver, r.resolve "App\\User|array<int, ?string>".toList = r.resolve w.type := by
  intro w raw before after
  have rows : rowsOf raw = before ++ w.text :: after := by decide +kernel
  have only : ∀ row ∈ before ++ after, ¬ Opens "param" row := by decide
  have named : stripFirst '$' "$users".toList = w.name := by decide
  have read := (paramType?_row w rows only named).2 (by decide)
  have whole : IsWhole (trim w.type) := by decide
  obtain ⟨found, same⟩ := read.1 whole
  have cleaned : clean w.type = "App\\User|array<int, ?string>".toList := by decide
  rw [cleaned] at found same
  exact ⟨⟨rows, only, named⟩, found, same (by decide)⟩

theorem paramType?_row_callable :
    let raw := "/** @param callable(int): void $cb */"
    (parse raw).tags = [⟨"param", "callable(int): void $cb"⟩] ∧
    (∀ r : Resolver, r.resolve "callable(int): void".toList = .scalar "callable") ∧
    (parse raw).paramType? "cb" = none := by
  intro raw
  refine ⟨by decide +kernel, fun r => ?_, by decide +kernel⟩
  let signature := "callable(int): void".toList
  have single : splitUnion signature = [signature] := by decide
  have cleaned : clean signature = "callable".toList ++ "(int): void".toList := by decide
  have word : ∀ c ∈ "callable".toList, Ty.isWordChar c = true := by decide
  have last : ∀ c ∈ signature.getLast?, c ≠ ')' ∧ c ≠ ']' := by decide
  have read : r.resolveToken signature = some (.scalar "callable") :=
    Resolver.resolveToken_of_base r cleaned (by decide) word (by decide) last
  rw [Resolver.resolve_token single, read]
  rfl

end PhpSymbols.Docblock
