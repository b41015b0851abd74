import PhpSymbols.Proofs.Docblock.Initial
import PhpSymbols.Proofs.Ty.Leading
import PhpSymbols.Proofs.Ty.Printing

/-!
# Headings of methods and what follows them

* `methodsOf`, `methodTags_eq`: a comment declares what its tags declare, each on its own;
* `ofHead?`, `ofBody?_append`: the first opening parenthesis ends the heading, and the rest of the
  tag is about the parameters only;
* `Heading`, `Heading.ofHead?_text`: headings that are read as they are meant;
* `withParentheses`, `methodsOf_append`: the last closing parenthesis ends the parameters;
* `methodsOf_described`: what a description behind the signature changes.
-/

namespace PhpSymbols.MethodTag
open Text Ty.Expression MethodTagParameter

/-- What a tag with that body declares. -/
def methodsOf (body : List Char) : List MethodTag :=
  ({ tags := [⟨"method", String.ofList body⟩] } : Docblock).methodTags

theorem methodsOf_eq (body : List Char) : methodsOf body = (ofBody? body).toList := by
  have named (tag : Tag) (here : tag.name = "method") :
      ({ tags := [tag] } : Docblock).tagsNamed "method" = [tag] :=
    List.filter_cons_of_pos (by simpa using here)
  rw [methodsOf, Docblock.methodTags, named _ rfl]
  dsimp only [List.filterMap_cons, List.filterMap_nil]
  rw [String.toList_ofList]
  cases ofBody? body <;> rfl

theorem methodTags_eq (d : Docblock) :
    d.methodTags = (d.tagsNamed "method").flatMap fun tag => methodsOf tag.body.toList := by
  simp only [methodsOf_eq, Docblock.methodTags, List.filterMap_eq_flatMap_toList]

/-! ### The first opening parenthesis -/

/-- The method that a heading declares, with no parameters yet. -/
def ofHead? (head : List Char) : Option MethodTag :=
  let (isStatic, rest) := splitStatic (trimStart head)
  let (type, name) := splitName (trim rest)
  if isName name then
    some {
      name := String.ofList name
      isStatic := isStatic
      returnType := (type.filter (!·.isEmpty)).map String.ofList }
  else none

/-- The keyword does not reach over the parenthesis. -/
theorem splitStatic_append (s after : List Char) :
    splitStatic (s ++ '(' :: after) = ((splitStatic s).1, (splitStatic s).2 ++ '(' :: after) := by
  rw [splitStatic, splitStatic, behind?_append_cons (by decide)]
  cases behind? "static".toList s with
  | none => rfl
  | some rest =>
    cases rest with
    | nil => rfl
    | cons c rest =>
      simp only [Option.map_some, List.cons_append]
      split
      · rw [← List.cons_append, trimStart_append_cons (by decide)]
      · rfl

theorem splitStatic_suffix (s : List Char) : (splitStatic s).2 <:+ s := by
  rw [splitStatic]
  split
  · rename_i c rest found
    split
    · exact (List.dropWhile_suffix _).trans ⟨_, (behind?_eq_some_iff.1 found).symm⟩
    · exact List.suffix_refl s
  · exact List.suffix_refl s

theorem parameterText_trimEnd (after : List Char) :
    parameterText (trimEnd after) = parameterText after := by
  rw [parameterText, parameterText]
  cases found : splitOnceLast ')' after with
  | none =>
    have absent : ')' ∉ trimEnd after := fun mem =>
      splitOnceLast_eq_none_iff.1 found ((List.rdropWhile_prefix _ _).subset mem)
    rw [splitOnceLast_eq_none_iff.2 absent]
    exact trim_trimEnd after
  | some cut =>
    obtain ⟨whole, last⟩ := splitOnceLast_eq_some_iff.1 found
    have last' : ')' ∉ trimEnd cut.2 := fun mem => last ((List.rdropWhile_prefix _ _).subset mem)
    rw [whole, trimEnd_append_cons (by decide), splitOnceLast_append last']

theorem ofBody?_append {head : List Char} (plain : '(' ∉ head) (after : List Char) :
    ofBody? (head ++ '(' :: after) =
      (ofHead? head).map ({ · with parameters := listOfText (parameterText after) }) := by
  have plain' : '(' ∉ (splitStatic (trimStart head)).2 := fun mem =>
    plain (((splitStatic_suffix _).trans (List.dropWhile_suffix _)).subset mem)
  rw [ofBody?, ofHead?, trim_append_cons (by decide), splitStatic_append]
  dsimp only
  rw [splitOnce_append plain', Option.bind_eq_bind, Option.bind_some, parameterText_trimEnd]
  dsimp only
  split <;> rfl

theorem solid_of_isName {name : List Char} (named : isName name = true) :
    ∀ c ∈ name, isBlank c = false := by
  intro c mem
  have word := List.all_eq_true.1 (Bool.and_eq_true_iff.1 named).2 c mem
  apply Ty.not_isBlank_of_isWritten
  rcases Bool.or_eq_true_iff.1 word with line | letter
  · rw [beq_iff_eq.1 line]
    rfl
  · simp [Ty.isWritten, Ty.isWordChar, letter]

/-! ### Headings -/

/-- The text with a space behind it, if there is any. -/
def spaced (s : List Char) : List Char := if s = [] then [] else s ++ [' ']

theorem trim_spaced (s : List Char) : trim (spaced s) = trim s := by
  rw [spaced]
  split
  · rename_i none
    rw [none]
  · exact trim_append_blank (b := [' ']) (by decide) s

theorem head?_spaced (s : List Char) : (spaced s).head? = s.head? := by
  rw [spaced]
  split
  · rename_i none
    rw [none]
  · rename_i some
    exact List.head?_append_of_ne_nil s some

theorem mem_spaced {c : Char} {s : List Char} (mem : c ∈ spaced s) : c ∈ s ∨ c = ' ' := by
  rw [spaced] at mem
  split at mem
  · cases mem
  · simpa using mem

/-- The text, if there is any. -/
def given? (s : List Char) : Option String := if s = [] then none else some (String.ofList s)

/-- The text is the keyword, or starts with it and white space. -/
def OpensStatic (s : List Char) : Prop :=
  ∃ rest, s = "static".toList ++ rest ∧ ∀ c ∈ rest.head?, isBlank c = true

instance (s : List Char) : Decidable (OpensStatic s) :=
  decidable_of_iff ((behind? "static".toList s).any (·.head?.all isBlank) = true) (by
    simp only [Option.any_eq_true, Option.all_eq_true, behind?_eq_some_iff]
    rfl)

/-- A heading in parts. The type is empty if there is none. -/
structure Heading where
  isStatic : Bool := false
  type : List Char := []
  name : List Char
  trimmed : IsTrimmed type := by decide
  cleaned : clean type = type := by decide
  plain : '(' ∉ type := by decide
  told : isStatic = true ∨ ¬ OpensStatic type := by decide
  named : isName name = true := by decide

namespace Heading

def unmarked (h : Heading) : List Char := spaced h.type ++ h.name

def text (h : Heading) : List Char :=
  if h.isStatic then "static".toList ++ ' ' :: h.unmarked else h.unmarked

/-- The method with no parameters yet. -/
def tag (h : Heading) : MethodTag where
  name := String.ofList h.name
  isStatic := h.isStatic
  returnType := given? h.type

variable (h : Heading)

theorem name_ne_nil : h.name ≠ [] := by
  intro none
  have named := h.named
  rw [none] at named
  cases named

theorem solid_name : ∀ c ∈ h.name, isBlank c = false := solid_of_isName h.named

theorem isTrimmed_unmarked : IsTrimmed h.unmarked := by
  constructor
  · intro c head
    rw [unmarked, spaced] at head
    split at head
    · exact h.solid_name c (List.mem_of_mem_head? head)
    · rename_i some
      rw [List.append_assoc, List.head?_append_of_ne_nil _ some] at head
      exact h.trimmed.head c head
  · intro c last
    rw [unmarked, List.getLast?_append_of_ne_nil _ h.name_ne_nil] at last
    exact h.solid_name c (List.mem_of_getLast? last)

theorem notMem_text : '(' ∉ h.text := by
  have name : '(' ∉ h.name := by
    intro mem
    have word := List.all_eq_true.1 (Bool.and_eq_true_iff.1 h.named).2 _ mem
    exact absurd word (by decide)
  have unmarked : '(' ∉ h.unmarked := by
    intro mem
    rcases List.mem_append.1 mem with front | back
    · exact (mem_spaced front).elim h.plain (by decide)
    · exact name back
  rw [text]
  split
  · simpa using unmarked
  · exact unmarked

/-- The keyword with white space behind it reaches neither into the name nor over the space in
front of the name. -/
theorem opensStatic_of_unmarked {c : Char} {rest : List Char}
    (whole : h.unmarked = "static".toList ++ c :: rest) (blank : isBlank c = true) :
    OpensStatic h.type := by
  rw [unmarked, spaced] at whole
  split at whole
  · have inside : c ∈ h.name := by
      rw [List.nil_append] at whole
      simp [whole]
    exact absurd (h.solid_name c inside) (by simp [blank])
  · rw [List.append_assoc] at whole
    rcases List.append_eq_append_iff.1 whole with ⟨u, word, after⟩ | ⟨u, type, after⟩
    · cases u with
      | nil => exact ⟨[], by simpa using word.symm, nofun⟩
      | cons d u =>
        obtain ⟨rfl, -⟩ := List.cons.inj after
        have space : ' ' ∈ "static".toList := by simp [word]
        exact absurd space (by decide)
    · refine ⟨u, type, fun d head => ?_⟩
      obtain ⟨u, rfl⟩ := List.head?_eq_some_iff.1 head
      obtain ⟨rfl, -⟩ := List.cons.inj after
      exact blank

theorem splitStatic_text : splitStatic (trimStart h.text) = (h.isStatic, h.unmarked) := by
  have start : trimStart h.unmarked = h.unmarked := dropWhile_of_visible h.isTrimmed_unmarked.head
  rw [text]
  cases marked : h.isStatic with
  | false =>
    rw [if_neg (by simp), start, splitStatic]
    split
    · rename_i c rest found
      refine if_neg fun blank => ?_
      have opens := h.opensStatic_of_unmarked (behind?_eq_some_iff.1 found) blank
      exact h.told.elim (by simp [marked]) (absurd opens)
    · rfl
  | true =>
    change (true, trimStart h.unmarked) = _
    rw [start]

theorem splitName_unmarked :
    splitName h.unmarked = (if h.type = [] then none else some h.type, h.name) := by
  have solid : ∀ c ∈ h.name.reverse, isBlank c = false :=
    fun c mem => h.solid_name c (List.mem_reverse.1 mem)
  by_cases none : h.type = []
  · rw [splitName, unmarked, spaced, if_pos none, if_pos none, List.nil_append,
      ← List.append_nil h.name.reverse, breakOn_append solid (by simp)]
    dsimp only
    rw [List.reverse_reverse]
  · have cleaned : clean (h.type ++ [' ']) = h.type := by
      have same := trim_spaced h.type
      rw [spaced, if_neg none] at same
      rw [← clean_trim, same, clean_trim, h.cleaned]
    have back : h.unmarked.reverse = h.name.reverse ++ ' ' :: h.type.reverse := by
      simp [unmarked, spaced, none]
    have space : ∀ c ∈ (' ' :: h.type.reverse).head?, isBlank c = true := by
      intro c head
      obtain rfl := Option.some.inj head
      decide
    rw [splitName, back, breakOn_append solid space, if_neg none]
    simp [cleaned]

/-- A heading is read as it is meant. -/
theorem ofHead?_text : ofHead? h.text = some h.tag := by
  rw [ofHead?, splitStatic_text]
  dsimp only
  rw [trim_of_isTrimmed h.isTrimmed_unmarked, splitName_unmarked]
  dsimp only
  rw [if_pos h.named, tag, given?]
  by_cases none : h.type = []
  · rw [if_pos none, if_pos none]
    rfl
  · rw [if_neg none, if_neg none, Option.filter_some, if_pos (by simpa using none)]
    rfl

end Heading

/-! ### The last closing parenthesis -/

/-- A heading, and behind it the text in parentheses. -/
def withParentheses (head inside : List Char) : List Char := head ++ '(' :: (inside ++ [')'])

theorem listOfText_parameterText {behind : List Char} (last : ')' ∉ behind) (inside : List Char) :
    listOfText (parameterText (inside ++ ')' :: behind)) = listOfText inside := by
  rw [parameterText, splitOnceLast_append last]
  exact congrArg (List.filterMap ofText?) (splitCommas_trim inside)

/-- What stands inside the last closing parenthesis is read as the parameters. -/
theorem methodsOf_append {head behind : List Char} (plain : '(' ∉ head) (last : ')' ∉ behind)
    (inside : List Char) :
    methodsOf (withParentheses head inside ++ behind) =
      ((ofHead? head).map ({ · with parameters := listOfText inside })).toList := by
  have whole : withParentheses head inside ++ behind =
      head ++ '(' :: (inside ++ ')' :: behind) := by simp [withParentheses]
  rw [whole, methodsOf_eq, ofBody?_append plain, listOfText_parameterText last]

theorem methodsOf_withParentheses {head : List Char} (plain : '(' ∉ head) (inside : List Char) :
    methodsOf (withParentheses head inside) =
      ((ofHead? head).map ({ · with parameters := listOfText inside })).toList := by
  rw [← methodsOf_append plain List.not_mem_nil, List.append_nil]

/-- Text behind a list goes on with its last item, and the ones in front stay. -/
theorem dropLast_listOfText_prefix (s t : List Char) :
    (listOfText s).dropLast <+: listOfText (s ++ t) := by
  obtain ⟨parts, last, found⟩ := exists_last_splitTop ',' s 0
  obtain ⟨first, rest, run⟩ := List.exists_cons_of_ne_nil (splitTop_ne_nil ',' t (0 + depth s))
  rw [listOfText_eq, listOfText_eq, splitTop_append (by decide) found run, found,
    List.filterMap_append, List.filterMap_append]
  refine List.IsPrefix.trans ?_ (List.prefix_append _ _)
  rw [List.filterMap_cons, List.filterMap_nil]
  cases ofItem? last with
  | none =>
    rw [List.append_nil]
    exact List.dropLast_prefix _
  | some p => rw [List.dropLast_concat]

/-- A description without closing parentheses changes nothing. One with such keeps the name, the
return type and whether the method is static, but the parameters are then read from all the text in
front of the last of them, and only those before the last are sure to stay. -/
theorem methodsOf_described {head : List Char} (plain : '(' ∉ head)
    (inside description : List Char) :
    (∀ h : Heading, head = h.text →
      methodsOf (withParentheses head inside) =
        [{ h.tag with parameters := listOfText inside }]) ∧
    (')' ∉ description →
      methodsOf (withParentheses head inside ++ ' ' :: description) =
        methodsOf (withParentheses head inside)) ∧
    ∀ front back, description = front ++ ')' :: back → ')' ∉ back →
      methodsOf (withParentheses head inside ++ ' ' :: description) =
        (methodsOf (withParentheses head inside)).map
          ({ · with parameters := listOfText (inside ++ ')' :: ' ' :: front) }) ∧
      ∀ t ∈ methodsOf (withParentheses head inside),
        t.parameters.dropLast <+: listOfText (inside ++ ')' :: ' ' :: front) := by
  rw [methodsOf_withParentheses plain]
  refine ⟨?_, ?_, ?_⟩
  · rintro h rfl
    rw [h.ofHead?_text]
    rfl
  · intro absent
    have last : ')' ∉ ' ' :: description := by simp [absent]
    rw [methodsOf_append plain last]
  · rintro front back rfl last
    have whole : withParentheses head inside ++ ' ' :: (front ++ ')' :: back) =
        withParentheses head (inside ++ ')' :: ' ' :: front) ++ back := by simp [withParentheses]
    rw [whole, methodsOf_append plain last]
    cases ofHead? head with
    | none => exact ⟨rfl, nofun⟩
    | some t =>
      refine ⟨rfl, fun t' mem => ?_⟩
      obtain rfl := List.mem_singleton.1 mem
      exact dropLast_listOfText_prefix inside _

theorem methodsOf_described_plain :
    methodsOf "static array<int, A> all(string $key, int $n = f(1)) All of them, in order".toList =
      [{ name := "all", isStatic := true, returnType := some "array<int, A>",
         parameters := [{ name := "key", ty := some "string" },
           { name := "n", ty := some "int", initial := some "f(1)" }] }] := by
  let h : Heading :=
    { isStatic := true, type := "array<int, A>".toList, name := "all".toList }
  have inside : listOfText "string $key, int $n = f(1)".toList =
      [{ name := "key", ty := some "string" },
        { name := "n", ty := some "int", initial := some "f(1)" }] := by decide +kernel
  obtain ⟨known, same, -⟩ := methodsOf_described (by decide : '(' ∉ h.text)
    "string $key, int $n = f(1)".toList "All of them, in order".toList
  refine ((same (by decide)).trans (known h rfl)).trans ?_
  rw [inside]
  rfl

/-- A word in parentheses ends up in the name of the parameter. -/
theorem methodsOf_described_parentheses :
    methodsOf "int f(int $a)".toList =
      [{ name := "f", returnType := some "int",
         parameters := [{ name := "a", ty := some "int" }] }] ∧
    methodsOf "int f(int $a) see (docs)".toList =
      [{ name := "f", returnType := some "int",
         parameters := [{ name := "a) see (docs", ty := some "int" }] }] := by
  rw [methodsOf_eq, methodsOf_eq]
  exact ⟨by decide +kernel, by decide +kernel⟩

end PhpSymbols.MethodTag
