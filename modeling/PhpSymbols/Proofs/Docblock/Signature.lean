import PhpSymbols.Proofs.Docblock.Heading
import PhpSymbols.Proofs.Docblock.Parameter

/-!
# Written signatures

* `listOfText_intercalate`: items behind commas and spaces are read one by one;
* `WrittenParameter`, `WrittenParameter.ofItem?_text`: parameters that are read as they are meant;
* `Signature`, `methodTags_written`: and so are the methods that are written with them.
-/

namespace PhpSymbols.MethodTagParameter
open Text Ty.Expression MethodTag Docblock

/-! ### Lists -/

theorem intercalate_comma_space (s : List Char) (rest : List (List Char)) :
    ", ".toList.intercalate (s :: rest) = [','].intercalate (s :: rest.map (' ' :: ·)) := by
  induction rest generalizing s with
  | nil => rw [List.map_nil, List.intercalate_singleton, List.intercalate_singleton]
  | cons t rest ih =>
    have spaced := intercalate_append_cons [' '] t (rest.map (' ' :: ·))
    rw [List.map_cons, List.intercalate_cons_cons, List.intercalate_cons_cons, ih t,
      ← List.singleton_append (x := ' ') (l := t), spaced]
    simp

theorem trim_space (s : List Char) : trim (' ' :: s) = trim s :=
  trim_blank_append (a := [' ']) (by decide) s

theorem ofItem?_space (s : List Char) : ofItem? (' ' :: s) = ofItem? s := by
  rw [ofItem?, ofItem?, trim_space]

/-- Items behind commas and spaces are read one by one. -/
theorem listOfText_intercalate {items : List (List Char)} (each : ∀ s ∈ items, IsItem s) :
    listOfText (", ".toList.intercalate items) = items.filterMap ofItem? := by
  cases items with
  | nil => rfl
  | cons s rest =>
    have behind : ∀ t ∈ rest.map (' ' :: ·), IsItem t := List.forall_mem_map.2 fun t mem =>
      (each t (List.mem_cons_of_mem s mem)).cons (by decide) (by decide)
    have first := each s List.mem_cons_self
    have parts := splitTop_cons_items behind first.undivided (.inr first.closed)
    rw [intercalate_comma_space, listOfText_eq, parts, List.filterMap_cons, List.filterMap_cons,
      List.filterMap_map]
    simp only [Function.comp_def, ofItem?_space]

/-! ### Parameters -/

/-- A parameter in parts. The type is empty if there is none. -/
structure WrittenParameter where
  type : List Char := []
  byReference : Bool := false
  variadic : Bool := false
  name : List Char
  initial : Option (List Char) := none
  trimmed : IsTrimmed type := by decide
  cleaned : clean type = type := by decide
  item : IsItem type := by decide
  plain : '=' ∉ type := by decide
  unmarked : type.getLast? ≠ some '&' := by decide
  named : name ≠ [] := by decide
  solid : ∀ c ∈ name, isBlank c = false := by decide
  flat : ∀ c ∈ name, isBracket c = false := by decide
  unstopped : '$' ∉ name ∧ '=' ∉ name ∧ ',' ∉ name := by decide
  initial_trimmed : ∀ s ∈ initial, IsTrimmed s := by decide
  initial_item : ∀ s ∈ initial, IsItem s := by decide

namespace WrittenParameter

def text (w : WrittenParameter) : List Char :=
  spaced w.type ++ (parameterWord w.byReference w.variadic w.name ++
    (w.initial.elim [] (" = ".toList ++ ·)))

def parameter (w : WrittenParameter) : MethodTagParameter where
  name := String.ofList w.name
  ty := given? w.type
  initial := w.initial.map String.ofList
  isVariadic := w.variadic
  isReference := w.byReference

variable (w : WrittenParameter)

/-! #### The marks in front of the name -/

/-- What stands in front of the dots. -/
def value : List Char := spaced w.type ++ if w.byReference then ['&'] else []

def front : List Char := w.value ++ if w.variadic then "...".toList else []

/-- The type with the mark of a reference. -/
def core : List Char := if w.byReference then w.value else w.type

theorem not_suffix_of_last {s : List Char} (last : ∀ c ∈ s.getLast?, c ≠ '.') :
    ¬ "...".toList <:+ s := by
  rintro ⟨front, rfl⟩
  exact last '.' (by simp) rfl

/-- A cleaned type does not end in a full stop. -/
theorem last_type : ∀ c ∈ w.type.getLast?, c ≠ '.' := by
  rintro c last rfl
  have some : w.type ≠ [] := by
    rintro none
    rw [none] at last
    cases last
  have cleaned := w.cleaned
  rw [clean_eq] at cleaned
  have kept := List.rdropWhile_last_not isStop (stripFirst '\\' (trim w.type)) (by rwa [cleaned])
  simp only [cleaned] at kept
  rw [List.getLast?_eq_some_getLast some] at last
  rw [Option.some.inj last] at kept
  exact kept rfl

/-- Nor does what stands in front of the dots: it ends in the mark of a reference or in a space. -/
theorem last_value : ∀ c ∈ w.value.getLast?, c ≠ '.' := by
  intro c last
  rw [value] at last
  split at last
  · rw [List.getLast?_concat] at last
    obtain rfl := Option.some.inj last
    decide
  · rw [List.append_nil, spaced] at last
    split at last
    · cases last
    · rw [List.getLast?_concat] at last
      obtain rfl := Option.some.inj last
      decide

theorem last_core : ∀ c ∈ w.core.getLast?, c ≠ '.' := by
  rw [core]
  split
  · exact w.last_value
  · exact w.last_type

theorem trimStart_value : trimStart w.value = w.value := by
  apply dropWhile_of_visible
  intro c head
  rw [value, List.head?_append, head?_spaced] at head
  cases first : w.type.head? with
  | some d =>
    rw [first] at head
    exact w.trimmed.head c (first.trans head)
  | none =>
    rw [first] at head
    split at head
    · obtain rfl := Option.some.inj head
      decide
    · cases head

theorem trimEnd_type : trimEnd w.type = w.type := by
  have whole := trim_of_isTrimmed w.trimmed
  rwa [trim, trimStart, dropWhile_of_visible w.trimmed.head] at whole

theorem trimEnd_spaced : trimEnd (spaced w.type) = w.type := by
  have visible : ∀ c ∈ (spaced w.type).head?, isBlank c = false := by
    rw [head?_spaced]
    exact w.trimmed.head
  have same := trim_spaced w.type
  rwa [trim, trimStart, dropWhile_of_visible visible, trim_of_isTrimmed w.trimmed] at same

theorem trimEnd_value : trimEnd w.value = w.core := by
  rw [core, value]
  split
  · exact trimEnd_append_cons (by decide) (spaced w.type) []
  · rw [List.append_nil, trimEnd_spaced]

theorem trim_front : trim w.front = if w.variadic then w.value ++ "...".toList else w.core := by
  rw [front]
  split
  · have dots := trim_append_cons (c := '.') (by decide) w.value "..".toList
    rw [trimStart_value] at dots
    exact dots
  · rw [List.append_nil, trim, trimStart_value, trimEnd_value]

theorem isSuffixOf_front : "...".toList.isSuffixOf (trim w.front) = w.variadic := by
  rw [trim_front]
  cases w.variadic with
  | true => exact List.isSuffixOf_iff_suffix.2 (List.suffix_append _ _)
  | false =>
    rw [if_neg (by simp)]
    exact Bool.eq_false_iff.2 fun dots =>
      not_suffix_of_last w.last_core (List.isSuffixOf_iff_suffix.1 dots)

/-- Without the dots what is left is the type and the mark of a reference. -/
theorem byValue_front : trimEnd (trimEndMatches "...".toList (trim w.front)) = w.core := by
  rw [trim_front]
  split
  · rw [trimEndMatches_append (by decide),
      trimEndMatches_of_not_suffix (not_suffix_of_last w.last_value), trimEnd_value]
  · rw [trimEndMatches_of_not_suffix (not_suffix_of_last w.last_core), ← trimEnd_value]
    exact List.rdropWhile_idempotent isBlank w.value

theorem last_core_eq : (w.core.getLast? == some '&') = w.byReference := by
  rw [core]
  cases marked : w.byReference with
  | true => simp [value, marked]
  | false => simpa using w.unmarked

/-- And without that mark, the type. -/
theorem type_core : trimEnd (trimEndWhile (· == '&') w.core) = w.type := by
  rw [core]
  split
  · rename_i marked
    -- The space behind the type keeps a mark at its end from going with this one.
    have kept : trimEndWhile (· == '&') (spaced w.type) = spaced w.type := by
      rw [spaced]
      split
      · rfl
      · exact List.rdropWhile_concat_neg _ _ _ (by decide)
    have mark : trimEndWhile (· == '&') w.value = trimEndWhile (· == '&') (spaced w.type) := by
      rw [value, if_pos marked]
      exact rdropWhile_append_of_pos (by simp) _
    rw [mark, kept, trimEnd_spaced]
  · have kept : trimEndWhile (· == '&') w.type = w.type := by
      refine List.rdropWhile_eq_self_iff.2 fun some => ?_
      have unmarked := w.unmarked
      rw [List.getLast?_eq_some_getLast some] at unmarked
      simpa using unmarked
    rw [kept, trimEnd_type]

theorem ofFront_front : ofFront w.front w.name = { w.parameter with initial := none } := by
  have ty : (if w.type.isEmpty then none else some (String.ofList (clean w.type))) =
      given? w.type := by
    rw [given?, w.cleaned]
    simp only [List.isEmpty_iff]
  simp only [ofFront, byValue_front, isSuffixOf_front, last_core_eq, type_core, ty]
  rfl

/-! #### The parts -/

theorem isItem_front : IsItem w.front := by
  have type : IsItem (spaced w.type) := by
    rw [spaced]
    split
    · decide
    · exact w.item.append (by decide)
  have marks : IsItem (if w.byReference then ['&'] else []) ∧
      IsItem (if w.variadic then "...".toList else []) := by
    constructor <;> split <;> decide
  exact (type.append marks.1).append marks.2

theorem notMem_front : '=' ∉ w.front := by
  intro mem
  rcases List.mem_append.1 mem with value | dots
  · rcases List.mem_append.1 value with type | mark
    · exact (mem_spaced type).elim w.plain (by decide)
    · split at mark <;> exact absurd mark (by decide)
  · split at dots <;> exact absurd dots (by decide)

/-- In front of a default stands a space. -/
def gap : List Char := if w.initial.isSome then [' '] else []

theorem mem_gap {c : Char} (mem : c ∈ w.gap) : c = ' ' := by
  rw [gap] at mem
  split at mem
  · exact List.mem_singleton.1 mem
  · cases mem

theorem trim_name : trim (w.name ++ w.gap) = w.name := by
  rw [trim_append_blank fun c mem => w.mem_gap mem ▸ rfl]
  apply trim_of_isTrimmed
  exact ⟨fun c head => w.solid c (List.mem_of_mem_head? head),
    fun c last => w.solid c (List.mem_of_getLast? last)⟩

theorem notMem_name {c : Char} (name : c ∉ w.name) (visible : c ≠ ' ') : c ∉ w.name ++ w.gap := by
  rw [List.mem_append, not_or]
  exact ⟨name, fun mem => visible (w.mem_gap mem)⟩

theorem isItem_name : IsItem (w.name ++ w.gap) := by
  apply isItem_of_plain
  intro c mem
  rcases List.mem_append.1 mem with name | gap
  · exact ⟨w.flat c name, fun comma => w.unstopped.2.2 (comma ▸ name)⟩
  · rw [w.mem_gap gap]
    decide

def part : Part where
  front := w.front
  name := w.name ++ w.gap
  initial := w.initial.map (' ' :: ·)
  named := w.trim_name.symm ▸ w.named
  single := w.notMem_name w.unstopped.1 (by decide)
  plain := by
    rw [List.mem_append, List.mem_cons, not_or, not_or]
    exact ⟨w.notMem_front, by decide, w.notMem_name w.unstopped.2.1 (by decide)⟩
  item := w.isItem_front.append (w.isItem_name.cons (by decide) (by decide))
  initial_item := by
    intro s mem
    obtain ⟨initial, given, rfl⟩ := Option.map_eq_some_iff.1 mem
    exact (w.initial_item initial given).cons (by decide) (by decide)

theorem text_part : w.part.text = w.text := by
  simp only [Part.text, Part.declaration, part, text, front, value, parameterWord, gap]
  cases w.initial <;> simp [withInitial]

theorem isItem_text : IsItem w.text := w.text_part ▸ w.part.isItem_text

/-- A parameter is read as it is meant. -/
theorem ofItem?_text : ofItem? w.text = some w.parameter := by
  have initial : (w.initial.map (' ' :: ·)).map (fun s => String.ofList (trim s)) =
      w.initial.map String.ofList := by
    cases given : w.initial with
    | none => rfl
    | some s =>
      have bare := trim_of_isTrimmed (w.initial_trimmed s given)
      rw [← trim_space] at bare
      exact congrArg (some ∘ String.ofList) bare
  rw [← text_part, Part.ofItem?_text, Part.parameter]
  simp only [part, trim_name, ofFront_front, initial]
  rfl

end WrittenParameter
end PhpSymbols.MethodTagParameter

namespace PhpSymbols.MethodTag
open Text MethodTagParameter

/-! ### Signatures -/

structure Signature where
  heading : Heading
  parameters : List WrittenParameter := []

namespace Signature
variable (s : Signature)

def text : List Char :=
  withParentheses s.heading.text
    (", ".toList.intercalate (s.parameters.map WrittenParameter.text))

def tag : MethodTag :=
  { s.heading.tag with parameters := s.parameters.map WrittenParameter.parameter }

theorem methodsOf_text : methodsOf s.text = [s.tag] := by
  have items : ∀ t ∈ s.parameters.map WrittenParameter.text, IsItem t :=
    List.forall_mem_map.2 fun w _ => w.isItem_text
  have parameters : listOfText (", ".toList.intercalate (s.parameters.map WrittenParameter.text)) =
      s.parameters.map WrittenParameter.parameter := by
    rw [listOfText_intercalate items, List.filterMap_map, ← List.filterMap_eq_map]
    exact congrArg (List.filterMap · s.parameters) (funext WrittenParameter.ofItem?_text)
  rw [text, methodsOf_withParentheses s.heading.notMem_text, s.heading.ofHead?_text, parameters]
  rfl

end Signature

/-- Written signatures are read as what they are written from. -/
theorem methodTags_written (d : Docblock) (signatures : List Signature)
    (bodies : (d.tagsNamed "method").map (·.body.toList) = signatures.map Signature.text) :
    d.methodTags = signatures.map Signature.tag := by
  calc d.methodTags
    _ = ((d.tagsNamed "method").map (·.body.toList)).flatMap methodsOf := by
      rw [methodTags_eq, List.flatMap_map]
    _ = signatures.flatMap fun s => [s.tag] := by
      rw [bodies, List.flatMap_map]
      exact congrArg (signatures.flatMap ·) (funext Signature.methodsOf_text)
    _ = signatures.map Signature.tag := List.map_eq_flatMap.symm

theorem methodTags_written_collection :
    (Docblock.parse "/**
      * @method static Collection<int, User> where(string $column, &...$values,
      *   array &$out = ['a', ''])
      * @method refresh()
      */").methodTags =
      [{ name := "where", isStatic := true, returnType := some "Collection<int, User>",
         parameters := [{ name := "column", ty := some "string" },
           { name := "values", isVariadic := true, isReference := true },
           { name := "out", ty := some "array", initial := some "['a', '']",
             isReference := true }] },
        { name := "refresh" }] := by
  let found : Signature :=
    { heading :=
        { isStatic := true, type := "Collection<int, User>".toList, name := "where".toList }
      parameters := [{ type := "string".toList, name := "column".toList },
        { byReference := true, variadic := true, name := "values".toList },
        { type := "array".toList, byReference := true, name := "out".toList,
          initial := some "['a', '']".toList }] }
  let renewed : Signature := { heading := { name := "refresh".toList } }
  exact methodTags_written _ [found, renewed] (by decide +kernel)

/-- A tab parts the keyword from the type as well, and a type that is empty is none. -/
theorem methodTags_written_tab :
    let type := "static\tint".toList
    IsTrimmed type ∧ Ty.Expression.clean type = type ∧ '(' ∉ type ∧ type ≠ "static".toList ∧
    ¬ "static ".toList <+: type ∧
    methodsOf (type ++ " f()".toList) =
      [{ name := "f", isStatic := true, returnType := some "int" }] ∧
    methodsOf ([] ++ " f(".toList ++ [] ++ " $a)".toList) =
      [{ name := "f", parameters := [{ name := "a" }] }] := by
  dsimp only
  rw [methodsOf_eq, methodsOf_eq]
  exact ⟨by decide, by decide, by decide, by decide, by decide, by decide +kernel,
    by decide +kernel⟩

end PhpSymbols.MethodTag
