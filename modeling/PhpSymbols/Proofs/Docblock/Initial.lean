import PhpSymbols.Proofs.Ty.Brackets
import PhpSymbols.Docblock.MemberTag
import PhpSymbols.Proofs.Text.Separated
import PhpSymbols.Proofs.Text.Words

/-!
# Parameters between commas

* `IsItem`, `splitTop_items`: texts that stay in one piece between commas;
* `ofFront`: the parameter that a declaration with a dollar sign is read as;
* `Part`: a parameter in a list, and `Part.ofItem?_initial`, what its declaration is read as with
  any default;
* `listOfText_parts`: each part of a list is read on its own;
* `splitTop_cons_items`, `isUndivided_of_trim_eq`: the texts that are all of the first item, with
  others behind them;
* `listOfText_initial`: the defaults that leave the other parameters of a list as they are.
-/

namespace PhpSymbols.MethodTagParameter
open Text Ty.Expression

/-! ### Items -/

/-- Between commas the text stays in one piece: it has no comma outside brackets, and it ends as
deep as it starts. -/
structure IsItem (s : List Char) : Prop where
  undivided : IsUndivided ',' s
  closed : depth s = 0

instance (s : List Char) : Decidable (IsItem s) :=
  decidable_of_iff (IsUndivided ',' s ∧ depth s = 0) ⟨fun h => ⟨h.1, h.2⟩, fun h => ⟨h.1, h.2⟩⟩

theorem isItem_of_plain {s : List Char} (plain : ∀ c ∈ s, isBracket c = false ∧ c ≠ ',') :
    IsItem s :=
  ⟨isUndivided_of_notMem fun mem => (plain _ mem).2 rfl,
    depth_of_plain fun c mem => (plain c mem).1⟩

theorem IsItem.append {s t : List Char} (hs : IsItem s) (ht : IsItem t) : IsItem (s ++ t) :=
  ⟨hs.undivided.append hs.closed ht.undivided,
    by rw [depth_append, hs.closed, ht.closed, Int.add_zero]⟩

theorem IsItem.cons {c : Char} {s : List Char} (plain : isBracket c = false) (other : c ≠ ',')
    (hs : IsItem s) : IsItem (c :: s) :=
  (isItem_of_plain (s := [c]) (by simpa using ⟨plain, other⟩)).append hs

/-- The items in front are parted from what follows. -/
theorem splitTop_items {items : List (List Char)} (each : ∀ s ∈ items, IsItem s)
    {rest : List (List Char)} (some : rest ≠ []) :
    splitTop ',' ([','].intercalate (items ++ rest)) =
      items ++ splitTop ',' ([','].intercalate rest) := by
  induction items with
  | nil => rfl
  | cons s items ih =>
    have first := each s List.mem_cons_self
    obtain ⟨t, more, cut⟩ :=
      List.exists_cons_of_ne_nil (List.append_ne_nil_of_right_ne_nil items some)
    have later := ih fun t mem => each t (List.mem_cons_of_mem s mem)
    rw [cut] at later
    rw [List.cons_append, cut, List.intercalate_cons_cons, List.append_assoc, List.singleton_append,
      splitTop_append_separator (by decide) first.closed, later,
      (isUndivided_iff (by decide)).1 first.undivided]
    rfl

/-- The last item need not end as deep as it starts. -/
theorem splitTop_items_last {items : List (List Char)} (each : ∀ s ∈ items, IsItem s)
    {last : List Char} (undivided : IsUndivided ',' last) :
    splitTop ',' ([','].intercalate (items ++ [last])) = items ++ [last] := by
  rw [splitTop_items each (List.cons_ne_nil _ _), List.intercalate_singleton,
    (isUndivided_iff (by decide)).1 undivided]

/-- In front of items, a text is an item of its own if it is undivided, and closed unless it comes
last. -/
theorem splitTop_cons_items {new : List Char} {behind : List (List Char)}
    (each : ∀ s ∈ behind, IsItem s) (undivided : IsUndivided ',' new)
    (apart : behind = [] ∨ depth new = 0) :
    splitTop ',' ([','].intercalate (new :: behind)) = new :: behind := by
  rcases List.eq_nil_or_concat' behind with rfl | ⟨front, last, rfl⟩
  · rw [List.intercalate_singleton, (isUndivided_iff (by decide)).1 undivided]
  · have closed : depth new = 0 := apart.resolve_left (by simp)
    have items : ∀ s ∈ new :: front, IsItem s := List.forall_mem_cons.2
      ⟨⟨undivided, closed⟩, fun s mem => each s (List.mem_append_left _ mem)⟩
    exact splitTop_items_last items (each last (by simp)).undivided

/-! ### Declarations and defaults -/

/-- What an item is read as, without the white space around it. -/
def ofItem? (item : List Char) : Option MethodTagParameter := ofText? (trim item)

theorem listOfText_eq (s : List Char) : listOfText s = (splitTop ',' s).filterMap ofItem? :=
  List.filterMap_map ..

/-- A declaration with a default behind it, if there is one. -/
def withInitial (declaration : List Char) : Option (List Char) → List Char
  | none => declaration
  | some initial => declaration ++ '=' :: initial

/-- The first equals sign ends the declaration. -/
theorem ofItem?_withInitial {declaration : List Char} (plain : '=' ∉ declaration)
    (initial : Option (List Char)) :
    ofItem? (withInitial declaration initial) =
      ofDeclaration? (trim declaration) (initial.map fun s => String.ofList (trim s)) := by
  cases initial with
  | none =>
    rw [withInitial, ofItem?, ofText?,
      splitOnce_eq_none_iff.2 fun mem => plain (mem_of_mem_trim mem)]
    rfl
  | some initial =>
    have plain' : '=' ∉ trimStart declaration :=
      fun mem => plain ((List.dropWhile_suffix _).subset mem)
    rw [withInitial, ofItem?, ofText?, trim_append_cons (by decide), splitOnce_append plain']
    dsimp only
    rw [trim_trimStart, trim_trimEnd]
    rfl

/-- The parameter that a name and the text in front of its dollar sign declare. -/
def ofFront (front name : List Char) : MethodTagParameter :=
  let before := trim front
  let byValue := trimEnd (trimEndMatches "...".toList before)
  let type := trimEnd (trimEndWhile (· == '&') byValue)
  { name := String.ofList name
    ty := if type.isEmpty then none else some (String.ofList (clean type))
    isVariadic := "...".toList.isSuffixOf before
    isReference := byValue.getLast? == some '&' }

theorem ofFront_trimStart (front name : List Char) :
    ofFront (trimStart front) name = ofFront front name := by
  rw [ofFront, ofFront, trim_trimStart]

/-- The last dollar sign leads the name. -/
theorem ofDeclaration?_dollar {front name : List Char} (last : '$' ∉ name) (named : trim name ≠ [])
    (initial : Option String) :
    ofDeclaration? (front ++ '$' :: name) initial =
      some { ofFront front (trim name) with initial := initial } := by
  rw [ofDeclaration?, splitOnceLast_append last]
  cases shown : trim name with
  | nil => exact absurd shown named
  | cons c name => simp only [Option.bind_eq_bind, Option.bind_some, shown]; rfl

/-- A parameter as it stands between two commas. Its name is what stands behind the last dollar
sign, and its default what stands behind the first equals sign. -/
structure Part where
  front : List Char := []
  name : List Char
  initial : Option (List Char) := none
  named : trim name ≠ [] := by decide
  single : '$' ∉ name := by decide
  plain : '=' ∉ front ++ '$' :: name := by decide
  item : IsItem (front ++ '$' :: name) := by decide
  initial_item : ∀ s ∈ initial, IsItem s := by decide

namespace Part

def declaration (p : Part) : List Char := p.front ++ '$' :: p.name

def text (p : Part) : List Char := withInitial p.declaration p.initial

/-- What the part is read as on its own. -/
def parameter (p : Part) : MethodTagParameter :=
  { ofFront p.front (trim p.name) with initial := p.initial.map fun s => String.ofList (trim s) }

theorem isItem_text (p : Part) : IsItem p.text := by
  rw [text]
  cases given : p.initial with
  | none => exact p.item
  | some s =>
    have behind : IsItem ('=' :: s) := (p.initial_item s given).cons (by decide) (by decide)
    exact p.item.append behind

/-- A declaration is read alike with every default. -/
theorem ofDeclaration?_declaration (p : Part) (initial : Option String) :
    ofDeclaration? (trim p.declaration) initial =
      some { ofFront p.front (trim p.name) with initial := initial } := by
  have last : '$' ∉ trimEnd p.name := fun mem => p.single ((List.rdropWhile_prefix _ _).subset mem)
  have named : trim (trimEnd p.name) ≠ [] := trim_trimEnd p.name ▸ p.named
  rw [declaration, trim_append_cons (by decide), ofDeclaration?_dollar last named, trim_trimEnd,
    ofFront_trimStart]

theorem ofItem?_text (p : Part) : ofItem? p.text = some p.parameter := by
  rw [text, declaration, ofItem?_withInitial p.plain, ← declaration, p.ofDeclaration?_declaration]
  rfl

/-- Another default is read as that, and the rest stays. -/
theorem ofItem?_initial (p : Part) (initial : List Char) :
    ofItem? (p.declaration ++ '=' :: initial) =
      some { p.parameter with initial := some (String.ofList (trim initial)) } := by
  have read := ofItem?_withInitial p.plain (some initial)
  rwa [← declaration, p.ofDeclaration?_declaration] at read

end Part

/-! ### Lists -/

theorem filterMap_text (parts : List Part) :
    (parts.map Part.text).filterMap ofItem? = parts.map Part.parameter := by
  induction parts with
  | nil => rfl
  | cons p parts ih =>
    rw [List.map_cons, List.filterMap_cons_some p.ofItem?_text, ih, List.map_cons]

theorem isItem_of_mem_map_text {parts : List Part} : ∀ s ∈ parts.map Part.text, IsItem s := by
  intro s mem
  obtain ⟨p, -, rfl⟩ := List.mem_map.1 mem
  exact p.isItem_text

theorem listOfText_parts (parts : List Part) :
    listOfText ([','].intercalate (parts.map Part.text)) = parts.map Part.parameter := by
  cases parts with
  | nil => rfl
  | cons p parts =>
    have item := p.isItem_text
    rw [List.map_cons, listOfText_eq, splitTop_cons_items isItem_of_mem_map_text item.undivided
      (.inr item.closed), ← List.map_cons, filterMap_text]

/-! ### Another default -/

theorem trim_append_cons_ne {c : Char} (visible : isBlank c = false) (s t : List Char) :
    trim (s ++ c :: t) ≠ trim s := by
  intro same
  have longer := congrArg List.length (trim_append_cons visible s t)
  have shorter : (trim s).length ≤ (trimStart s).length := length_trimEndWhile_le _ _
  rw [same, List.length_append, List.length_cons] at longer
  omega

theorem intercalate_append_cons (s t : List Char) (rest : List (List Char)) :
    [','].intercalate ((s ++ t) :: rest) = s ++ [','].intercalate (t :: rest) := by
  cases rest with
  | nil => rw [List.intercalate_singleton, List.intercalate_singleton]
  | cons u rest => simp only [List.intercalate_cons_cons, List.append_assoc]

/-- Only then a text in front of others is an item of its own: otherwise the first item is too short
or too long, even when trimmed. -/
theorem isUndivided_of_trim_eq {new first : List Char} {behind others : List (List Char)}
    (cut : splitTop ',' ([','].intercalate (new :: behind)) = first :: others)
    (same : trim first = trim new) : IsUndivided ',' new ∧ (behind = [] ∨ depth new = 0) := by
  obtain ⟨parts, last, found⟩ := exists_last_splitTop ',' new 0
  have whole := intercalate_splitTop ',' new 0
  rw [found] at whole
  cases parts with
  | nil =>
    rw [List.nil_append, List.intercalate_singleton] at whole
    subst whole
    refine ⟨(isUndivided_iff (by decide)).2 found, ?_⟩
    cases behind with
    | nil => exact .inl rfl
    | cons next behind =>
      right
      by_contra inside
      -- Inside brackets the comma behind `new` is text of the same item.
      obtain ⟨more, rest, later⟩ := List.exists_cons_of_ne_nil
        (splitTop_ne_nil ',' ([','].intercalate (next :: behind)) (0 + depth last))
      have run : splitTop ',' (',' :: [','].intercalate (next :: behind)) (0 + depth last) =
          (',' :: more) :: rest := by
        rw [splitTop_other _ fun _ => by rwa [Int.zero_add],
          depthAfter_of_not_isBracket (by decide), later]
        rfl
      rw [List.intercalate_cons_cons, List.append_assoc, List.singleton_append,
        splitTop_append (by decide) found run] at cut
      obtain ⟨rfl, -⟩ := List.cons.inj cut
      exact trim_append_cons_ne (by decide) last more same
  | cons part parts =>
    obtain ⟨next, more, later⟩ : ∃ next more, parts ++ [last] = next :: more :=
      List.exists_cons_of_ne_nil (by simp)
    obtain ⟨tail, split⟩ : ∃ tail, [','].intercalate (new :: behind) = new ++ tail := by
      cases behind with
      | nil => exact ⟨[], by simp⟩
      | cons next behind => exact ⟨_, by rw [List.intercalate_cons_cons, List.append_assoc]⟩
    obtain ⟨head, rest, run⟩ := List.exists_cons_of_ne_nil
      (splitTop_ne_nil ',' tail (0 + depth new))
    rw [split, splitTop_append (by decide) found run] at cut
    obtain ⟨rfl, -⟩ := List.cons.inj cut
    rw [List.cons_append, later, List.intercalate_cons_cons, List.append_assoc,
      List.singleton_append] at whole
    rw [← whole] at same
    exact absurd same.symm (trim_append_cons_ne (by decide) part _)

/-- The first item of what stands behind the equals sign is the default, whatever follows. -/
theorem listOfText_cons_initial (p : Part) {new first : List Char} {behind others : List (List Char)}
    (cut : splitTop ',' ([','].intercalate (new :: behind)) = first :: others) :
    (splitTop ',' ([','].intercalate ((p.declaration ++ '=' :: new) :: behind))).filterMap ofItem? =
      { p.parameter with initial := some (String.ofList (trim first)) } ::
        others.filterMap ofItem? := by
  have equals : IsItem ['='] := isItem_of_plain (by simp [isBracket])
  have front : IsItem (p.declaration ++ ['=']) := IsItem.append p.item equals
  have one : splitTop ',' (p.declaration ++ ['=']) = [] ++ [p.declaration ++ ['=']] :=
    (isUndivided_iff (by decide)).1 front.undivided
  have run : splitTop ',' ([','].intercalate (new :: behind))
      (0 + depth (p.declaration ++ ['='])) = first :: others := by
    rw [front.closed]
    exact cut
  have glued (s : List Char) : p.declaration ++ '=' :: s = (p.declaration ++ ['=']) ++ s := by simp
  rw [glued, intercalate_append_cons, splitTop_append (by decide) one run, List.nil_append, ← glued,
    List.filterMap_cons_some (p.ofItem?_initial first)]

theorem modify_middle {α : Type} (before after : List α) (a : α) (f : α → α) :
    (before ++ a :: after).modify before.length f = before ++ f a :: after := by
  simp [List.modify_eq_take_cons_drop]

/-- A list is read part by part, and with another default for one of them the others stay as they
are and this one has the new default, without the white space around it, just if that has no comma
outside brackets and, unless it comes last, ends as deep as it starts. -/
theorem listOfText_initial (before after : List Part) (p : Part) (new : List Char) :
    let parameters := listOfText ([','].intercalate ((before ++ p :: after).map Part.text))
    let replaced := listOfText ([','].intercalate
      (before.map Part.text ++ (p.declaration ++ '=' :: new) :: after.map Part.text))
    parameters.length = (before ++ p :: after).length ∧
    (replaced = parameters.modify before.length
        ({ · with initial := some (String.ofList (trim new)) }) ↔
      IsUndivided ',' new ∧ (after = [] ∨ depth new = 0)) := by
  intro parameters replaced
  have read : parameters = before.map Part.parameter ++ p.parameter :: after.map Part.parameter := by
    rw [← List.map_cons, ← List.map_append]
    exact listOfText_parts _
  have changed := modify_middle (before.map Part.parameter) (after.map Part.parameter) p.parameter
    ({ · with initial := some (String.ofList (trim new)) })
  rw [List.length_map, ← read] at changed
  obtain ⟨first, others, cut⟩ := List.exists_cons_of_ne_nil
    (splitTop_ne_nil ',' ([','].intercalate (new :: after.map Part.text)) 0)
  have found : replaced = before.map Part.parameter ++
      { p.parameter with initial := some (String.ofList (trim first)) } ::
        others.filterMap ofItem? := by
    change listOfText _ = _
    rw [listOfText_eq, splitTop_items isItem_of_mem_map_text (List.cons_ne_nil _ _),
      List.filterMap_append, filterMap_text, listOfText_cons_initial p cut]
  refine ⟨by simp [read], ?_⟩
  rw [found, changed]
  constructor
  · intro same
    have here := (List.cons.inj (List.append_cancel_left same)).1
    have initial := congrArg MethodTagParameter.initial here
    have trimmed : trim first = trim new := String.ofList_injective (Option.some.inj initial)
    have own := isUndivided_of_trim_eq cut trimmed
    rwa [List.map_eq_nil_iff] at own
  · rintro ⟨undivided, apart⟩
    have items : ∀ s ∈ after.map Part.text, IsItem s := isItem_of_mem_map_text
    have own := splitTop_cons_items items undivided
      (apart.imp_left fun none => by rw [none, List.map_nil])
    obtain ⟨rfl, rfl⟩ := List.cons.inj (cut.symm.trans own)
    rw [filterMap_text]

theorem listOfText_initial_nested :
    listOfText "int ...$a, $b = [1, [2, 3]], $c = ' '".toList =
      [{ name := "a", ty := some "int", isVariadic := true },
        { name := "b", initial := some "[1, [2, 3]]" }, { name := "c", initial := some "' '" }] := by
  let before : List Part := [{ front := "int ...".toList, name := ['a'] }]
  let after : List Part := [{ front := [' '], name := "c ".toList, initial := some " ' '".toList }]
  let p : Part := { front := [' '], name := "b ".toList }
  have replaced := (listOfText_initial before after p " [1, [2, 3]]".toList).2.2
    (by decide +kernel)
  have parameters : listOfText "int ...$a, $b , $c = ' '".toList =
      [{ name := "a", ty := some "int", isVariadic := true }, { name := "b" },
        { name := "c", initial := some "' '" }] := by decide +kernel
  refine Eq.trans replaced ?_
  change (listOfText "int ...$a, $b , $c = ' '".toList).modify 1 _ = _
  rw [parameters]
  rfl

/-- The only brackets of the new default are a pair, and it has no comma at all, but the arrow is
counted as closing one more. -/
theorem listOfText_initial_arrow :
    let new := "['x' => 1]".toList
    new.filter (· ∈ "()[]\x7b\x7d".toList) = "[]".toList ∧ ',' ∉ new ∧
    listOfText "$a = 1, $b".toList = [{ name := "a", initial := some "1" }, { name := "b" }] ∧
    listOfText ("$a = ".toList ++ new ++ ", $b".toList) =
      [{ name := "a", initial := some "['x' => 1], $b" }] := by
  refine ⟨by decide, by decide, by decide +kernel, by decide +kernel⟩

end PhpSymbols.MethodTagParameter
