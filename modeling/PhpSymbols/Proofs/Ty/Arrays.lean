import PhpSymbols.Proofs.Ty.Reserved

/-!
# Reading arrays

* `SpellsArray`: the ways to write an array of the elements that an expression names;
* `lastArgument_of_isUndivided`, `lastArgument_keyed`: the last generic argument, whatever stands in
  front of it;
* `resolve_elements`, `resolve_suffixed`: an array by generic arguments and by a suffix;
* `resolve_spellsArray`: all ways read alike.
-/

namespace PhpSymbols.Resolver
open Ty Ty.Expression

variable {r : Resolver} {e s : List Char}

/-- The names that make an array of their last generic argument, in any letter case. -/
def IsArrayName (base : String) : Prop :=
  ∃ name ∈ ["array", "list", "iterable", "non-empty-array", "non-empty-list"],
    sameIgnoringCase base name = true

instance (base : String) : Decidable (IsArrayName base) := inferInstanceAs (Decidable (∃ _ ∈ _, _))

/-- `s` is an array of what `e` names. -/
inductive SpellsArray (e : List Char) : List Char → Prop where
  | elements {base : String} {t : List Char} : IsArrayName base → Spells e t →
      SpellsArray e (base.toList ++ ('<' :: t ++ ['>']))
  | keyed {base : String} {key t : List Char} : IsArrayName base → IsBalanced key → Spells e t →
      SpellsArray e (base.toList ++ ('<' :: (key ++ ',' :: t) ++ ['>']))
  | suffixed {t : List Char} : Spells e t → SpellsArray e ('(' :: t ++ [')'] ++ "[]".toList)

/-! ### Generic arguments -/

theorem lastArgument_of_isUndivided (one : IsUndivided ',' s) : lastArgument s = Text.trim s := by
  rw [lastArgument, splitCommas, (isUndivided_iff (by decide)).1 one]
  rfl

/-- What stands in front of the last comma is not looked at. -/
theorem lastArgument_keyed {key : List Char} (closed : depth key = 0) (one : IsUndivided ',' s) :
    lastArgument (key ++ ',' :: s) = Text.trim s := by
  rw [lastArgument, splitCommas, splitTop_append_separator (by decide) closed,
    (isUndivided_iff (by decide)).1 one, List.map_append, List.map_singleton,
    List.getLast?_concat, Option.getD_some]

theorem mem_iterableBases {base : String} (array : IsArrayName base) :
    String.ofList (Text.lower base.toList) ∈ iterableBases := by
  have names : ∀ name ∈ iterableBases, Text.lower name.toList = name.toList := by decide
  obtain ⟨name, mem, same⟩ := array
  rw [beq_iff_eq.1 same, names name mem, String.ofList_toList]
  exact mem

theorem isWord_of_isArrayName {base : String} (array : IsArrayName base) : IsWord base.toList := by
  have names : ∀ name ∈ iterableBases, name.toList ≠ [] ∧ name.toList.head? ≠ some '\\' := by decide
  have iterable := mem_iterableBases array
  obtain ⟨some, complete⟩ := names _ iterable
  rw [String.toList_ofList] at some complete
  refine ⟨isWordChar_of_mem_iterableBases iterable, ?_, ?_⟩
  · exact fun none => some (by rw [none]; rfl)
  · exact fun slash => complete (by rw [head?_lower, slash]; rfl)

/-! ### Each way -/

/-- An array by the last of its generic arguments. -/
theorem resolve_elements {base : String} {arguments : List Char} (array : IsArrayName base)
    (balanced : IsBalanced arguments) (known : r.resolve (lastArgument arguments) ≠ .unknown) :
    r.resolve (base.toList ++ ('<' :: arguments ++ ['>'])) =
      .arrayOf (r.resolve (lastArgument arguments)) := by
  have word := isWord_of_isArrayName array
  obtain ⟨trimmed, cleaned⟩ := clean_generic word arguments
  have noBar : '|' ∉ base.toList := fun mem => absurd (word.chars '|' mem) (by decide)
  have plain : depth base.toList = 0 :=
    depth_of_plain fun c mem => isBracket_of_isWordChar (word.chars c mem)
  have undivided : IsUndivided '|' (base.toList ++ ('<' :: arguments ++ ['>'])) :=
    (isUndivided_of_notMem noBar).append plain
      (balanced.isUndivided_enclosed (by decide) (by decide))
  have read : r.readGenerics base.toList ('<' :: arguments ++ ['>']) =
      some (.arrayOf (r.resolve (lastArgument arguments))) := by
    rw [readGenerics, between?_enclosed]
    dsimp only
    rw [if_pos (List.contains_iff_mem.2 (mem_iterableBases array)), known?, if_neg known,
      Option.getD_some]
  rw [resolve_token (splitUnion_of_isUndivided undivided), Text.trim_of_isTrimmed trimmed,
    resolveToken_of_generics r cleaned word.chars, read, Option.getD_some]

/-- An array by the suffix of a group. -/
theorem resolve_suffixed (balanced : IsBalanced s) (known : r.resolve s ≠ .unknown) :
    r.resolve ('(' :: s ++ [')'] ++ "[]".toList) = .arrayOf (r.resolve s) := by
  have undivided : IsUndivided '|' ('(' :: s ++ [')'] ++ "[]".toList) :=
    (balanced.isUndivided_enclosed (by decide) (by decide)).append balanced.group.closed
      (isUndivided_of_notMem (by decide))
  have last : ('(' :: s ++ [')'] ++ "[]".toList).getLast? = some ']' := by
    rw [List.getLast?_append]
    rfl
  have trimmed : Text.IsTrimmed ('(' :: s ++ [')'] ++ "[]".toList) := by
    refine ⟨?_, by rw [last]; decide⟩
    rintro c ⟨⟩
    decide
  have cleaned := clean_of_isTrimmed trimmed (by simp) (by rw [last]; decide)
  rw [resolve_token (splitUnion_of_isUndivided undivided), Text.trim_of_isTrimmed trimmed,
    resolveToken_of_suffix r cleaned (by simp), resolveToken_group, known?, if_neg known]
  rfl

/-! ### All ways -/

/-- Neither white space nor parentheses bring a separator. -/
theorem Spells.isUndivided {separator : Char} (solid : Text.isBlank separator = false)
    (other : separator ≠ '(') (balanced : IsBalanced e) (one : IsUndivided separator e)
    (spells : Spells e s) : IsUndivided separator s := by
  have space {w : List Char} (blank : ∀ c ∈ w, Text.isBlank c = true) : IsUndivided separator w :=
    isUndivided_of_notMem fun mem => by simp [blank separator mem] at solid
  induction spells with
  | bare => exact one
  | @spaced s before after inner blank blank' ih =>
    have closed := (inner.resolve_eq (r := {}) balanced).2.closed
    have front : depth before = 0 := depth_of_plain fun c mem => isBracket_of_isBlank (blank c mem)
    refine ((space blank).append front ih).append ?_ (space blank')
    rw [depth_append, front, closed, Int.add_zero]
  | grouped inner ih =>
    exact (inner.resolve_eq (r := {}) balanced).2.isUndivided_enclosed (by decide) other.symm

/-- The spellings of an array agree: generic arguments of any array name, perhaps behind a type of
keys, and the suffix of a group are all read as an array of what the expression of the elements
is read as, however that is spaced and grouped. -/
theorem resolve_spellsArray (r : Resolver) {e s : List Char} (balanced : IsBalanced e)
    (one : IsUndivided ',' e) (known : r.resolve e ≠ .unknown) (spells : SpellsArray e s) :
    r.resolve s = .arrayOf (r.resolve e) := by
  cases spells with
  | @elements base t array inner =>
    obtain ⟨same, balanced'⟩ := inner.resolve_eq (r := r) balanced
    have last :=
      lastArgument_of_isUndivided (inner.isUndivided (by decide) (by decide) balanced one)
    have read : r.resolve (lastArgument t) = r.resolve e := by rw [last, resolve_trim, same]
    rw [resolve_elements array balanced' (read ▸ known), read]
  | @keyed base key t array key_balanced inner =>
    obtain ⟨same, balanced'⟩ := inner.resolve_eq (r := r) balanced
    have last := lastArgument_keyed key_balanced.closed
      (inner.isUndivided (by decide) (by decide) balanced one)
    have read : r.resolve (lastArgument (key ++ ',' :: t)) = r.resolve e := by
      rw [last, resolve_trim, same]
    have comma : IsBalanced [','] := isBalanced_of_plain (by decide)
    have whole : IsBalanced (key ++ ',' :: t) := key_balanced.append (comma.append balanced')
    rw [resolve_elements array whole (read ▸ known), read]
  | suffixed inner =>
    obtain ⟨same, balanced'⟩ := inner.resolve_eq (r := r) balanced
    rw [resolve_suffixed balanced' (same ▸ known), same]

theorem resolve_spellsArray_nested :
    let e := "array{a: int, b: ?T}|Map<int, T>".toList
    (IsBalanced e ∧ IsUndivided ',' e ∧ ({} : Resolver).resolve e ≠ .unknown) ∧
    ∀ s ∈ ["Non-Empty-List<array{a: int, b: ?T}|Map<int, T>>".toList,
        "ARRAY< array<int, Id>|int , array{a: int, b: ?T}|Map<int, T>\t>".toList,
        "( array{a: int, b: ?T}|Map<int, T> )[]".toList],
      ({} : Resolver).resolve s = .arrayOf (({} : Resolver).resolve e) := by
  intro e
  have balanced : IsBalanced e := by decide
  have one : IsUndivided ',' e := by decide
  have known : ({} : Resolver).resolve e ≠ .unknown :=
    (known_of_several (several_of_not_isUndivided (by decide))).ne_unknown
  have read {s : List Char} (spells : SpellsArray e s) :=
    resolve_spellsArray {} balanced one known spells
  have space : ∀ c ∈ [' '], Text.isBlank c = true := by decide
  have tab : ∀ c ∈ ['\t'], Text.isBlank c = true := by decide
  have bare : SpellsArray e ("Non-Empty-List".toList ++ ('<' :: e ++ ['>'])) :=
    .elements (by decide) .bare
  have keyed : SpellsArray e ("ARRAY".toList ++
      ('<' :: (" array<int, Id>|int ".toList ++ ',' :: ([' '] ++ e ++ ['\t'])) ++ ['>'])) :=
    .keyed (by decide) (by decide) (.spaced .bare space tab)
  have suffixed : SpellsArray e ('(' :: ([' '] ++ e ++ [' ']) ++ [')'] ++ "[]".toList) :=
    .suffixed (.spaced .bare space space)
  refine ⟨⟨balanced, one, known⟩, ?_⟩
  simp only [List.forall_mem_cons]
  exact ⟨read bare, read keyed, read suffixed, nofun⟩

end PhpSymbols.Resolver
