import Mathlib.Algebra.Ring.Int.Defs
import Mathlib.Data.List.Infix
import PhpSymbols.Proofs.Text.Trimmed
import PhpSymbols.Proofs.Ty.Splitting

/-!
# How deep a text ends

* `depth`, `IsBalanced`, `IsUndivided`: how much deeper a text ends than it starts, texts that
  close all brackets they open and no others, and texts without a separator outside brackets;
* `splitTop_append`: a split of two texts in a row runs the last part of the first into the first
  part of the second;
* `splitTop_intercalate_flatMap`: texts that end as deep as they start are split one by one when
  separators stand between them;
* `isUndivided_iff`: a split leaves just the texts in one piece that have no separator outside
  brackets;
* `map_trim_splitTop_spaced`: white space around a text does not matter once its parts are trimmed.
-/

namespace PhpSymbols.Ty.Expression
open Text

/-! ### Depth -/

/-- How much deeper a text ends than it starts. -/
def depth (s : List Char) : Int := (s.map fun c => depthAfter c 0).sum

theorem depthAfter_eq (c : Char) (start : Int) : depthAfter c start = start + depthAfter c 0 := by
  unfold depthAfter
  split
  · omega
  · split <;> omega

@[simp] theorem depth_nil : depth [] = 0 := rfl

@[simp] theorem depth_cons (c : Char) (s : List Char) :
    depth (c :: s) = depthAfter c 0 + depth s := by
  simp [depth]

@[simp] theorem depth_append (s t : List Char) : depth (s ++ t) = depth s + depth t := by
  simp [depth]

theorem depth_of_plain {s : List Char} (plain : ∀ c ∈ s, isBracket c = false) : depth s = 0 := by
  induction s with
  | nil => rfl
  | cons c s ih =>
    rw [depth_cons, depthAfter_of_not_isBracket (plain c List.mem_cons_self),
      ih fun d hd => plain d (List.mem_cons_of_mem c hd), Int.add_zero]

theorem isBracket_of_isBlank {c : Char} (blank : isBlank c = true) : isBracket c = false := by
  by_contra bracket
  simp only [isBracket, decide_eq_true_eq, Bool.not_eq_false] at bracket
  rcases bracket with rfl | rfl | rfl | rfl | rfl | rfl | rfl | rfl <;> revert blank <;> decide

/-! ### Balanced texts -/

/-- All kinds of brackets are counted alike: none is closed before one was opened, and all that
were opened are closed. -/
structure IsBalanced (s : List Char) : Prop where
  opened : ∀ before, before <+: s → 0 ≤ depth before
  closed : depth s = 0

instance (s : List Char) : Decidable (IsBalanced s) :=
  decidable_of_iff ((∀ before ∈ s.inits, 0 ≤ depth before) ∧ depth s = 0)
    ⟨fun h => ⟨fun before front => h.1 before ((List.mem_inits _ _).2 front), h.2⟩,
      fun h => ⟨fun before front => h.opened before ((List.mem_inits _ _).1 front), h.closed⟩⟩

theorem isBalanced_of_plain {s : List Char} (plain : ∀ c ∈ s, isBracket c = false) :
    IsBalanced s := by
  refine ⟨fun before front => ?_, depth_of_plain plain⟩
  have none := depth_of_plain fun c mem => plain c (front.subset mem)
  omega

theorem IsBalanced.append {s t : List Char} (hs : IsBalanced s) (ht : IsBalanced t) :
    IsBalanced (s ++ t) := by
  refine ⟨fun before front => ?_, by rw [depth_append, hs.closed, ht.closed, Int.add_zero]⟩
  rcases List.prefix_or_prefix_of_prefix front (List.prefix_append s t) with within | ⟨q, rfl⟩
  · exact hs.opened before within
  · have later := ht.opened q ((List.prefix_append_right_inj s).1 front)
    rw [depth_append, hs.closed]
    omega

/-- Behind an opening bracket only the empty start of a text is not deeper than where it starts. -/
theorem IsBalanced.depth_opened {s before : List Char} {l : Char} (hs : IsBalanced s)
    (opens : depthAfter l 0 = 1) (front : before <+: l :: s) : before = [] ∨ 1 ≤ depth before := by
  rcases List.prefix_cons_iff.1 front with rfl | ⟨inner, rfl, within⟩
  · exact .inl rfl
  · have deeper := hs.opened inner within
    rw [depth_cons, opens]
    omega

theorem IsBalanced.group {s : List Char} (hs : IsBalanced s) :
    IsBalanced ('(' :: s ++ [')']) := by
  have closed : depth ('(' :: s ++ [')']) = 0 := by
    have opens : depthAfter '(' 0 = 1 := by decide
    have closes : depthAfter ')' 0 = -1 := by decide
    simp [hs.closed, opens, closes]
  refine ⟨fun before front => ?_, closed⟩
  rcases List.prefix_concat_iff.1 front with rfl | within
  · exact Int.le_of_eq closed.symm
  · rcases hs.depth_opened (by decide) within with rfl | deeper
    · exact Int.le_refl 0
    · omega

/-! ### Separators outside brackets -/

/-- No separator stands outside all brackets. -/
def IsUndivided (separator : Char) (s : List Char) : Prop :=
  ∀ before after, s = before ++ separator :: after → depth before ≠ 0

variable {separator : Char}

theorem isUndivided_of_notMem {s : List Char} (none : separator ∉ s) :
    IsUndivided separator s := by
  rintro before after rfl
  exact absurd (List.mem_append_right before List.mem_cons_self) none

theorem IsUndivided.append {s t : List Char} (hs : IsUndivided separator s) (closed : depth s = 0)
    (ht : IsUndivided separator t) : IsUndivided separator (s ++ t) := by
  intro before after cut
  rcases List.append_eq_append_iff.1 cut with ⟨inner, rfl, behind⟩ | ⟨inner, rfl, behind⟩
  · rw [depth_append, closed, Int.zero_add]
    exact ht inner after behind
  · cases inner with
    | nil => exact absurd rfl (ht [] after behind.symm)
    | cons c inner =>
      obtain ⟨rfl, rest⟩ := List.cons.inj behind
      exact hs before inner rfl

/-- Nothing between brackets stands outside all brackets. -/
theorem IsBalanced.isUndivided_enclosed {s : List Char} {l r : Char} (hs : IsBalanced s)
    (opens : depthAfter l 0 = 1) (other : l ≠ separator) :
    IsUndivided separator (l :: s ++ [r]) := by
  intro before after cut outside
  have front : before <+: l :: s ++ [r] := ⟨_, cut.symm⟩
  rcases List.prefix_concat_iff.1 front with rfl | within
  · have same := congrArg List.length cut
    simp only [List.length_append, List.length_cons] at same
    omega
  · rcases hs.depth_opened opens within with rfl | deeper
    · exact other (List.cons.inj cut).1
    · omega

/-! ### Splitting -/

theorem exists_last_splitTop (separator : Char) (s : List Char) (start : Int) :
    ∃ parts last, splitTop separator s start = parts ++ [last] :=
  (List.eq_nil_or_concat' _).resolve_left (splitTop_ne_nil separator s start)

/-- A split of two texts in a row: the last part of the first runs into the first part of the
second. -/
theorem splitTop_append (plain : isBracket separator = false) {s t last first : List Char}
    {parts rest : List (List Char)} {start : Int}
    (hs : splitTop separator s start = parts ++ [last])
    (ht : splitTop separator t (start + depth s) = first :: rest) :
    splitTop separator (s ++ t) start = parts ++ (last ++ first) :: rest := by
  induction s generalizing parts last start with
  | nil =>
    have one : [] ++ [[]] = parts ++ [last] := hs
    obtain ⟨rfl, same⟩ := List.append_inj' one rfl
    obtain rfl := List.singleton_inj.1 same
    rw [depth_nil, Int.add_zero] at ht
    exact ht
  | cons c s ih =>
    obtain ⟨front, back, found⟩ := exists_last_splitTop separator s (depthAfter c start)
    rw [depth_cons, ← Int.add_assoc, ← depthAfter_eq] at ht
    by_cases here : c = separator ∧ start = 0
    · obtain ⟨rfl, rfl⟩ := here
      rw [depthAfter_of_not_isBracket plain] at found ht
      rw [splitTop_separator, found, ← List.cons_append] at hs
      obtain ⟨rfl, same⟩ := List.append_inj' hs rfl
      rw [List.singleton_inj.1 same] at found
      rw [List.cons_append, splitTop_separator, ih found ht, List.cons_append]
    · have other : c = separator → start ≠ 0 := fun same zero => here ⟨same, zero⟩
      rw [splitTop_other s other, found] at hs
      rw [List.cons_append, splitTop_other _ other, ih found ht]
      cases front with
      | nil =>
        have whole : [] ++ [c :: back] = parts ++ [last] := hs
        obtain ⟨rfl, same⟩ := List.append_inj' whole rfl
        rw [← List.singleton_inj.1 same]
        rfl
      | cons part front =>
        have whole : (c :: part) :: front ++ [back] = parts ++ [last] := hs
        obtain ⟨rfl, same⟩ := List.append_inj' whole rfl
        rw [List.singleton_inj.1 same]
        rfl

/-- A separator behind a text that ends outside all brackets divides what stands around it. -/
theorem splitTop_append_separator (plain : isBracket separator = false) {s : List Char}
    (closed : depth s = 0) (t : List Char) :
    splitTop separator (s ++ separator :: t) =
      splitTop separator s ++ splitTop separator t := by
  obtain ⟨parts, last, found⟩ := exists_last_splitTop separator s 0
  have cut : splitTop separator (separator :: t) (0 + depth s) = [] :: splitTop separator t := by
    rw [closed]
    exact splitTop_separator separator t
  rw [splitTop_append plain found cut, found, List.append_nil, List.append_assoc]
  rfl

theorem splitTop_intercalate_flatMap (plain : isBracket separator = false)
    {ss : List (List Char)} (some : ss ≠ []) (closed : ∀ s ∈ ss, depth s = 0) :
    splitTop separator ([separator].intercalate ss) =
      ss.flatMap fun s => splitTop separator s := by
  induction ss with
  | nil => exact absurd rfl some
  | cons s ss ih =>
    cases ss with
    | nil => simp
    | cons t ss =>
      have rest := ih (List.cons_ne_nil t ss) fun u hu => closed u (List.mem_cons_of_mem s hu)
      rw [List.intercalate_cons_cons, List.append_assoc, List.singleton_append,
        splitTop_append_separator plain (closed s List.mem_cons_self), rest]
      rfl

theorem splitTop_of_isUndivided {s : List Char} {start : Int}
    (undivided : ∀ before after, s = before ++ separator :: after → start + depth before ≠ 0) :
    splitTop separator s start = [s] := by
  induction s generalizing start with
  | nil => rfl
  | cons c s ih =>
    have other : c = separator → start ≠ 0 := by
      rintro rfl
      simpa using undivided [] s rfl
    have later : splitTop separator s (depthAfter c start) = [s] := by
      refine ih fun before after cut => ?_
      have deeper := undivided (c :: before) after (by rw [cut]; rfl)
      rw [depth_cons, ← Int.add_assoc, ← depthAfter_eq] at deeper
      exact deeper
    rw [splitTop_other s other, later]
    rfl

theorem isUndivided_iff (plain : isBracket separator = false) {s : List Char} :
    IsUndivided separator s ↔ splitTop separator s = [s] := by
  constructor
  · intro undivided
    apply splitTop_of_isUndivided
    intro before after cut
    rw [Int.zero_add]
    exact undivided before after cut
  · rintro one before after rfl outside
    rw [splitTop_append_separator plain outside] at one
    have parts := congrArg List.length one
    have front := List.length_pos_iff.2 (splitTop_ne_nil separator before 0)
    have back := List.length_pos_iff.2 (splitTop_ne_nil separator after 0)
    simp only [List.length_append, List.length_singleton] at parts
    omega

instance (s : List Char) : Decidable (IsUndivided '|' s) :=
  decidable_of_iff _ (isUndivided_iff (by decide)).symm

instance (s : List Char) : Decidable (IsUndivided ',' s) :=
  decidable_of_iff _ (isUndivided_iff (by decide)).symm

/-! ### White space -/

/-- White space around the whole goes to the first part and the last, and is trimmed there. -/
theorem map_trim_splitTop_spaced (plain : isBracket separator = false)
    (visible : isBlank separator = false) {before after : List Char}
    (blank : ∀ c ∈ before, isBlank c = true) (blank' : ∀ c ∈ after, isBlank c = true)
    (s : List Char) :
    (splitTop separator (before ++ s ++ after)).map trim = (splitTop separator s).map trim := by
  have whole {w : List Char} (blank : ∀ c ∈ w, isBlank c = true) (start : Int) :
      Solid separator start w := by
    apply solid_of_plain
    · exact fun c mem => isBracket_of_isBlank (blank c mem)
    · rintro c mem rfl
      exact absurd (blank c mem) (by simp [visible])
  obtain ⟨parts, last, found⟩ := exists_last_splitTop separator s 0
  have behind : splitTop separator after (0 + depth s) = [after] :=
    (whole blank' (0 + depth s)).splitTop_eq
  have inner : (splitTop separator (s ++ after)).map trim = (splitTop separator s).map trim := by
    rw [splitTop_append plain found behind, found, List.map_append, List.map_append,
      List.map_singleton, List.map_singleton, trim_append_blank blank']
  rw [← inner, List.append_assoc, whole blank 0]
  cases splitTop separator (s ++ after) with
  | nil => rfl
  | cons part parts =>
    rw [List.modifyHead_cons, List.map_cons, List.map_cons, trim_blank_append blank]

theorem splitUnion_spaced {before after : List Char} (blank : ∀ c ∈ before, isBlank c = true)
    (blank' : ∀ c ∈ after, isBlank c = true) (s : List Char) :
    splitUnion (before ++ s ++ after) = splitUnion s :=
  map_trim_splitTop_spaced (by decide) (by decide) blank blank' s

theorem splitUnion_trim (s : List Char) : splitUnion (trim s) = splitUnion s := by
  obtain ⟨before, after, blank, blank', whole⟩ := exists_trim s
  rw [← splitUnion_spaced blank blank' (trim s), ← whole]

theorem splitCommas_trim (s : List Char) : splitCommas (trim s) = splitCommas s := by
  obtain ⟨before, after, blank, blank', whole⟩ := exists_trim s
  conv_rhs => rw [whole]
  exact (map_trim_splitTop_spaced (by decide) (by decide) blank blank' (trim s)).symm

end PhpSymbols.Ty.Expression
