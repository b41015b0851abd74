import PhpSymbols.Ty.Expression

/-!
# Splitting outside brackets

* `intercalate_splitTop`: with the separators put back, the parts of a split are the text;
* `Solid`: a text that a split at some depth leaves in one piece, whatever follows;
* `Solid.append`, `Solid.enclosed`: solid texts in a row and in brackets are solid;
* `splitTop_intercalate`: solid texts with separators between them are what a split
  gives back;
* `solid_intercalate`: inside brackets they are one solid text.
-/

namespace PhpSymbols.Ty.Expression
open Text

theorem splitTop_ne_nil (separator : Char) (s : List Char) (depth : Int) :
    splitTop separator s depth ≠ [] := by
  cases s with
  | nil => exact List.cons_ne_nil _ _
  | cons c rest =>
    rw [splitTop]
    split
    · exact List.cons_ne_nil _ _
    · split <;> exact List.cons_ne_nil _ _

theorem splitTop_separator (separator : Char) (rest : List Char) :
    splitTop separator (separator :: rest) 0 = [] :: splitTop separator rest 0 := by
  rw [splitTop, if_pos ⟨rfl, rfl⟩]

theorem splitTop_other {separator c : Char} {depth : Int} (rest : List Char)
    (other : c = separator → depth ≠ 0) :
    splitTop separator (c :: rest) depth =
      (splitTop separator rest (depthAfter c depth)).modifyHead (c :: ·) := by
  rw [splitTop, if_neg fun h => other h.1 h.2]
  cases found : splitTop separator rest (depthAfter c depth) with
  | nil => exact absurd found (splitTop_ne_nil _ _ _)
  | cons part parts => rfl

/-- A split loses nothing but the separators that it cuts at. -/
theorem intercalate_splitTop (separator : Char) (s : List Char) (depth : Int) :
    [separator].intercalate (splitTop separator s depth) = s := by
  induction s generalizing depth with
  | nil => rfl
  | cons c s ih =>
    have later := ih (depthAfter c depth)
    by_cases cut : c = separator ∧ depth = 0
    · obtain ⟨part, parts, found⟩ := List.exists_cons_of_ne_nil (splitTop_ne_nil separator s depth)
      have whole := ih depth
      rw [found] at whole
      obtain ⟨rfl, rfl⟩ := cut
      rw [splitTop_separator, found, List.intercalate_cons_cons, whole]
      rfl
    · rw [splitTop_other s fun same outside => cut ⟨same, outside⟩]
      cases found : splitTop separator s (depthAfter c depth) with
      | nil => exact absurd found (splitTop_ne_nil _ _ _)
      | cons part parts =>
        rw [found] at later
        rw [List.modifyHead_cons, List.intercalate_cons_cons_left, later]

theorem prefix_of_splitTop {separator : Char} {s part : List Char} {parts : List (List Char)}
    {depth : Int} (found : splitTop separator s depth = part :: parts) : part <+: s := by
  have whole := intercalate_splitTop separator s depth
  rw [found] at whole
  cases parts with
  | nil =>
    rw [List.intercalate_singleton] at whole
    exact ⟨[], by rw [List.append_nil, whole]⟩
  | cons next parts =>
    rw [List.intercalate_cons_cons, List.append_assoc] at whole
    exact ⟨_, whole⟩

theorem suffix_of_splitTop {separator : Char} {s last : List Char} {parts : List (List Char)}
    {depth : Int} (found : splitTop separator s depth = parts ++ [last]) : last <:+ s := by
  rw [← intercalate_splitTop separator s depth, found]
  clear found
  induction parts with
  | nil => exact ⟨[], by simp⟩
  | cons part parts ih =>
    obtain ⟨next, more, later⟩ : ∃ next more, parts ++ [last] = next :: more :=
      List.exists_cons_of_ne_nil (by simp)
    rw [later] at ih
    rw [List.cons_append, later, List.intercalate_cons_cons]
    exact ih.trans (List.suffix_append _ _)

/-- Left in one piece by a split that reaches it at `depth`, which is also the depth after it. -/
def Solid (separator : Char) (depth : Int) (s : List Char) : Prop :=
  ∀ rest, splitTop separator (s ++ rest) depth =
    (splitTop separator rest depth).modifyHead (s ++ ·)

variable {separator : Char} {depth : Int}

theorem Solid.append {s t : List Char} (hs : Solid separator depth s)
    (ht : Solid separator depth t) : Solid separator depth (s ++ t) := by
  intro rest
  have glued : (s ++ t ++ ·) = (s ++ ·) ∘ (t ++ ·) := by
    funext u
    exact List.append_assoc s t u
  rw [List.append_assoc, hs, ht, List.modifyHead_modifyHead, glued]

theorem solid_nil : Solid separator depth [] := by
  intro rest
  rw [List.nil_append, show (([] : List Char) ++ ·) = id from rfl, List.modifyHead_id, id]

/-- Brackets alone change the depth. -/
def isBracket (c : Char) : Bool :=
  c = '<' ∨ c = '(' ∨ c = '{' ∨ c = '[' ∨ c = '>' ∨ c = ')' ∨ c = '}' ∨ c = ']'

theorem depthAfter_of_not_isBracket {c : Char} (h : isBracket c = false) (depth : Int) :
    depthAfter c depth = depth := by
  simp only [isBracket, decide_eq_false_iff_not, not_or] at h
  simp [depthAfter, h]

theorem solid_singleton {c : Char} (plain : isBracket c = false)
    (other : c = separator → depth ≠ 0) : Solid separator depth [c] := by
  intro rest
  rw [List.singleton_append, splitTop_other rest other, depthAfter_of_not_isBracket plain]
  rfl

theorem solid_of_plain {s : List Char} (plain : ∀ c ∈ s, isBracket c = false)
    (other : ∀ c ∈ s, c ≠ separator) : Solid separator depth s := by
  induction s with
  | nil => exact solid_nil
  | cons c s ih =>
    have first : Solid separator depth [c] :=
      solid_singleton (plain c List.mem_cons_self) fun h => absurd h (other c List.mem_cons_self)
    exact first.append (ih (fun d hd => plain d (List.mem_cons_of_mem c hd))
      fun d hd => other d (List.mem_cons_of_mem c hd))

/-- Inside brackets a text need only be solid one level deeper. -/
theorem Solid.enclosed {s : List Char} {l r : Char} (hs : Solid separator (depth + 1) s)
    (deep : 0 ≤ depth) (opens : depthAfter l depth = depth + 1)
    (closes : depthAfter r (depth + 1) = depth) (other : l ≠ separator) :
    Solid separator depth (l :: s ++ [r]) := by
  intro rest
  have glued : (l :: s ++ [r] ++ ·) = (l :: ·) ∘ (s ++ ·) ∘ (r :: ·) := by
    funext u
    simp
  have inner : splitTop separator (s ++ (r :: rest)) (depth + 1) =
      (splitTop separator rest depth).modifyHead ((s ++ ·) ∘ (r :: ·)) := by
    rw [hs, splitTop_other rest (by omega), closes, List.modifyHead_modifyHead]
  rw [List.append_assoc, List.singleton_append, List.cons_append,
    splitTop_other _ (fun h => absurd h other), opens, inner, List.modifyHead_modifyHead, glued]

/-- Inside brackets separators are text like any other. -/
theorem solid_intercalate {parts : List (List Char)} (plain : isBracket separator = false)
    (inside : depth ≠ 0) (solid : ∀ s ∈ parts, Solid separator depth s) :
    Solid separator depth ([separator].intercalate parts) := by
  induction parts with
  | nil => exact solid_nil
  | cons s parts ih =>
    have hs := solid s List.mem_cons_self
    cases parts with
    | nil =>
      rw [List.intercalate_singleton]
      exact hs
    | cons t parts =>
      rw [List.intercalate_cons_cons]
      exact (hs.append (solid_singleton plain fun _ => inside)).append
        (ih fun u hu => solid u (List.mem_cons_of_mem s hu))

theorem Solid.splitTop_eq {s : List Char} (hs : Solid separator depth s) :
    splitTop separator s depth = [s] := by
  have h := hs []
  rw [List.append_nil] at h
  rw [h, splitTop, List.modifyHead_cons, List.append_nil]

theorem splitTop_intercalate {parts : List (List Char)} (some : parts ≠ [])
    (solid : ∀ s ∈ parts, Solid separator 0 s) :
    splitTop separator ([separator].intercalate parts) = parts := by
  induction parts with
  | nil => exact absurd rfl some
  | cons s parts ih =>
    have hs := solid s List.mem_cons_self
    cases parts with
    | nil =>
      rw [List.intercalate_singleton]
      exact hs.splitTop_eq
    | cons t parts =>
      have rest := ih (List.cons_ne_nil t parts) fun u hu => solid u (List.mem_cons_of_mem s hu)
      rw [List.intercalate_cons_cons, List.append_assoc, hs, List.singleton_append,
        splitTop_separator, rest, List.modifyHead_cons, List.append_nil]

end PhpSymbols.Ty.Expression
