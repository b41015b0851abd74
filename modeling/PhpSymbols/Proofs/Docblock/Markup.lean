import PhpSymbols.Docblock.Markup
import PhpSymbols.Proofs.Text.Separated

/-!
# Prose cut at its tags

* `Mark`, `Division`: a tag, and a text cut into its tags and what stands between them;
* `afterTag?_eq_some_iff`: what is taken for a tag is one;
* `removeTags_text`: the tags of a division are what is taken out;
* `eq_of_opener`, `Division.ext_text`: the first tag of a text stands in one place only, so no text
  has two divisions;
* `exists_division`: and each has one;
* `strip_division`: prose is stripped of exactly its tags.
-/

namespace PhpSymbols.Markup
open Text

/-! ### Divisions -/

/-- Some less-than sign stands right in front of what makes it the start of a tag. -/
def HasOpener (s : List Char) : Prop :=
  ∃ before after, s = before ++ '<' :: after ∧ opensTag after = true

/-- A tag: what stands between its angle brackets. -/
@[ext]
structure Mark where
  inner : List Char
  opens : opensTag inner = true
  single : '>' ∉ inner

def Mark.text (m : Mark) : List Char := '<' :: (m.inner ++ ['>'])

/-- A text cut at its tags. Behind the last one a tag may open, but none closes. -/
structure Division where
  /-- The tags, each with the text in front of it. -/
  runs : List (List Char × Mark)
  last : List Char
  plain : ∀ run ∈ runs, ¬ HasOpener run.1
  unclosed : ∀ before after, last = before ++ '<' :: after → opensTag after = true → '>' ∉ after

namespace Division

def text (d : Division) : List Char := d.runs.flatMap (fun run => run.1 ++ run.2.text) ++ d.last

/-- What stands outside the tags. -/
def kept (d : Division) : List Char := d.runs.flatMap Prod.fst ++ d.last

end Division

/-! ### Openers -/

theorem opensTag_append {s : List Char} (opens : opensTag s = true) (t : List Char) :
    opensTag (s ++ t) = true := by
  cases s with
  | nil => cases opens
  | cons c s => exact opens

/-- What opens a tag stands in front of any character that opens none. -/
theorem opensTag_of_append {s t : List Char} {c : Char} (other : opensTag [c] = false)
    (opens : opensTag (s ++ c :: t) = true) : opensTag s = true := by
  cases s with
  | nil => exact absurd opens (Bool.eq_false_iff.1 other)
  | cons d s => exact opens

theorem hasOpener_cons_iff {c : Char} {s : List Char} :
    HasOpener (c :: s) ↔ c = '<' ∧ opensTag s = true ∨ HasOpener s := by
  constructor
  · rintro ⟨before, after, cut, opens⟩
    cases before with
    | nil =>
      obtain ⟨rfl, rfl⟩ := List.cons.inj cut
      exact .inl ⟨rfl, opens⟩
    | cons d before => exact .inr ⟨before, after, (List.cons.inj cut).2, opens⟩
  · rintro (⟨rfl, opens⟩ | ⟨before, after, rfl, opens⟩)
    · exact ⟨[], s, rfl, opens⟩
    · exact ⟨c :: before, after, rfl, opens⟩

/-! ### Taking tags out -/

theorem afterTag?_eq (s : List Char) :
    afterTag? s = if opensTag s = true then (splitOnce '>' s).map Prod.snd else none := by
  rw [afterTag?, splitOnce]
  cases s.dropWhile (· != '>') <;> rfl

/-- What is skipped as a tag is one. -/
theorem afterTag?_eq_some_iff {s rest : List Char} :
    afterTag? s = some rest ↔ ∃ m : Mark, s = m.inner ++ '>' :: rest := by
  rw [afterTag?_eq]
  constructor
  · intro found
    split at found
    · rename_i opens
      obtain ⟨⟨inner, after⟩, cut, rfl⟩ := Option.map_eq_some_iff.1 found
      obtain ⟨rfl, single⟩ := splitOnce_eq_some_iff.1 cut
      exact ⟨⟨inner, opensTag_of_append (by decide) opens, single⟩, rfl⟩
    · cases found
  · rintro ⟨m, rfl⟩
    rw [if_pos (opensTag_append m.opens _), splitOnce_append m.single]
    rfl

theorem afterTag?_eq_none_iff {s : List Char} :
    afterTag? s = none ↔ (opensTag s = true → '>' ∉ s) := by
  rw [afterTag?_eq]
  split
  · rename_i opens
    rw [Option.map_eq_none_iff, splitOnce_eq_none_iff]
    exact ⟨fun absent _ => absent, fun absent => absent opens⟩
  · rename_i other
    exact ⟨fun _ opens => absurd opens other, fun _ => rfl⟩

theorem Mark.text_append (m : Mark) (rest : List Char) :
    m.text ++ rest = '<' :: (m.inner ++ '>' :: rest) := by
  simp [text]

theorem removeTags_mark (m : Mark) (rest : List Char) :
    removeTags (m.text ++ rest) = removeTags rest := by
  have found : afterTag? (m.inner ++ '>' :: rest) = some rest :=
    afterTag?_eq_some_iff.2 ⟨m, rfl⟩
  rw [m.text_append, removeTags, if_pos rfl]
  split
  · rename_i behind same
    rw [found] at same
    rw [Option.some.inj same]
  · rename_i none
    rw [found] at none
    cases none

/-- Text in which no less-than sign starts a tag is kept. -/
theorem removeTags_append {s rest : List Char}
    (inert : ∀ before after, s = before ++ '<' :: after → afterTag? (after ++ rest) = none) :
    removeTags (s ++ rest) = s ++ removeTags rest := by
  induction s with
  | nil => rfl
  | cons c s ih =>
    have later := ih fun before after cut => inert (c :: before) after (by rw [cut]; rfl)
    rw [List.cons_append, removeTags, later]
    split
    · rename_i same
      have none := inert [] s (by rw [same]; rfl)
      split
      · rename_i found
        rw [none] at found
        cases found
      · rfl
    · rfl

namespace Division

theorem removeTags_runs {runs : List (List Char × Mark)} (plain : ∀ run ∈ runs, ¬ HasOpener run.1)
    (last : List Char) :
    removeTags (runs.flatMap (fun run => run.1 ++ run.2.text) ++ last) =
      runs.flatMap Prod.fst ++ removeTags last := by
  induction runs with
  | nil => rfl
  | cons run runs ih =>
    obtain ⟨s, m⟩ := run
    have first := plain (s, m) List.mem_cons_self
    have later := ih fun run mem => plain run (List.mem_cons_of_mem _ mem)
    have inert (rest : List Char) : ∀ before after, s = before ++ '<' :: after →
        afterTag? (after ++ (m.text ++ rest)) = none := by
      intro before after cut
      rw [afterTag?, if_neg]
      exact fun opens => first ⟨before, after, cut, opensTag_of_append (by decide) opens⟩
    rw [List.flatMap_cons, List.append_assoc, List.append_assoc, removeTags_append (inert _),
      removeTags_mark, later, List.flatMap_cons, List.append_assoc]

/-- The tags of a division are what is taken out of its text. -/
theorem removeTags_text (d : Division) : removeTags d.text = d.kept := by
  have inert : ∀ before after, d.last = before ++ '<' :: after →
      afterTag? (after ++ []) = none := by
    intro before after cut
    rw [List.append_nil]
    exact afterTag?_eq_none_iff.2 (d.unclosed before after cut)
  have whole := removeTags_append inert
  rw [List.append_nil, removeTags, List.append_nil] at whole
  rw [text, removeTags_runs d.plain, whole, kept]

end Division

/-! ### One division only -/

/-- The tag that opens first in a text opens in one place. -/
theorem eq_of_opener {s t i j : List Char} (plain : ¬ HasOpener s) (plain' : ¬ HasOpener t)
    (opens : opensTag i = true) (opens' : opensTag j = true) (same : s ++ '<' :: i = t ++ '<' :: j) :
    s = t ∧ i = j := by
  -- The longer of the two texts would hold the tag behind the other.
  have among {s t i j : List Char} (opens : opensTag i = true) (plain : ¬ HasOpener t)
      {middle : List Char} (longer : t = s ++ middle) (rest : '<' :: i = middle ++ '<' :: j) :
      middle = [] := by
    cases middle with
    | nil => rfl
    | cons c middle =>
      obtain ⟨rfl, rfl⟩ := List.cons.inj rest
      exact absurd ⟨s, middle, longer, opensTag_of_append (by decide) opens⟩ plain
  rcases List.append_eq_append_iff.1 same with ⟨middle, longer, rest⟩ | ⟨middle, longer, rest⟩
  · obtain rfl := among opens plain' longer rest
    rw [List.append_nil] at longer
    exact ⟨longer.symm, (List.cons.inj rest).2⟩
  · obtain rfl := among opens' plain longer rest
    rw [List.append_nil] at longer
    exact ⟨longer, (List.cons.inj rest).2.symm⟩

namespace Division

theorem text_cons {s : List Char} {m : Mark} {runs : List (List Char × Mark)} {last : List Char}
    {plain unclosed} : text ⟨(s, m) :: runs, last, plain, unclosed⟩ =
      s ++ '<' :: (m.inner ++ '>' :: (runs.flatMap (fun run => run.1 ++ run.2.text) ++ last)) := by
  simp [text, Mark.text]

/-- Behind the last tag none stands. -/
theorem last_ne (d : Division) (s : List Char) (m : Mark) (rest : List Char) :
    d.last ≠ s ++ '<' :: (m.inner ++ '>' :: rest) :=
  fun cut => d.unclosed _ _ cut (opensTag_append m.opens _) (by simp)

/-- A text has no two divisions. -/
theorem ext_text : ∀ {d e : Division}, d.text = e.text → d = e
  | ⟨[], last, _, _⟩, ⟨[], last', _, _⟩, same => by
    obtain rfl : last = last' := same
    rfl
  | ⟨[], last, plain, unclosed⟩, ⟨(s, m) :: _, _, _, _⟩, same =>
    absurd (same.trans text_cons) (last_ne ⟨[], last, plain, unclosed⟩ s m _)
  | ⟨(s, m) :: _, _, _, _⟩, ⟨[], last, plain, unclosed⟩, same =>
    absurd (same.symm.trans text_cons) (last_ne ⟨[], last, plain, unclosed⟩ s m _)
  | ⟨(s, m) :: runs, last, plain, unclosed⟩, ⟨(t, n) :: runs', last', plain', unclosed'⟩, same => by
    rw [text_cons, text_cons] at same
    obtain ⟨rfl, behind⟩ := eq_of_opener (plain _ List.mem_cons_self) (plain' _ List.mem_cons_self)
      (opensTag_append m.opens _) (opensTag_append n.opens _) same
    have cut := congrArg (splitOnce '>') behind
    rw [splitOnce_append m.single, splitOnce_append n.single] at cut
    obtain ⟨inner, rest⟩ := Prod.mk.inj (Option.some.inj cut)
    obtain rfl : m = n := Mark.ext inner
    have others : (⟨runs, last, fun run mem => plain run (List.mem_cons_of_mem _ mem), unclosed⟩ :
        Division) = ⟨runs', last', fun run mem => plain' run (List.mem_cons_of_mem _ mem),
          unclosed'⟩ := ext_text rest
    obtain ⟨rfl, rfl⟩ := Division.mk.inj others
    rfl
termination_by d => d.runs.length

/-! ### A division of each text -/

/-- A character that opens no tag joins the text in front of the first tag. -/
theorem exists_cons (d : Division) {c : Char} (other : c = '<' → afterTag? d.text = none) :
    ∃ e : Division, e.text = c :: d.text := by
  obtain ⟨runs, last, plain, unclosed⟩ := d
  cases runs with
  | nil =>
    refine ⟨⟨[], c :: last, nofun, ?_⟩, rfl⟩
    intro before after cut
    cases before with
    | nil =>
      obtain ⟨same, rfl⟩ := List.cons.inj cut
      exact afterTag?_eq_none_iff.1 (other same)
    | cons d before => exact unclosed before after (List.cons.inj cut).2
  | cons run runs =>
    obtain ⟨s, m⟩ := run
    have first : ¬ HasOpener (c :: s) := by
      rw [hasOpener_cons_iff]
      rintro (⟨same, opens⟩ | has)
      · have absent := afterTag?_eq_none_iff.1 (other same)
        rw [text_cons] at absent
        exact absent (opensTag_append opens _) (by simp)
      · exact plain (s, m) List.mem_cons_self has
    refine ⟨⟨(c :: s, m) :: runs, last, ?_, unclosed⟩, by rw [text_cons, text_cons]; rfl⟩
    exact List.forall_mem_cons.2 ⟨first, (List.forall_mem_cons.1 plain).2⟩

theorem exists_division (s : List Char) : ∃ d : Division, d.text = s := by
  fun_induction removeTags s with
  | case1 => exact ⟨⟨[], [], nofun, by simp⟩, rfl⟩
  | case2 s rest found ih =>
    obtain ⟨⟨runs, last, plain, unclosed⟩, rfl⟩ := ih
    obtain ⟨m, rfl⟩ := afterTag?_eq_some_iff.1 found
    have none : ¬ HasOpener [] := by simp [HasOpener]
    exact ⟨⟨([], m) :: runs, last, List.forall_mem_cons.2 ⟨none, plain⟩, unclosed⟩, text_cons⟩
  | case3 s unclosed ih =>
    obtain ⟨d, rfl⟩ := ih
    exact d.exists_cons fun _ => unclosed
  | case4 c s other ih =>
    obtain ⟨d, rfl⟩ := ih
    exact d.exists_cons fun same => absurd same other

end Division

/-- Every text has one division, and stripping it leaves what stands outside the tags, without the
white space at both ends. -/
theorem strip_division (text : String) :
    (∃! d : Division, d.text = text.toList) ∧
    ∀ d : Division, d.text = text.toList → strip text = String.ofList (trim d.kept) := by
  constructor
  · obtain ⟨d, whole⟩ := Division.exists_division text.toList
    exact ⟨d, whole, fun e same => Division.ext_text (same.trans whole.symm)⟩
  · intro d whole
    rw [strip, ← whole, d.removeTags_text]

example : strip "<p>a < b</p>, or <b" = "a < b, or <b" := by decide +kernel

end PhpSymbols.Markup
