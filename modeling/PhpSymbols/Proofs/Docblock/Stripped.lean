import PhpSymbols.Markdown.View
import PhpSymbols.Proofs.Docblock.Markup
import PhpSymbols.Proofs.Text.Trimmed

/-!
# Prose stripped once

Tags are taken out in one pass, and what is left is not read again.

* `HasTag`, `removeTags_eq_self_iff`: text without tags is what stays as it is;
* `hasTag_trim_iff`: white space at the ends has no part in this;
* `Division.Rejoins`, `hasTag_kept_iff`: a tag is left exactly where a less-than sign stood right
  in front of one that is taken out, and what is left behind that makes it the start of a tag;
* `strip_strip_iff`: in all other prose no tag is left, and stripping it again changes nothing.
-/

namespace PhpSymbols.Markup
open Text

/-- Some less-than sign starts a tag that closes. -/
def HasTag (s : List Char) : Prop :=
  ∃ before after, s = before ++ '<' :: after ∧ opensTag after = true ∧ '>' ∈ after

theorem HasTag.append {s : List Char} (h : HasTag s) (before after : List Char) :
    HasTag (before ++ s ++ after) := by
  obtain ⟨front, inner, rfl, opens, closes⟩ := h
  refine ⟨before ++ front, inner ++ after, by simp, opensTag_append opens after, ?_⟩
  simp [closes]

/-- A tag in two appended texts stands in the second, or starts in the first. -/
theorem hasTag_append_cases {s t : List Char} (h : HasTag (s ++ t)) :
    HasTag t ∨ ∃ before inner, s = before ++ '<' :: inner ∧ opensTag (inner ++ t) = true ∧
      '>' ∈ inner ++ t := by
  obtain ⟨before, after, cut, opens, closes⟩ := h
  rcases List.append_eq_append_iff.1 cut with ⟨middle, rfl, rfl⟩ | ⟨middle, rfl, rest⟩
  · exact .inl ⟨middle, after, rfl, opens, closes⟩
  · cases middle with
    | nil => exact .inl ⟨[], after, rest.symm, opens, closes⟩
    | cons c inner =>
      obtain ⟨rfl, rfl⟩ := List.cons.inj rest
      exact .inr ⟨before, inner, rfl, opens, closes⟩

/-! ### Text that stays as it is -/

namespace Division

theorem not_hasTag_last (d : Division) : ¬ HasTag d.last := by
  rintro ⟨before, after, cut, opens, closes⟩
  exact d.unclosed before after cut opens closes

/-- Each tag that is taken out makes the text shorter. -/
theorem length_kept (d : Division) : d.kept.length + d.runs.length ≤ d.text.length := by
  obtain ⟨runs, last, plain, unclosed⟩ := d
  simp only [kept, text, List.length_append]
  clear plain unclosed
  induction runs with
  | nil => simp
  | cons run runs ih =>
    simp only [List.flatMap_cons, List.length_append, List.length_cons, List.length_nil, Mark.text]
      at ih ⊢
    omega

theorem length_removeTags_lt (d : Division) (has : HasTag d.text) :
    (removeTags d.text).length < d.text.length := by
  have shorter := d.length_kept
  have some : d.runs ≠ [] := by
    intro none
    apply d.not_hasTag_last
    simpa [text, none] using has
  have := List.length_pos_iff.2 some
  rw [d.removeTags_text]
  omega

end Division

theorem length_removeTags_lt {s : List Char} (has : HasTag s) :
    (removeTags s).length < s.length := by
  obtain ⟨d, rfl⟩ := Division.exists_division s
  exact d.length_removeTags_lt has

/-- A text stays as it is exactly if it has no tag. -/
theorem removeTags_eq_self_iff {s : List Char} : removeTags s = s ↔ ¬ HasTag s := by
  constructor
  · intro same has
    have := length_removeTags_lt has
    rw [same] at this
    omega
  · intro plain
    have inert : ∀ before after, s = before ++ '<' :: after → afterTag? (after ++ []) = none := by
      intro before after cut
      rw [List.append_nil, afterTag?_eq_none_iff]
      exact fun opens closes => plain ⟨before, after, cut, opens, closes⟩
    simpa [removeTags] using removeTags_append inert

/-- White space at the ends belongs to no tag. -/
theorem hasTag_trim_iff {s : List Char} : HasTag (trim s) ↔ HasTag s := by
  constructor
  · intro has
    obtain ⟨before, after, -, -, whole⟩ := exists_trim s
    rw [whole]
    exact has.append before after
  · rintro ⟨before, after, rfl, opens, closes⟩
    obtain ⟨inner, rest, rfl⟩ := List.append_of_mem closes
    have opened : opensTag inner = true := opensTag_of_append (by decide) opens
    rw [trim_append_cons (by decide), trimEnd_append_cons (by decide)]
    refine ⟨trimStart before, inner ++ '>' :: trimEnd rest, rfl, ?_, by simp⟩
    exact opensTag_append opened _

/-! ### Tags that are left -/

/-- A less-than sign stands right in front of a tag that is taken out, and what is left behind
the tag makes it the start of another. -/
def Division.Rejoins (d : Division) : Prop :=
  ∃ before s m after, d.runs = before ++ (s ++ ['<'], m) :: after ∧
    opensTag (after.flatMap Prod.fst ++ d.last) = true ∧ '>' ∈ after.flatMap Prod.fst ++ d.last

/-- What is left has a tag exactly if the pieces of one come together. The induction is on the
tags that are taken out: the text in front of each has no opener of its own. -/
theorem hasTag_kept_iff (d : Division) : HasTag d.kept ↔ d.Rejoins := by
  obtain ⟨runs, last, plain, unclosed⟩ := d
  constructor
  · intro has
    induction runs with
    | nil => exact absurd has (Division.not_hasTag_last ⟨[], last, plain, unclosed⟩)
    | cons run runs ih =>
      obtain ⟨s, m⟩ := run
      obtain ⟨first, others⟩ := List.forall_mem_cons.1 plain
      rw [Division.kept, List.flatMap_cons, List.append_assoc] at has
      rcases hasTag_append_cases has with later | ⟨before, inner, cut, opens, closes⟩
      · obtain ⟨front, t, n, behind, split, opens, closes⟩ := ih others later
        exact ⟨(s, m) :: front, t, n, behind, by simpa using split, opens, closes⟩
      · cases inner with
        | nil => exact ⟨[], before, m, runs, by simp [← cut], opens, closes⟩
        | cons c inner => exact absurd ⟨before, c :: inner, cut, opens⟩ first
  · rintro ⟨before, s, m, after, split, opens, closes⟩
    refine ⟨before.flatMap Prod.fst ++ s, after.flatMap Prod.fst ++ last, ?_, opens, closes⟩
    simp only at split
    simp [Division.kept, split]

/-! ### Prose -/

theorem toList_strip {text : String} {d : Division} (whole : d.text = text.toList) :
    (strip text).toList = trim d.kept := by
  rw [strip, String.toList_ofList, ← whole, d.removeTags_text]

/-- Stripping stripped prose changes nothing exactly if no tag is left in it. -/
theorem strip_eq_self_iff {text : String} (trimmed : trim text.toList = text.toList) :
    strip text = text ↔ ¬ HasTag text.toList := by
  have shorter := length_trim_le (removeTags text.toList)
  rw [← String.toList_inj, strip, String.toList_ofList, ← removeTags_eq_self_iff]
  constructor
  · intro same
    by_contra other
    have := length_removeTags_lt (Classical.not_not.1 (mt removeTags_eq_self_iff.2 other))
    rw [same] at shorter
    omega
  · intro same
    rw [same, trimmed]

theorem trim_strip (text : String) : trim (strip text).toList = (strip text).toList := by
  rw [strip, String.toList_ofList]
  exact trim_of_isTrimmed (isTrimmed_trim _)

/-- In stripped prose a tag is left exactly if the pieces of one come together where another is
taken out. In all other prose none is left: stripping it again changes nothing, and what a view of
it binds holds none. -/
theorem strip_strip_iff (text : String) (d : Division) (whole : d.text = text.toList) :
    (HasTag (strip text).toList ↔ d.Rejoins) ∧
    (strip (strip text) = strip text ↔ ¬ d.Rejoins) ∧
    ∀ (h : Hover) (shownSymbol : String), h.docs = text →
      ∃ docs, (Markdown.hoverView h shownSymbol).child? "docs" = .ok (some (.text docs)) ∧
        (HasTag docs.toList ↔ d.Rejoins) := by
  have left : HasTag (strip text).toList ↔ d.Rejoins := by
    rw [toList_strip whole, hasTag_trim_iff, hasTag_kept_iff]
  refine ⟨left, ?_, ?_⟩
  · rw [strip_eq_self_iff (trim_strip text), left]
  · rintro h shownSymbol rfl
    refine ⟨strip h.docs, ?_, left⟩
    have same : Markdown.trimmed (strip h.docs) = strip h.docs := by
      rw [Markdown.trimmed, trim_strip, String.ofList_toList]
    simp [Markdown.hoverView, Template.Value.child?, List.lookup_cons, same]

/-! ### Less-than signs in front of a tag -/

/-- `1 <<b>2</b>`. -/
def compared : Division where
  runs := [
    ("1 <".toList, ⟨['b'], by decide, by decide⟩),
    (['2'], ⟨['/', 'b'], by decide, by decide⟩)]
  last := []
  plain := by
    have none : ¬ HasOpener [] := by simp [HasOpener]
    simp [hasOpener_cons_iff, none, opensTag]
  unclosed := by simp

theorem strip_strip_iff_compared :
    compared.text = "1 <<b>2</b>".toList ∧ strip "1 <<b>2</b>" = "1 <2" ∧
    strip "1 <2" = "1 <2" ∧ ¬ compared.Rejoins ∧ ¬ HasTag (strip "1 <<b>2</b>").toList := by
  have whole : compared.text = "1 <<b>2</b>".toList := by decide
  have first : strip "1 <<b>2</b>" = "1 <2" := by decide +kernel
  have second : strip "1 <2" = "1 <2" := by decide +kernel
  obtain ⟨left, again, -⟩ := strip_strip_iff _ compared whole
  have apart : ¬ compared.Rejoins := again.1 (by rw [first, second])
  exact ⟨whole, first, second, apart, mt left.1 apart⟩

/-- Taking out one tag brings the pieces of another together: it is left, and stripping again takes
it out. -/
theorem strip_strip_joined :
    strip "<<b>b>x" = "<b>x" ∧ HasTag (strip "<<b>b>x").toList ∧
    strip (strip "<<b>b>x") ≠ strip "<<b>b>x" := by
  have once : strip "<<b>b>x" = "<b>x" := by decide +kernel
  have twice : strip "<b>x" = "x" := by decide +kernel
  refine ⟨once, ?_, ?_⟩
  · rw [once]
    exact ⟨[], "b>x".toList, by decide, by decide, by decide⟩
  · rw [once, twice]
    decide

end PhpSymbols.Markup
