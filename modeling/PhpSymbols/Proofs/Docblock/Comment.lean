import PhpSymbols.Proofs.Docblock.Layout

/-!
# Comments and their reading

* `Comment`: what a doc comment says, as lines of prose and of tags; `Comment.docblock`: what is to
  be read of it;
* `ProseRows`, `TagRows`, `Comment.HasRows`: the rows that say it, with blank ones among them;
* `gather_tagRows`, `paragraphs_proseRows`: tags and paragraphs are told apart again;
* `parse_write`: a comment is read as what it says, whatever its layout.
-/

namespace PhpSymbols.Docblock
open Text

/-! ### What a comment says -/

/-- A line of text that neither hides in the decoration nor opens a tag: an at sign in front is all
of it, or stands before white space. -/
structure IsPlainLine (s : List Char) : Prop where
  ne_nil : s ≠ []
  trimmed : IsTrimmed s
  single : '\n' ∉ s
  noStar : s.head? ≠ some '*'
  noTag : s.head? = some '@' → ∀ c ∈ s[1]?, isBlank c = true

instance (s : List Char) : Decidable (IsPlainLine s) :=
  decidable_of_iff (s ≠ [] ∧ IsTrimmed s ∧ '\n' ∉ s ∧ s.head? ≠ some '*' ∧
      (s.head? = some '@' → ∀ c ∈ s[1]?, isBlank c = true))
    ⟨fun ⟨a, b, c, d, e⟩ => ⟨a, b, c, d, e⟩, fun ⟨a, b, c, d, e⟩ => ⟨a, b, c, d, e⟩⟩

/-- A tag, line by line. -/
structure TagLines where
  name : List Char
  /-- What stands behind the name on its line; there may be nothing. -/
  first : List Char := []
  more : List (List Char) := []
  name_ne_nil : name ≠ [] := by decide
  solid : ∀ c ∈ name, isBlank c = false := by decide
  trimmed : IsTrimmed first := by decide
  single : '\n' ∉ first := by decide
  plain : ∀ line ∈ more, IsPlainLine line := by decide

/-- The tag, with the lines of its body that hold text joined by single spaces. -/
def TagLines.tag (t : TagLines) : Tag :=
  ⟨String.ofList t.name,
    String.ofList ([' '].intercalate ((t.first :: t.more).filter fun line => !line.isEmpty))⟩

structure Comment where
  paragraphs : List (List (List Char)) := []
  tags : List TagLines := []
  ne_nil : ∀ p ∈ paragraphs, p ≠ [] := by decide
  plain : ∀ p ∈ paragraphs, ∀ line ∈ p, IsPlainLine line := by decide

/-- The first paragraph, the others with blank lines between them, and the tags. -/
def Comment.docblock (c : Comment) : Docblock :=
  { summary := String.ofList (['\n'].intercalate (c.paragraphs.headD []))
    description := String.ofList ("\n\n".toList.intercalate
      (c.paragraphs.tail.map fun p => ['\n'].intercalate p))
    tags := c.tags.map TagLines.tag }

/-! ### Rows -/

/-- Paragraphs with blank rows around them, and at least one between any two. -/
inductive ProseRows : List (List (List Char)) → List (List Char) → Prop where
  | none : ProseRows [] []
  | blank {ps : List (List (List Char))} {rows : List (List Char)} :
      ProseRows ps rows → ProseRows ps ([] :: rows)
  | last (p : List (List Char)) : ProseRows [p] p
  | cons {ps : List (List (List Char))} {rows : List (List Char)} (p : List (List Char)) :
      ProseRows ps rows → ProseRows (p :: ps) (p ++ [] :: rows)

/-- The row that opens a tag: its name, and behind white space what stands with it. -/
inductive TagLines.Opens (t : TagLines) : List Char → Prop where
  | alone : t.first = [] → t.Opens ('@' :: t.name)
  | followed {gap : List Char} : t.first ≠ [] → gap ≠ [] → IsSpace gap →
      t.Opens ('@' :: (t.name ++ (gap ++ t.first)))

/-- Tags with any blank rows between and behind their lines. -/
inductive TagRows : List TagLines → List (List Char) → Prop where
  | none {rows : List (List Char)} : (∀ row ∈ rows, row = []) → TagRows [] rows
  | cons {t : TagLines} {ts : List TagLines} {opening : List Char}
      {body rows : List (List Char)} : t.Opens opening →
      (body.filter fun row => !row.isEmpty) = t.more → TagRows ts rows →
      TagRows (t :: ts) (opening :: (body ++ rows))

/-- The rows say what the comment says: its prose, and then its tags. -/
def Comment.HasRows (c : Comment) (rows : List (List Char)) : Prop :=
  ∃ prose tags, rows = prose ++ tags ∧ ProseRows c.paragraphs prose ∧ TagRows c.tags tags

/-! ### Single rows -/

theorem IsPlainLine.isRow {s : List Char} (plain : IsPlainLine s) : IsRow s :=
  ⟨plain.trimmed, plain.noStar, plain.single⟩

theorem IsPlainLine.opensNone {s : List Char} (plain : IsPlainLine s) : tagOfLine? s = none := by
  match s with
  | [] => rfl
  | c :: rest =>
    by_cases at_ : c = '@'
    · subst at_
      cases rest with
      | nil => rfl
      | cons d rest =>
        have blank := plain.noTag rfl d rfl
        simp only [tagOfLine?, breakOn, List.takeWhile_cons, blank, Bool.not_true,
          Bool.false_eq_true, if_false]
    · rw [tagOfLine?.eq_def]
      split
      · rename_i same
        exact absurd (List.cons.inj same).1 at_
      · rfl

/-- A row that is blank or a line of text opens no tag, and can be told from its decoration. -/
def IsUntagged (row : List Char) : Prop := row = [] ∨ IsPlainLine row

theorem IsUntagged.opensNone {row : List Char} (untagged : IsUntagged row) :
    tagOfLine? row = none := by
  rcases untagged with rfl | plain
  · rfl
  · exact plain.opensNone

theorem IsUntagged.isRow {row : List Char} (untagged : IsUntagged row) : IsRow row := by
  rcases untagged with rfl | plain
  · exact isRow_nil
  · exact plain.isRow

namespace TagLines
variable {t : TagLines} {opening : List Char}

theorem Opens.tagOfLine (opens : t.Opens opening) :
    tagOfLine? opening = some (t.name, t.first) := by
  have read {s : List Char} (space : ∀ c ∈ s.head?, isBlank c) :
      tagOfLine? ('@' :: (t.name ++ s)) = some (t.name, trim s) :=
    tagOfLine?_append t.name_ne_nil t.solid space
  cases opens with
  | alone none =>
    have bare := read (s := []) (by simp)
    rw [List.append_nil] at bare
    rw [bare, none]
    rfl
  | @followed gap _ some space =>
    rw [read (head?_blank_append some space.blank t.first), trim_blank_append space.blank,
      trim_of_isTrimmed t.trimmed]

theorem Opens.isRow (opens : t.Opens opening) : IsRow opening := by
  have noBreak : '\n' ∉ t.name := fun mem => absurd (t.solid _ mem) (by decide)
  have lastName : ∀ c ∈ t.name.getLast?, isBlank c = false :=
    fun c last => t.solid c (List.mem_of_getLast? last)
  have head : ∀ c ∈ (some '@' : Option Char), isBlank c = false := by
    rintro c ⟨⟩
    decide
  cases opens with
  | alone =>
    refine ⟨⟨head, ?_⟩, by simp, ?_⟩
    · intro c last
      rw [List.getLast?_cons_of_ne_nil t.name_ne_nil] at last
      exact lastName c last
    · simpa using noBreak
  | @followed gap notNil _ space =>
    refine ⟨⟨head, ?_⟩, by simp, ?_⟩
    · intro c last
      rw [List.getLast?_cons_of_ne_nil (by simp [notNil]),
        List.getLast?_append_of_ne_nil _ (by simp [notNil]),
        List.getLast?_append_of_ne_nil _ notNil] at last
      exact t.trimmed.last c last
    · simpa using ⟨noBreak, space.single, t.single⟩

end TagLines

/-! ### Tags -/

theorem gather_append {prose : List (List Char)} (untagged : ∀ row ∈ prose, IsUntagged row)
    (rest : List (List Char)) :
    gather (prose ++ rest) = (prose ++ (gather rest).1, (gather rest).2) := by
  induction prose with
  | nil => rfl
  | cons row prose ih =>
    rw [List.cons_append, gather, ih fun row mem => untagged row (List.mem_cons_of_mem _ mem),
      (untagged row List.mem_cons_self).opensNone]
    rfl

/-- Behind its opening row, a tag has only such rows. -/
theorem TagLines.untagged {t : TagLines} {body : List (List Char)}
    (same : (body.filter fun row => !row.isEmpty) = t.more) : ∀ row ∈ body, IsUntagged row := by
  intro row mem
  by_cases none : row = []
  · exact .inl none
  · have kept : row ∈ t.more := same ▸ List.mem_filter.2 ⟨mem, by simpa using none⟩
    exact .inr (t.plain row kept)

theorem filter_blank {rows : List (List Char)} (blank : ∀ row ∈ rows, row = []) :
    (rows.filter fun row => !row.isEmpty) = [] := by
  rw [List.filter_eq_nil_iff]
  intro row mem
  simp [blank row mem]

/-- Tags are cut apart; what stands in front of the first is blank. -/
theorem gather_tagRows {ts : List TagLines} {rows : List (List Char)} (spells : TagRows ts rows) :
    ∃ lead, (∀ row ∈ lead, row = []) ∧ gather rows = (lead, ts.map TagLines.tag) := by
  induction spells with
  | @none rows blank =>
    have all := gather_append (fun row mem => .inl (blank row mem)) []
    rw [List.append_nil] at all
    exact ⟨rows, blank, by rw [all, gather, List.append_nil]; rfl⟩
  | @cons t ts opening body rows opens same _ ih =>
    obtain ⟨lead, blank, rest⟩ := ih
    refine ⟨[], nofun, ?_⟩
    have text : joinBody (t.first :: (body ++ lead)) = t.tag.body := by
      rw [joinBody, TagLines.tag, List.filter_cons, List.filter_cons, List.filter_append, same,
        filter_blank blank, List.append_nil,
        List.filter_eq_self.2 fun line mem => by simpa using (t.plain line mem).ne_nil]
    rw [gather, gather_append (TagLines.untagged same), rest, opens.tagOfLine]
    dsimp only
    rw [text]
    rfl

theorem TagRows.append_blank {ts : List TagLines} {rows behind : List (List Char)}
    (spells : TagRows ts rows) (blank : ∀ row ∈ behind, row = []) : TagRows ts (rows ++ behind) := by
  induction spells with
  | none before =>
    apply TagRows.none
    intro row mem
    exact (List.mem_append.1 mem).elim (before row) (blank row)
  | cons opens same _ ih =>
    rw [List.cons_append, List.append_assoc]
    exact .cons opens same ih

/-! ### Paragraphs -/

theorem ProseRows.append_blank {ps : List (List (List Char))} {prose lead : List (List Char)}
    (spells : ProseRows ps prose) (blank : ∀ row ∈ lead, row = []) : ProseRows ps (prose ++ lead) := by
  have alone {lead : List (List Char)} (blank : ∀ row ∈ lead, row = []) : ProseRows [] lead := by
    induction lead with
    | nil => exact .none
    | cons row lead ih =>
      rw [blank row List.mem_cons_self]
      exact .blank (ih fun row mem => blank row (List.mem_cons_of_mem _ mem))
  induction spells with
  | none => exact alone blank
  | blank _ ih => exact .blank ih
  | last p =>
    cases lead with
    | nil =>
      rw [List.append_nil]
      exact .last p
    | cons row lead =>
      rw [blank row List.mem_cons_self]
      exact .cons p (alone fun row mem => blank row (List.mem_cons_of_mem _ mem))
  | cons p _ ih =>
    rw [List.append_assoc]
    exact .cons p ih

/-- Paragraphs are cut apart at blank rows. -/
theorem paragraphs_proseRows {ps : List (List (List Char))} {rows : List (List Char)}
    (spells : ProseRows ps rows) (some : ∀ p ∈ ps, p ≠ [])
    (text : ∀ p ∈ ps, ∀ line ∈ p, line ≠ []) : paragraphs rows = ps := by
  have held {p : List (List Char)} (text : ∀ line ∈ p, line ≠ []) :
      ∀ line ∈ p, List.isEmpty line = false :=
    fun line mem => by simpa using text line mem
  induction spells with
  | none => rfl
  | @blank ps rows _ ih =>
    have nothing : ∀ line ∈ ([] : List (List Char)), List.isEmpty line = false := nofun
    have cut : ([] :: rows).splitOnP List.isEmpty = [] :: rows.splitOnP List.isEmpty :=
      List.splitOnP_append_cons_of_forall_mem nothing [] rfl rows
    rw [paragraphs, cut, List.filter_cons_of_neg (by simp)]
    exact ih some text
  | last p =>
    have one := text p List.mem_cons_self
    rw [paragraphs, List.splitOnP_eq_singleton (held one),
      List.filter_cons_of_pos (by simpa using some p List.mem_cons_self), List.filter_nil]
  | @cons ps rows p _ ih =>
    have one := text p List.mem_cons_self
    rw [paragraphs, List.splitOnP_append_cons_of_forall_mem (held one) [] rfl,
      List.filter_cons_of_pos (by simpa using some p List.mem_cons_self)]
    exact congrArg (p :: ·) (ih (fun q mem => some q (List.mem_cons_of_mem p mem))
      fun q mem => text q (List.mem_cons_of_mem p mem))

/-! ### Comments -/

theorem ProseRows.mem {ps : List (List (List Char))} {rows : List (List Char)}
    (spells : ProseRows ps rows) : ∀ row ∈ rows, row = [] ∨ ∃ p ∈ ps, row ∈ p := by
  induction spells with
  | none => exact nofun
  | blank _ ih =>
    intro row mem
    rcases List.mem_cons.1 mem with none | mem
    · exact .inl none
    · exact ih row mem
  | last p => exact fun row mem => .inr ⟨p, List.mem_cons_self, mem⟩
  | @cons ps rows p _ ih =>
    intro row mem
    rcases List.mem_append.1 mem with mem | mem
    · exact .inr ⟨p, List.mem_cons_self, mem⟩
    · rcases List.mem_cons.1 mem with none | mem
      · exact .inl none
      · exact (ih row mem).imp_right fun ⟨q, among, mem⟩ => ⟨q, List.mem_cons_of_mem p among, mem⟩

theorem TagRows.isRow {ts : List TagLines} {rows : List (List Char)} (spells : TagRows ts rows) :
    ∀ row ∈ rows, IsRow row := by
  induction spells with
  | none blank => exact fun row mem => blank row mem ▸ isRow_nil
  | @cons t ts opening body rows opens same _ ih =>
    intro row mem
    rcases List.mem_cons.1 mem with rfl | mem
    · exact opens.isRow
    · rcases List.mem_append.1 mem with mem | mem
      · exact (TagLines.untagged same row mem).isRow
      · exact ih row mem

namespace Comment
variable {c : Comment}

theorem untagged {prose : List (List Char)} (spells : ProseRows c.paragraphs prose) :
    ∀ row ∈ prose, IsUntagged row := by
  intro row mem
  exact (spells.mem row mem).imp_right fun ⟨p, among, mem⟩ => c.plain p among row mem

/-- The prose of a comment in front of blank rows is its paragraphs. -/
theorem paragraphs_eq {prose lead : List (List Char)} (spells : ProseRows c.paragraphs prose)
    (blank : ∀ row ∈ lead, row = []) :
    Docblock.paragraphs ([] :: (prose ++ lead)) = c.paragraphs :=
  paragraphs_proseRows (.blank (spells.append_blank blank)) c.ne_nil
    fun p among line mem => (c.plain p among line mem).ne_nil

/-- A comment is read as what it says, whatever its layout: the white space and the stars before and
behind each line, the line ends, and the blank lines between paragraphs and among the tags. -/
theorem parse_write (c : Comment) (l : Layout) (spells : c.HasRows l.rows) :
    Docblock.parse (String.ofList l.write) = c.docblock := by
  obtain ⟨prose, tagged, rows, spellsProse, spellsTags⟩ := spells
  have isRow : ∀ row ∈ l.rows, IsRow row := by
    intro row mem
    rw [rows] at mem
    rcases List.mem_append.1 mem with mem | mem
    · exact (untagged spellsProse row mem).isRow
    · exact spellsTags.isRow row mem
  obtain ⟨behind, blankBehind, texts⟩ := texts_write isRow
  have tagsBehind : TagRows c.tags (tagged ++ behind) := spellsTags.append_blank blankBehind
  obtain ⟨lead, blankLead, gathered⟩ := gather_tagRows tagsBehind
  have before : ∀ row ∈ [] :: prose, IsUntagged row := by
    intro row mem
    rcases List.mem_cons.1 mem with none | mem
    · exact .inl none
    · exact untagged spellsProse row mem
  have cut : gather ((lines (withoutDelimiters l.write)).map lineText) =
      ([] :: (prose ++ lead), c.tags.map TagLines.tag) := by
    have split : [] :: (l.rows ++ behind) = ([] :: prose) ++ (tagged ++ behind) := by
      rw [rows, List.append_assoc, List.cons_append]
    rw [texts, split, gather_append before, gathered]
    rfl
  have paragraphs := c.paragraphs_eq spellsProse blankLead
  rw [Docblock.parse, String.toList_ofList]
  simp only [cut, paragraphs]
  rw [docblock]
  cases c.paragraphs <;> rfl

/-! ### A loose layout -/

def loose : Comment :=
  { paragraphs := [["It adds".toList, "@ once.".toList], ["And more.".toList]]
    tags := [
      { name := "param".toList, first := "int $a".toList, more := ["the".toList, "@".toList] },
      { name := "see".toList, more := ["Other".toList] },
      { name := "final".toList }] }

def looseLayout : Layout :=
  { before := "\n ".toList
    opening := " ".toList
    openingEnd := .returnFeed
    lines := [
      ⟨{ indent := "\t".toList, stars := 1, gap := " ".toList, trailing := "  ".toList },
        "It adds".toList, .feed⟩,
      ⟨{}, "@ once.".toList, .returnFeed⟩,
      ⟨{ stars := 3 }, [], .feed⟩,
      ⟨{}, [], .feed⟩,
      ⟨{ stars := 2 }, "And more.".toList, .feed⟩,
      ⟨{ stars := 1, gap := " ".toList }, "@param\tint $a".toList, .feed⟩,
      ⟨{ stars := 1, gap := "   ".toList }, "the".toList, .feed⟩,
      ⟨{ stars := 1 }, [], .feed⟩,
      ⟨{ stars := 1 }, "@".toList, .feed⟩,
      ⟨{ indent := " ".toList }, "@see".toList, .feed⟩,
      ⟨{}, "Other".toList, .returnFeed⟩,
      ⟨{}, [], .feed⟩,
      ⟨{}, "@final".toList, .feed⟩]
    closing := { indent := " ".toList, stars := 1 }
    after := " ".toList }

theorem loose_rows : loose.HasRows looseLayout.rows := by
  have prose : ProseRows loose.paragraphs
      ["It adds".toList, "@ once.".toList, [], [], "And more.".toList] :=
    .cons ["It adds".toList, "@ once.".toList] (.blank (.last ["And more.".toList]))
  have final : TagRows [{ name := "final".toList }] ["@final".toList] :=
    @TagRows.cons _ _ _ [] [] (.alone rfl) rfl (.none nofun)
  have see : TagRows [{ name := "see".toList, more := ["Other".toList] },
      { name := "final".toList }] ["@see".toList, "Other".toList, [], "@final".toList] :=
    @TagRows.cons _ _ _ ["Other".toList, []] _ (.alone rfl) (by decide) final
  have param : TagRows loose.tags ["@param\tint $a".toList, "the".toList, [], "@".toList,
      "@see".toList, "Other".toList, [], "@final".toList] := by
    refine @TagRows.cons _ _ _ ["the".toList, [], "@".toList] _ ?_ (by decide) see
    exact @TagLines.Opens.followed _ ['\t'] (by decide) (by decide) (by decide)
  exact ⟨_, _, rfl, prose, param⟩

def looseText : String :=
  "\n /** \r\n\t* It adds  \n@ once.\r\n***\n\n**And more.\n* @param\tint $a\n" ++
    "*   the\n*\n*@\n @see\nOther\r\n\n@final\n **/ "

theorem write_looseLayout : String.ofList looseLayout.write = looseText := by
  decide +kernel

theorem parse_write_loose :
    loose.HasRows looseLayout.rows ∧
    Docblock.parse looseText =
      { summary := "It adds\n@ once."
        description := "And more."
        tags := [⟨"param", "int $a the @"⟩, ⟨"see", "Other"⟩, ⟨"final", ""⟩] } := by
  refine ⟨loose_rows, ?_⟩
  rw [← write_looseLayout, parse_write loose looseLayout loose_rows]
  rfl

end Comment
end PhpSymbols.Docblock
