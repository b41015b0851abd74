import PhpSymbols.Proofs.Docblock.Heading
import PhpSymbols.Proofs.Docblock.Words
import PhpSymbols.Proofs.Symbol.Lines
import PhpSymbols.Proofs.Ty.Reserved
import PhpSymbols.Reflect.Provider

/-!
# The lines of documented members

* `isWithin_of_ofBody?`: the names and default values of documented parameters are cut out of the
  tag;
* `PropertyTag.isOneLine_name`, `MethodTag.isOneLine_name`: a documented member has a name on one
  line;
* `Docblock.unfed_parse`: the tags of a comment have no line feeds;
* `Symbol.IsFolded`: an inline signature without line feeds;
* `PropertyTag.isFolded`, `MethodTag.isFolded`: the signatures of documented members are such if
  their tags have no line feeds.
-/

namespace PhpSymbols
open Text Ty.Expression

/-! ### Parts of a tag -/

theorem subset_intercalate {separator part : List Char} {parts : List (List Char)}
    (mem : part ∈ parts) : part ⊆ separator.intercalate parts := by
  induction parts with
  | nil => exact absurd mem List.not_mem_nil
  | cons first parts ih =>
    cases parts with
    | nil =>
      rw [List.mem_singleton.1 mem, List.intercalate_singleton]
      exact List.Subset.refl _
    | cons second parts =>
      rw [List.intercalate_cons_cons]
      rcases List.mem_cons.1 mem with rfl | mem
      · exact List.subset_append_of_subset_left _ (List.subset_append_left _ _)
      · exact List.subset_append_of_subset_right _ (ih mem)

theorem trim_subset (s : List Char) : trim s ⊆ s := fun _ => mem_of_mem_trim

theorem subset_of_mem_splitCommas {s part : List Char} (mem : part ∈ splitCommas s) :
    part ⊆ s := by
  obtain ⟨whole, among, rfl⟩ := List.mem_map.1 mem
  have inside : whole ⊆ [','].intercalate _ := subset_intercalate among
  rw [intercalate_splitTop] at inside
  exact List.Subset.trans (trim_subset whole) inside

theorem subset_of_splitOnce {c : Char} {s before after : List Char}
    (cut : splitOnce c s = some (before, after)) : before ⊆ s ∧ after ⊆ s := by
  obtain ⟨rfl, -⟩ := splitOnce_eq_some_iff.1 cut
  exact ⟨List.subset_append_left _ _, fun d mem => by simp [mem]⟩

theorem subset_of_splitOnceLast {c : Char} {s before after : List Char}
    (cut : splitOnceLast c s = some (before, after)) : before ⊆ s ∧ after ⊆ s := by
  obtain ⟨rfl, -⟩ := splitOnceLast_eq_some_iff.1 cut
  exact ⟨List.subset_append_left _ _, fun d mem => by simp [mem]⟩

namespace MethodTagParameter
variable {s t : List Char} {p : MethodTagParameter}

/-- The parameter has its name and its default value out of the text. -/
structure IsWithin (s : List Char) (p : MethodTagParameter) : Prop where
  name : p.name.toList ⊆ s
  initial : ∀ text, p.initial = some text → text.toList ⊆ s

theorem IsWithin.mono (within : p.IsWithin s) (inside : s ⊆ t) : p.IsWithin t where
  name := List.Subset.trans within.name inside
  initial text given := List.Subset.trans (within.initial text given) inside

theorem isWithin_of_ofDeclaration? {initial : Option String}
    (read : ofDeclaration? s initial = some p) (inside : s ⊆ t)
    (value : ∀ text, initial = some text → text.toList ⊆ t) : p.IsWithin t := by
  unfold ofDeclaration? at read
  obtain ⟨⟨before, after⟩, cut, read⟩ := Option.bind_eq_some_iff.1 read
  dsimp only at read
  split at read
  · cases read
  · obtain rfl := Option.some.inj read
    refine ⟨?_, value⟩
    rw [String.toList_ofList]
    exact List.Subset.trans (List.Subset.trans (trim_subset after) (subset_of_splitOnceLast cut).2)
      inside

theorem isWithin_of_ofText? (read : ofText? s = some p) : p.IsWithin s := by
  unfold ofText? at read
  split at read
  · rename_i declaration initial cut
    obtain ⟨front, back⟩ := subset_of_splitOnce cut
    apply isWithin_of_ofDeclaration? read (List.Subset.trans (trim_subset declaration) front)
    intro text given
    obtain rfl := Option.some.inj given
    rw [String.toList_ofList]
    exact List.Subset.trans (trim_subset initial) back
  · exact isWithin_of_ofDeclaration? read (List.Subset.refl s) nofun

theorem isWithin_of_listOfText (mem : p ∈ listOfText s) : p.IsWithin s := by
  obtain ⟨part, among, read⟩ := List.mem_filterMap.1 mem
  exact (isWithin_of_ofText? read).mono (subset_of_mem_splitCommas among)

end MethodTagParameter

/-! ### Tags of members -/

namespace MethodTag
variable {body : List Char} {tag : MethodTag}

theorem parameterText_subset (s : List Char) : parameterText s ⊆ s := by
  unfold parameterText
  split
  · rename_i inside behind cut
    exact List.Subset.trans (trim_subset inside) (subset_of_splitOnceLast cut).1
  · exact trim_subset s

/-- The name is one, and the parameters come out of the body. -/
theorem exists_of_ofBody? (read : ofBody? body = some tag) :
    (∃ name, isName name = true ∧ tag.name = String.ofList name) ∧
      ∃ text ⊆ body, tag.parameters = MethodTagParameter.listOfText text := by
  unfold ofBody? at read
  obtain ⟨⟨head, after⟩, cut, read⟩ := Option.bind_eq_some_iff.1 read
  dsimp only at read
  split at read
  · rename_i named
    obtain rfl := Option.some.inj read
    refine ⟨⟨_, named, rfl⟩, _, ?_, rfl⟩
    have behind : after ⊆ trim body :=
      List.Subset.trans (subset_of_splitOnce cut).2 (splitStatic_suffix _).subset
    exact List.Subset.trans (parameterText_subset after)
      (List.Subset.trans behind (trim_subset body))
  · cases read

theorem isOneLine_name (read : ofBody? body = some tag) : IsOneLine tag.name := by
  obtain ⟨⟨name, named, same⟩, -⟩ := exists_of_ofBody? read
  apply isOneLine_of_visible
  rw [same, String.toList_ofList]
  exact solid_of_isName named

theorem isWithin_of_ofBody? (read : ofBody? body = some tag) :
    ∀ p ∈ tag.parameters, p.IsWithin body := by
  obtain ⟨-, text, inside, same⟩ := exists_of_ofBody? read
  rw [same]
  exact fun p mem => (MethodTagParameter.isWithin_of_listOfText mem).mono inside

end MethodTag

theorem PropertyTag.isOneLine_name {tag : Tag} {p : PropertyTag} (read : ofTag? tag = some p) :
    IsOneLine p.name := by
  simp only [ofTag?, Option.bind_eq_bind, Option.bind_eq_some_iff] at read
  obtain ⟨access, -, word, found, read⟩ := read
  have solid : ∀ c ∈ word, isBlank c = false := by
    have among := (List.mem_filter.1 (List.mem_of_find?_eq_some found)).1
    simpa using not_of_mem_splitOnP among
  split at read
  · cases read
  · obtain rfl := Option.some.inj read
    apply isOneLine_of_visible
    rw [String.toList_ofList]
    exact fun c mem => solid c ((List.dropWhile_suffix _).subset mem)

/-! ### Documented members -/

theorem Docblock.unfed_parse (raw : String) :
    ∀ t ∈ (Docblock.parse raw).tags, '\n' ∉ t.body.toList := by
  rw [parse_eq]
  exact fun t mem => (isTidy_gather (fun row => isLine_of_mem_rowsOf) t mem).single

/-- The signature is broken where the texts that it takes over are, but by no line feed. -/
structure Symbol.IsFolded (x : Symbol) : Prop where
  isInline : x.IsInline
  unfed : '\n' ∉ x.signature.toList

theorem Symbol.IsInline.isFolded {x : Symbol} (isInline : x.IsInline)
    (unfed : ∀ text ∈ x.copied, '\n' ∉ text.toList) : x.IsFolded where
  isInline := isInline
  unfed feed := by
    rw [← lineFeed_mem_lineBreaks, isInline, List.mem_flatMap] at feed
    obtain ⟨text, mem, feed⟩ := feed
    exact unfed text mem (lineFeed_mem_lineBreaks.1 feed)

/-- The type that stands for the text of a tag. -/
theorem canonical_typed (resolver : Resolver) {absent : Ty}
    (canonical : absent.Canonical Ty.IsClassPath) (given : Option String) :
    (match given with
      | none => absent
      | some text => resolver.resolve text.toList).Canonical Ty.IsClassPath := by
  cases given with
  | none => exact canonical
  | some text => exact (Resolver.ReadFrom.one text).canonical

theorem PropertyTag.isFolded {tag : Tag} {named : PropertyTag} (read : ofTag? tag = some named)
    {resolver : Resolver} {owner : String} {p : Property}
    (declared : named.property? resolver owner = some p) :
    (Symbol.property { p with isVirtual := true }).IsFolded := by
  obtain rfl := Option.some.inj (Option.ite_none_left_eq_some.1 declared).2
  apply Symbol.IsInline.isFolded
  · exact Property.isInline (isOneLine_name read) (canonical_typed resolver (.inr .mixed) named.ty)
  · exact nofun

theorem MethodTag.isFolded {body : List Char} {tag : MethodTag} (read : ofBody? body = some tag)
    (unfed : '\n' ∉ body) {resolver : Resolver} {owner : String} {m : Method}
    (declared : tag.method? resolver owner = some m) :
    (Symbol.method { m with isVirtual := true }).IsFolded := by
  obtain rfl := Option.some.inj (Option.ite_none_left_eq_some.1 declared).2
  apply Symbol.IsInline.isFolded
  · refine Method.isInline (isOneLine_name read) ?_ (canonical_typed resolver (.inl rfl) _)
    intro p mem
    obtain ⟨q, -, rfl⟩ := List.mem_map.1 mem
    exact ⟨canonical_typed resolver (.inl rfl) q.ty, nofun⟩
  · intro text mem feed
    obtain ⟨p, among, taken⟩ := List.mem_flatMap.1 mem
    obtain ⟨q, declared, rfl⟩ := List.mem_map.1 among
    have within := isWithin_of_ofBody? read q declared
    rcases List.mem_append.1 taken with name | initial
    · obtain rfl := List.mem_singleton.1 name
      exact unfed (within.name feed)
    · exact unfed (within.initial text (Option.mem_toList.1 initial) feed)

end PhpSymbols
