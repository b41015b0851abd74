import PhpSymbols.Proofs.Markdown.Texts

/-!
# What the bundled templates show

Whatever engine it uses, a renderer of the bundled templates never fails: `symbol_bundled`,
`type_bundled`, `resolution_bundled` and `hover_bundled` give its text for every item.
`bundled_endsLine` is that each of these texts ends with one line end behind something visible.
Signatures and names may hold anything, but a visible part of the template stands behind each; prose
is trimmed, so it may come last; and a list of members may be empty, so every part before it has to
end visibly too.
-/

namespace PhpSymbols.Markdown
open Template Signature Text

variable {title s : String}

theorem tight_only {condition : Bool} (tight : Tight s) : Tight (only condition s) := by
  cases condition
  · exact tight_empty
  · exact tight

theorem tight_section {entries : List String} (titled : EndsVisibly title)
    (each : ∀ e ∈ entries, EndsVisibly e) : Tight (sectionText title entries) :=
  tight_only (titled.append.append_tight (tight_join fun e mem => (each e mem).tight)).tight

theorem tight_trimmed (text : String) : Tight (trimmed text) := by
  intro c last
  rw [trimmed, String.toList_ofList] at last
  exact (isTrimmed_trim _).last c last

/-- The last part of the prose is trimmed and not empty. -/
theorem endsVisibly_prose {d : Docs} (some : prose d ≠ "") : EndsVisibly (prose d) := by
  apply endsVisibly_intercalate
  · intro none
    rw [prose, none] at some
    exact some rfl
  · intro part mem
    obtain ⟨isPart, kept⟩ := List.mem_filter.1 mem
    obtain ⟨text, -, rfl⟩ := List.mem_map.1 isPart
    exact (tight_trimmed text).endsVisibly (by simpa using kept)

theorem endsVisibly_heading (signature : String) (d : Docs) :
    EndsVisibly (headingText signature (prose d) d.isDeprecated) := by
  have fence : EndsVisibly ("```php\n" ++ signature ++ "\n```") := EndsVisibly.append (by decide)
  have docs : Tight (only (!(prose d).isEmpty) ("\n\n" ++ prose d)) := by
    by_cases some : prose d = ""
    · rw [some]
      exact tight_empty
    · exact tight_only (endsVisibly_prose some).append.tight
  exact (fence.append_tight docs).append_tight (tight_only (by decide))

theorem endsVisibly_supertype (relation : String) (s : Supertype) :
    EndsVisibly (supertypeText relation s) := EndsVisibly.append (by decide)

theorem endsVisibly_member (m : Listed) : EndsVisibly (memberText m) :=
  (EndsVisibly.append (by decide)).append_tight (tight_only (by decide))

theorem endsVisibly_owner (owner : String) (isVirtual : Bool) :
    EndsVisibly (ownerText owner isVirtual) :=
  (EndsVisibly.append (by decide)).append_tight (tight_only (by decide))

theorem endsLine_class (c : ClassLike) : EndsLine (classText c) := by
  have members {α : Type} (title : String) (titled : EndsVisibly title) (listed : α → Listed)
      (xs : List α) : Tight (sectionText title (xs.map fun x => memberText (listed x))) := by
    apply tight_section titled
    simp only [List.forall_mem_map]
    exact fun x _ => endsVisibly_member (listed x)
  have supertypes : Tight (sectionText "Supertypes"
      ((relations c).map fun r => supertypeText r.1 r.2)) := by
    apply tight_section (by decide)
    simp only [List.forall_mem_map]
    exact fun r _ => endsVisibly_supertype r.1 r.2
  apply endsLine_newline
  exact ((((endsVisibly_heading _ _).append_tight supertypes).append_tight
    (members "Constants" (by decide) listedConstant _)).append_tight
    (tight_only (members "Properties" (by decide) listedProperty _))).append_tight
    (members "Methods" (by decide) listedMethod _)

theorem endsLine_symbol (s : Symbol) : EndsLine (symbolText s) := by
  cases s with
  | classLike c => exact endsLine_class c
  | function f =>
    have ns : Tight (only (!(f.ns.getD "").isEmpty) ("\n\nNamespace: `" ++ f.ns.getD "" ++ "`")) :=
      tight_only (EndsVisibly.append (by decide)).tight
    exact endsLine_newline ((endsVisibly_heading _ _).append_tight ns)
  | method m => exact endsLine_newline (endsVisibly_owner _ _).append
  | property p => exact endsLine_newline (endsVisibly_owner _ _).append
  | constant k => exact endsLine_newline (endsVisibly_owner _ _).append

theorem endsLine_type (t : Ty) : EndsLine (typeText t) := by
  rw [typeText, show "`\n" = "`" ++ "\n" from rfl, ← String.append_assoc]
  exact endsLine_newline (EndsVisibly.append (by decide))

theorem endsLine_resolution (x : Resolution) : EndsLine (resolutionText x) := by
  have scope : EndsVisibly (scopeText x.enclosing) := by
    cases x.enclosing with
    | none => decide
    | some s => exact EndsVisibly.append (by decide)
  have locals : Tight (sectionText "Variables" (x.locals.toList.map localText)) := by
    apply tight_section (by decide)
    simp only [List.forall_mem_map]
    exact fun b _ => EndsVisibly.append (by decide)
  exact endsLine_newline (scope.append.append_tight locals)

theorem endsLine_hover (h : Hover) : EndsLine (hoverText h) := (endsLine_symbol h.symbol).append

end PhpSymbols.Markdown

namespace PhpSymbols.Renderer
open Markdown Template Text

/-- The renderer of the bundled templates, in which the one for interfaces shows enums. -/
def bundledOnly : Renderer := { templates := Markdown.bundled, usesCandidates := true }

theorem build_bundled [Engine] : build [.bundled] true = .ok bundledOnly := rfl

section
variable [Engine] [LawfulEngine]

theorem show_of_writes {r : Renderer} {v w : Variant} {t : Template}
    {view : Value} {s : String} (chosen : r.choose v = .ok (w, t))
    (writes : Writes view t.nodes s) :
    r.show_ v view = .ok s := by
  have rendered := LawfulEngine.render_of_writes writes
  simp only [show_, chosen, bind, Except.bind, rendered]
  rfl

theorem symbol_bundled (s : Symbol) : bundledOnly.symbol s = .ok (symbolText s) := by
  cases s with
  | classLike c =>
    obtain ⟨w, chosen⟩ : ∃ w, bundledOnly.choose (.ofKind c.kind) =
        .ok (w, if showsProperties c.kind then classTemplate else interfaceTemplate) := by
      cases c.kind <;> exact ⟨_, rfl⟩
    exact show_of_writes chosen (writes_class c)
  | function f => exact show_of_writes rfl (writes_function f)
  | method m => exact show_of_writes rfl (writes_method m)
  | property p => exact show_of_writes rfl (writes_property p)
  | constant k => exact show_of_writes rfl (writes_constant k)

theorem type_bundled (t : Ty) : bundledOnly.type_ t = .ok (typeText t) :=
  show_of_writes rfl (writes_type t)

theorem resolution_bundled (x : Resolution) :
    bundledOnly.resolution x = .ok (resolutionText x) :=
  show_of_writes rfl (writes_resolution x)

theorem hover_bundled (h : Hover) : bundledOnly.hover h = .ok (hoverText h) := by
  rw [hover, symbol_bundled]
  change bundledOnly.show_ .hover (hoverView h (symbolText h.symbol)) = _
  exact show_of_writes rfl (writes_hover h (endsLine_symbol h.symbol))

end

/-- With the bundled templates, every item is shown as its text, which ends with exactly one line
end, right behind something visible. -/
theorem bundled_endsLine [Engine] [LawfulEngine] :
    ∃ r, build [.bundled] true = .ok r ∧
      (∀ s, r.symbol s = .ok (symbolText s) ∧ EndsLine (symbolText s)) ∧
      (∀ t, r.type_ t = .ok (typeText t) ∧ EndsLine (typeText t)) ∧
      (∀ x, r.resolution x = .ok (resolutionText x) ∧ EndsLine (resolutionText x)) ∧
      ∀ h, r.hover h = .ok (hoverText h) ∧ EndsLine (hoverText h) := by
  refine ⟨bundledOnly, build_bundled, ?symbols, ?types, ?resolutions, ?hovers⟩
  case symbols => exact fun s => ⟨symbol_bundled s, endsLine_symbol s⟩
  case types => exact fun t => ⟨type_bundled t, endsLine_type t⟩
  case resolutions => exact fun x => ⟨resolution_bundled x, endsLine_resolution x⟩
  case hovers => exact fun h => ⟨hover_bundled h, endsLine_hover h⟩

/-- So it is with the renderer of this program. -/
theorem bundled_endsLine_rendered :
    ∃ r, build [.bundled] true = .ok r ∧
      (∀ s, r.symbol s = .ok (symbolText s) ∧ EndsLine (symbolText s)) ∧
      (∀ t, r.type_ t = .ok (typeText t) ∧ EndsLine (typeText t)) ∧
      (∀ x, r.resolution x = .ok (resolutionText x) ∧ EndsLine (resolutionText x)) ∧
      ∀ h, r.hover h = .ok (hoverText h) ∧ EndsLine (hoverText h) :=
  bundled_endsLine

end PhpSymbols.Renderer
