import PhpSymbols.Proofs.Docblock.Stripped
import PhpSymbols.Proofs.Markdown.Shown

/-!
# What a hover box adds to its symbol

* `lead`: the title and the prose, each only if there is any, and each set off from what follows;
* `lead_eq_empty_iff`: nothing is added exactly if there is neither;
* `hover_wraps`: a hover box is this lead in front of the markdown of the symbol alone.
-/

namespace PhpSymbols.Markdown
open Text

/-- A title in bold and a blank line; prose, a blank line, a rule and a blank line. -/
def lead (title docs : String) : String :=
  (if title = "" then "" else "**" ++ title ++ "**\n\n") ++
    if docs = "" then "" else docs ++ "\n\n---\n\n"

theorem lead_eq_empty_iff {title docs : String} :
    lead title docs = "" ↔ title = "" ∧ docs = "" := by
  unfold lead
  by_cases noTitle : title = "" <;> by_cases noDocs : docs = "" <;>
    simp [noTitle, noDocs, String.append_eq_empty_iff]

/-- Stripped prose has nothing left to trim. -/
theorem trimmed_strip (docs : String) : trimmed (Markup.strip docs) = Markup.strip docs := by
  rw [trimmed, Markup.trim_strip, String.ofList_toList]

theorem hoverFront_eq (h : Hover) : hoverFront h = lead h.title (Markup.strip h.docs) := by
  unfold hoverFront lead Signature.only
  rw [trimmed_strip]
  by_cases noTitle : h.title = "" <;> by_cases noDocs : Markup.strip h.docs = "" <;>
    simp [noTitle, noDocs]

end PhpSymbols.Markdown

namespace PhpSymbols.Renderer
open Markdown Template Text

/-- With the bundled templates a hover box shows the markdown of its symbol alone, unchanged, behind
the title and the prose without its markup. So it adds nothing exactly if there is no title and
nothing is left of the prose. -/
theorem hover_wraps [Engine] [LawfulEngine] :
    ∃ r, build [.bundled] true = .ok r ∧ ∀ h : Hover,
      (∃ shown, r.symbol h.symbol = .ok shown ∧
        r.hover h = .ok (lead h.title (Markup.strip h.docs) ++ shown)) ∧
      (r.hover h = r.symbol h.symbol ↔ h.title = "" ∧ Markup.strip h.docs = "") ∧
      r.hover { h with title := "", docs := "" } = r.symbol h.symbol := by
  refine ⟨bundledOnly, build_bundled, fun h => ?_⟩
  have wraps (h : Hover) : bundledOnly.hover h =
      .ok (lead h.title (Markup.strip h.docs) ++ symbolText h.symbol) := by
    rw [hover_bundled, hoverText, hoverFront_eq]
  have adds (h : Hover) : bundledOnly.hover h = bundledOnly.symbol h.symbol ↔
      h.title = "" ∧ Markup.strip h.docs = "" := by
    rw [wraps, symbol_bundled, Except.ok.injEq, String.append_eq_right_iff, lead_eq_empty_iff]
  refine ⟨⟨symbolText h.symbol, symbol_bundled _, wraps h⟩, adds h, ?_⟩
  have nothing : Markup.strip "" = "" := by simp [Markup.strip, Markup.removeTags, trim_of_blank]
  exact (adds { h with title := "", docs := "" }).2 ⟨rfl, nothing⟩

/-- So it is with the renderer of this program. -/
theorem hover_wraps_rendered :
    ∃ r, build [.bundled] true = .ok r ∧ ∀ h : Hover,
      (∃ shown, r.symbol h.symbol = .ok shown ∧
        r.hover h = .ok (lead h.title (Markup.strip h.docs) ++ shown)) ∧
      (r.hover h = r.symbol h.symbol ↔ h.title = "" ∧ Markup.strip h.docs = "") ∧
      r.hover { h with title := "", docs := "" } = r.symbol h.symbol :=
  hover_wraps

end PhpSymbols.Renderer
