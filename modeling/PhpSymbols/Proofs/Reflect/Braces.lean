import PhpSymbols.Proofs.Php.Lawful
import PhpSymbols.Proofs.Reflect.Faithful

/-!
# Where the braces of a class-like stand

The places of a class-like are those in the text as read. Where the source was mended, they are not
the places in the source.

* `exists_braces`: the offsets of a class-like are the shifted places of two braces of the source;
* `classesIn_braces`: so it is for all class-likes that a session finds in a source.
-/

namespace PhpSymbols
open Php Text

/-- The offsets of a declared class-like are those of two braces of the source, shifted. -/
theorem exists_braces [Frontend] [LawfulFrontend] {resolver : Resolver} {source : String}
    {d : DeclaredClass} (mem : d ∈ (Declarations.of resolver source).classes) :
    (∃ opening, byteAt? source opening = some '\x7b'.toUInt8 ∧
      d.symbol.startOffset = (Reading.of source).shifted opening) ∧
    ∃ closing, byteAt? source closing = some '\x7d'.toUInt8 ∧
      d.symbol.endOffset = (Reading.of source).shifted closing + 1 := by
  obtain ⟨declared, listed, read⟩ := List.mem_filterMap.1 mem
  have taken := (Declared.wellRead listed).braces
  match declared, read with
  | .classLike ns (.mk _ _ _ _ _ _ braces _), rfl =>
    obtain ⟨opens, n, stop, closes⟩ := taken ns _ rfl
    obtain ⟨opening, stands, start⟩ := Reading.exists_standsAt (by decide) opens
    obtain ⟨closing, stands', last⟩ := Reading.exists_standsAt (by decide) closes
    refine ⟨⟨opening, byteAt?_of_standsAt (by decide) stands, start⟩, closing,
      byteAt?_of_standsAt (by decide) stands', ?_⟩
    rw [← last]
    exact stop

/-- A place is not shifted by what was put into the source behind it. -/
theorem Php.Reading.shifted_of_lt {r : Reading} {o : Nat} (behind : ∀ p ∈ r.inserted, o < p) :
    r.shifted o = o := by
  have none : r.inserted.filter (· ≤ o) = [] := by
    rw [List.filter_eq_nil_iff]
    intro p mem
    simpa using behind p mem
  rw [shifted, none]
  rfl

theorem Php.Reading.le_shifted (r : Reading) (o : Nat) : o ≤ r.shifted o := Nat.le_add_right _ _

variable {κ : Type} {key : String → κ} [DecidableEq κ]

/-- Completing class-likes leaves their offsets as they are. -/
theorem ReflectorBy.places_classesIn [Frontend] [Walker] (r : ReflectorBy key) {s : SessionBy key}
    {source : String} (faithful : s.FaithfulTo r.resolver source) :
    ((r.classesIn source).run s).1.toList.map (fun c => (c.startOffset, c.endOffset)) =
      (Declarations.of r.resolver source).classes.map
        fun d => (d.symbol.startOffset, d.symbol.endOffset) := by
  have completed := r.toList_classesIn faithful
  generalize ((r.classesIn source).run s).1.toList = cs at completed ⊢
  generalize (Declarations.of r.resolver source).classes = ds at completed ⊢
  induction completed with
  | nil => rfl
  | cons first _ ih =>
    obtain ⟨-, -, start, stop⟩ := first.same
    rw [List.map_cons, List.map_cons, ih, start, stop]

/-- Each class-like found in a source has its braces in it, and its offsets are their places in the
text as read: each semicolon put into the source at or before a brace moves the offset by one. So
the offsets are places of the source exactly up to the first semicolon put into it. -/
theorem ReflectorBy.classesIn_braces [Frontend] [LawfulFrontend] [Walker]
    (r : ReflectorBy key) {s : SessionBy key} {source : String}
    (faithful : s.FaithfulTo r.resolver source) :
    ∀ c ∈ ((r.classesIn source).run s).1.toList,
      (∃ opening, byteAt? source opening = some '\x7b'.toUInt8 ∧
        c.startOffset = (Reading.of source).shifted opening) ∧
      (∃ closing, byteAt? source closing = some '\x7d'.toUInt8 ∧
        c.endOffset = (Reading.of source).shifted closing + 1) ∧
      ((∀ p ∈ (Reading.of source).inserted, c.startOffset < p) →
        byteAt? source c.startOffset = some '\x7b'.toUInt8) ∧
      ((∀ p ∈ (Reading.of source).inserted, c.endOffset ≤ p) →
        byteAt? source (c.endOffset - 1) = some '\x7d'.toUInt8) := by
  intro c mem
  obtain ⟨d, declared, completes⟩ := exists_of_forall₂ (r.toList_classesIn faithful) mem
  obtain ⟨-, -, start, stop⟩ := completes.same
  obtain ⟨⟨opening, opens, start'⟩, closing, closes, stop'⟩ := exists_braces declared
  rw [← start] at start'
  rw [← stop] at stop'
  refine ⟨⟨opening, opens, start'⟩, ⟨closing, closes, stop'⟩, ?_, ?_⟩
  · intro behind
    have here : (Reading.of source).shifted opening = opening :=
      Reading.shifted_of_lt fun p mem => Nat.lt_of_le_of_lt
        (start' ▸ Reading.le_shifted _ opening) (behind p mem)
    rw [start', here]
    exact opens
  · intro behind
    have here : (Reading.of source).shifted closing = closing :=
      Reading.shifted_of_lt fun p mem => Nat.lt_of_lt_of_le
        (stop' ▸ Nat.lt_succ_of_le (Reading.le_shifted _ closing)) (behind p mem)
    rw [stop', here, Nat.add_sub_cancel]
    exact closes

/-- The header of `f` is not finished, so a semicolon is put behind it. -/
def unfinished : String := "<?php class A{function f()}"

def unfinishedClass : ClassDecl :=
  .mk ⟨6, 28⟩ .classDecl [] "A" [] [] ⟨13, 28⟩ [.method ⟨14, 27⟩ [] "f" [] none none]

set_option maxRecDepth 100000 in
theorem headerEnds_unfinished :
    headerEnds unfinished.toList (Frontend.parse unfinished).faults = [26] := by
  cbv

set_option maxRecDepth 100000 in
theorem parse_finished : Frontend.parse "<?php class A{function f();}" =
    { statements := [.markup ⟨0, 5⟩, .classLike unfinishedClass] } := by
  cbv

theorem reading_unfinished : Reading.of unfinished =
    { text := "<?php class A{function f();}".toList
      program := { statements := [.markup ⟨0, 5⟩, .classLike unfinishedClass] }
      inserted := [26] } := by
  have text : insertSemicolons 0 [26] unfinished.toList =
      "<?php class A{function f();}".toList := by
    cbv
  rw [Reading.of]
  dsimp only
  rw [headerEnds_unfinished]
  dsimp only
  rw [text, String.ofList_toList, parse_finished]

theorem declared_unfinished : (Declarations.of {} unfinished).classes.map
    (fun d => (d.symbol.startOffset, d.symbol.endOffset)) = [(13, 28)] := by
  rw [Declarations.of, reading_unfinished]
  rfl

theorem exists_unfinished : ∃ c ∈ ((({} : Reflector).classesIn unfinished).run {}).1.toList,
    c.startOffset = 13 ∧ c.endOffset = 28 := by
  have places := ReflectorBy.places_classesIn ({} : Reflector)
    (SessionBy.faithfulTo_of_uncached (s := {}) rfl unfinished)
  rw [declared_unfinished] at places
  obtain ⟨c, mem, same⟩ := List.mem_map.1 (places ▸ List.mem_singleton_self _)
  obtain ⟨start, stop⟩ := Prod.mk.inj same
  exact ⟨c, mem, start, stop⟩

/-- The offset behind the body is one more than the place behind its brace. -/
theorem classesIn_braces_unfinished :
    let s : Session := {}
    s.FaithfulTo {} unfinished ∧
    ∃ c ∈ ((({} : Reflector).classesIn unfinished).run s).1.toList,
      c.startOffset = 13 ∧ c.endOffset = 28 ∧
      (∃ opening, byteAt? unfinished opening = some '\x7b'.toUInt8 ∧
        c.startOffset = (Reading.of unfinished).shifted opening) ∧
      ∃ closing, byteAt? unfinished closing = some '\x7d'.toUInt8 ∧
        c.endOffset = (Reading.of unfinished).shifted closing + 1 := by
  intro s
  have faithful : s.FaithfulTo {} unfinished := SessionBy.faithfulTo_of_uncached rfl _
  obtain ⟨c, mem, start, stop⟩ := exists_unfinished
  obtain ⟨opens, closes, -, -⟩ := ReflectorBy.classesIn_braces ({} : Reflector) faithful c mem
  exact ⟨faithful, c, mem, start, stop, opens, closes⟩

/-- The source has no byte at the place where the body is said to end. -/
theorem classesIn_braces_shifted :
    ¬ ∀ source : String, ∀ c ∈ ((({} : Reflector).classesIn source).run {}).1.toList,
      byteAt? source c.startOffset = some '\x7b'.toUInt8 ∧
        byteAt? source (c.endOffset - 1) = some '\x7d'.toUInt8 := by
  intro all
  obtain ⟨c, mem, -, stop⟩ := exists_unfinished
  have closes := (all unfinished c mem).2
  rw [stop] at closes
  exact absurd closes (by decide)

end PhpSymbols
