import PhpSymbols.Proofs.Reflect.Isolation
import PhpSymbols.Proofs.Reflect.Listing

/-!
# The innermost declaration

* `Walk.Innermost`: no declaration inside a node holds the offset;
* `enclosing_of_reaches`: a walk that comes to such a declaration around the offset finds it;
* `enclosing_of_listed`, `enclosing_of_within`: so the scan finds the innermost declaration
  around the offset, listed or not.
-/

namespace PhpSymbols
open Php

namespace Walk

/-- No declaration inside the node holds the offset. -/
def Innermost (w : Walk) (n : Node) : Prop :=
  ∀ k ∈ n.parts, ∀ m, Node.Within m k → ∀ space, w.declares space m = none

variable {w : Walk} {lo hi : Nat}

theorem Reaches.within {m n : Node} (h : w.Reaches m n) : Node.Within m n := by
  induction h with
  | here => exact .here
  | part member _ ih => exact .part ((view_sublist _).subset member) ih

theorem Innermost.outside {n : Node} (h : w.Innermost n) : w.Outside (w.view n).parts :=
  fun k part m reached => h k ((view_sublist n).subset part) m reached.within

theorem at_of_declares {n : Node} {space : Option String} {key : Enclosing}
    (declared : w.declares space n = some key) : w.At n := by
  rcases declares_eq_some declared with ⟨d, rfl, inside, -⟩ | ⟨d, rfl, inside, -⟩
  · exact at_of_encloses inside
  · exact at_of_encloses inside

/-- A walk finds the innermost declaration around the offset that it comes to. -/
theorem enclosing_of_reaches {m n : Node} {space : Option String} {key : Enclosing}
    (h : w.Reaches m n) (declared : w.declares space m = some key) (inner : w.Innermost m)
    (placed : Placed lo hi [n]) {s : Scope} (isOpen : s.isClosed = false)
    (same : s.imports.ns = space) : (w.node s n).enclosing = some key := by
  induction h generalizing s with
  | here =>
    have entered := (isClosed_enter (w := w) s m).trans isOpen
    have parts := nodes_outside (placed_view placed) inner.outside entered
    rw [node_eq placed.parts isOpen, leave_frame, parts, enter_frame, same, declared]
    rfl
  | @part n k member reached ih =>
    have parts := placed_view (w := w) placed
    have entered := reached.enters (.resets (resets_of_declares declared))
    obtain ⟨before, frame, walk⟩ := nodes_of_enters parts member entered
      ((isClosed_enter s n).trans isOpen)
    rw [node_eq placed.parts isOpen, leave_frame, walk]
    apply ih (parts.of_mem member)
    · rw [frame, enter_frame]
      exact isOpen
    · rw [frame, enter_frame]
      exact same

/-- The scan for the scope at an offset finds the innermost declaration around it that a walk
through the code there comes to. -/
theorem enclosing_of_reaches_around {ss : List Stmt} {t : Stmt} {m : Node} {key : Enclosing}
    (placed : Placed lo hi (ss.map .stmt)) (part : t ∈ w.around ss ss)
    (reached : w.Reaches m (.stmt t)) (declared : w.declares (w.space none ss ss) m = some key)
    (inner : w.Innermost m) : (w.scopeAmong none ss ss).enclosing = some key := by
  have home : Placed lo hi ((w.around ss ss).map .stmt) :=
    placed_around (List.nil_append ss).symm placed
  have member : .stmt t ∈ (w.around ss ss).map Node.stmt := List.mem_map_of_mem part
  have entered := reached.enters (.resets (resets_of_declares declared))
  obtain ⟨before, frame, walk⟩ :=
    nodes_of_enters home member entered (show (w.start none ss ss).isClosed = false from rfl)
  have scan : (w.scopeAmong none ss ss).close.enclosing =
      (w.nodes (w.start none ss ss) ((w.around ss ss).map .stmt)).close.enclosing := by
    rw [scopeAmong_eq none (List.nil_append ss).symm placed]
  have found : (w.node before (.stmt t)).enclosing = some key := by
    apply enclosing_of_reaches reached declared inner (home.of_mem member)
    · rw [frame]
      rfl
    · rw [frame]
      rfl
  rw [← found, ← walk]
  exact scan

/-- The scan finds the innermost declaration around the offset, if the source lists this. -/
theorem enclosing_of_listed {ss : List Stmt} {d : Declared} {key : Enclosing}
    (listed : d ∈ declaredByAll none ss) (placed : Placed lo hi (ss.map .stmt))
    (arranged : Arranged (ss.map .stmt)) (declared : w.declares d.space (.stmt d.stmt) = some key)
    (inner : w.Innermost (.stmt d.stmt)) : (w.scopeAmong none ss ss).enclosing = some key := by
  obtain ⟨space, t, part, reached⟩ :=
    exists_reaches_of_listed listed placed arranged (at_of_declares declared)
  exact enclosing_of_reaches_around placed part reached (space ▸ declared) inner

/-- The scan finds the innermost declaration that holds the offset, wherever it stands. -/
theorem enclosing_of_within {ss : List Stmt} {s : Stmt} {m : Node} {key : Enclosing}
    (member : s ∈ ss) (stands : Node.Within m (.stmt s)) (placed : Placed lo hi (ss.map .stmt))
    (arranged : Arranged (ss.map .stmt)) (inside : w.Inside m)
    (declared : w.declares (w.space none ss ss) m = some key) (inner : w.Innermost m) :
    (w.scopeAmong none ss ss).enclosing = some key := by
  have other : m.isNamespace = false := by
    rcases declares_eq_some declared with ⟨d, rfl, -⟩ | ⟨d, rfl, -⟩ <;> rfl
  obtain ⟨t, part, reached⟩ := exists_reaches member stands placed arranged other inside
  exact enclosing_of_reaches_around placed part reached declared inner

end Walk
end PhpSymbols
