import PhpSymbols.Proofs.Reflect.Run

/-!
# Assignments in scope

* `Walk.Stands`: a node stands in another, in the same scope and in no finished loop over
  a name;
* `introduces_of_stands`: a walk through a node introduces the targets of an assignment
  that stands in it and ends by the offset;
* `expr_assign`: a variable that is assigned to gets the type of the value;
* `Walk.Code`: the code of the innermost scope around the offset;
* `introduces_of_code`: what that code introduces is introduced.
-/

namespace PhpSymbols
open Php

namespace Walk
variable (w : Walk)

/-- The node `m` stands in a node, in the same scope and in no finished loop over `x`. -/
inductive Stands (x : String) (m : Node) : Node → Prop where
  | here : Stands x m m
  | part {n k : Node} : x ∉ w.finished n → k ∈ n.inner → Stands x m k → Stands x m n

/-- The nodes are the code of a scope around the offset that starts in a node, and no other
starts in them. -/
inductive Code (ns : List Node) : Node → Prop where
  | resets {n : Node} : (w.view n).resets = true → (w.view n).parts = ns → w.Passes ns → Code ns n
  | part {n m : Node} : m ∈ (w.view n).parts → Code ns m → Code ns n

variable {w} {lo hi : Nat} {x : String}

/-! ### Assignments -/

theorem Stands.inside {m n : Node} {span : Span} (h : w.Stands x m n) (same : m.span? = some span)
    (placed : Placed lo hi [n]) : lo ≤ span.start ∧ span.start ≤ span.stop ∧ span.stop ≤ hi := by
  induction h with
  | here =>
    cases placed with
    | bare other => cases other.symm.trans same
    | spanned other start inside rest =>
      obtain rfl := Option.some.inj (other.symm.trans same)
      exact ⟨start, inside.le, rest.le⟩
  | part shown member _ ih =>
    exact ih (placed.parts.of_mem ((Node.inner_sublist _).subset member))

theorem introducesIn_of_mem {n : Node} {ns : List Node} (member : n ∈ ns)
    (h : w.Introduces x n) (passes : w.Passes ns) : w.IntroducesIn x ns := by
  induction ns with
  | nil => cases member
  | cons m ns ih =>
    have rest := (passes_cons.1 passes).2
    cases member with
    | head => exact .here h rest
    | tail _ member => exact .later (ih member rest)

/-- A walk introduces what is assigned by the offset, unless a scope of its own starts in
between. -/
theorem introduces_of_stands {n : Node} {span : Span} {operator : String} {target value : Expr}
    (h : w.Stands x (.expr (.assign span operator target value)) n)
    (bound : x ∈ Scope.targetNames target) (ended : span.stop ≤ w.offset)
    (placed : Placed lo hi [n]) (passes : ¬ w.Enters n) : w.Introduces x n := by
  induction h with
  | here =>
    have viewed : w.view (.expr (.assign span operator target value)) =
        { own := Scope.targetNames target, parts := [.expr value] } := by
      rw [view, viewExpr, if_pos ended]
    rw [enters_iff, viewed, not_or, Classical.not_not] at passes
    rw [introduces_iff, viewed]
    exact .inl ⟨bound, passes.2⟩
  | @part n k shown member stands ih =>
    have started : ∀ place, n.span? = some place → place.start ≤ w.offset := by
      intro place same
      cases placed with
      | bare other => cases other.symm.trans same
      | spanned other start inside rest =>
        obtain rfl := Option.some.inj (other.symm.trans same)
        have := stands.inside rfl (inside.of_mem ((Node.inner_sublist n).subset member))
        simp only [Expr.span] at this
        omega
    have walked := mem_view_of_mem_inner member started
    rw [enters_iff, not_or, Classical.not_not] at passes
    have introduced := ih (placed.parts.of_mem ((Node.inner_sublist n).subset member))
      (passes.2 k walked)
    exact .part shown (introducesIn_of_mem walked introduced passes.2)

/-- An assignment that ends by the offset binds its variable in the scope behind its value. -/
theorem expr_assign {s : Scope} {span place : Span} {operator : String} {value : Expr}
    (placed : Placed lo hi [.expr (.assign span operator (.var place x) value)])
    (isOpen : s.isClosed = false) (ended : span.stop ≤ w.offset) :
    w.expr s (.assign span operator (.var place x) value) =
      (w.expr s value).bind x ((w.expr s value).valueTy value) := by
  have inside : Placed span.start span.stop [.expr value] :=
    (placed.own List.mem_cons_self rfl).parts
  have apart : ¬ (span.start ≤ w.offset ∧ w.offset < span.stop) := by omega
  have before : (w.expr s value).isClosed = false :=
    (sound_of_placed inside _ (.refl _)).isClosed_nodes apart isOpen
  have open_ : ¬ ((w.expr s value).isClosed || w.offset < span.stop) = true := by
    simpa [before] using ended
  rw [expr, if_neg (Bool.eq_false_iff.1 isOpen)]
  simp only [if_neg open_, Scope.bindTarget]

/-! ### The innermost scope -/

theorem Code.passes {n : Node} {ns : List Node} (h : w.Code ns n) : w.Passes ns := by
  induction h with
  | resets _ _ passes => exact passes
  | part _ _ ih => exact ih

/-- A walk comes to the node in which the scope starts. -/
theorem Code.reaches {n : Node} {ns : List Node} (h : w.Code ns n) :
    ∃ m, w.Reaches m n ∧ (w.view m).resets = true ∧ (w.view m).parts = ns := by
  induction h with
  | resets resets same _ => exact ⟨_, .here, resets, same⟩
  | part member _ ih =>
    obtain ⟨m, reached, found⟩ := ih
    exact ⟨m, .part member reached, found⟩

theorem Code.enters {n : Node} {ns : List Node} (h : w.Code ns n) : w.Enters n := by
  obtain ⟨m, reached, resets, -⟩ := h.reaches
  exact reached.enters (.resets resets)

theorem Code.placed {n : Node} {ns : List Node} (h : w.Code ns n) (placed : Placed lo hi [n]) :
    Placed lo hi ns := by
  obtain ⟨m, reached, -, rfl⟩ := h.reaches
  exact placed_view (reached.placed placed)

theorem introduces_of_code {n : Node} {ns : List Node} (h : w.Code ns n) (placed : Placed lo hi [n])
    (introduced : w.IntroducesIn x ns) : w.Introduces x n := by
  obtain ⟨m, reached, resets, rfl⟩ := h.reaches
  have entered : w.Enters m := .resets resets
  apply (introduces_iff_of_reaches reached placed entered).2
  exact .part (not_mem_finished (reached.placed placed) entered) introduced

/-- The nodes are the code of the innermost scope around the offset that starts among
others, or these themselves if none does. -/
def InnerCode (w : Walk) (home ns : List Node) : Prop :=
  ns = home ∧ w.Passes home ∨ ∃ n ∈ home, w.Code ns n

/-- A value is assigned to `x` by the offset, in the innermost scope around it. -/
inductive Assigned (w : Walk) (x : String) (home : List Node) : Prop where
  | intro {ns : List Node} {n : Node} {span : Span} {operator : String} {target value : Expr} :
      w.InnerCode home ns → n ∈ ns → w.Stands x (.expr (.assign span operator target value)) n →
      x ∈ Scope.targetNames target → span.stop ≤ w.offset → Assigned w x home

theorem Assigned.introducesIn {home : List Node} (h : w.Assigned x home)
    (placed : Placed lo hi home) : w.IntroducesIn x home := by
  obtain @⟨ns, n, span, operator, target, value, code, member, stands, bound, ended⟩ := h
  have inner : Placed lo hi ns → w.Passes ns → w.IntroducesIn x ns := by
    intro placed passes
    exact introducesIn_of_mem member
      (introduces_of_stands stands bound ended (placed.of_mem member) (passes n member)) passes
  rcases code with ⟨rfl, passes⟩ | ⟨outer, outer_member, code⟩
  · exact inner placed passes
  · have outer_placed := placed.of_mem outer_member
    apply (introducesIn_iff_of_enters placed outer_member code.enters).2
    exact introduces_of_code code outer_placed (inner (code.placed outer_placed) code.passes)

end Walk
end PhpSymbols
