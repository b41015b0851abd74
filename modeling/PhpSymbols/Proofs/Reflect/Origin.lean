import PhpSymbols.Proofs.Reflect.Offset

/-!
# Where the names in scope come from

* `Introduces.exists_binds`: what a walk introduces is bound by a node that stands there;
* `scopeAmong_origin`: so every name in scope at an offset is bound for it, and nothing
  behind the offset has a part in the scope.
-/

namespace PhpSymbols
open Php

namespace Walk
variable {w : Walk} {lo hi : Nat} {x : String}

mutual

/-- What a walk through a node introduces is bound by a node that stands in it. -/
theorem Introduces.exists_binds {n : Node} :
    w.Introduces x n → ∃ m, Node.Within m n ∧ w.Binds x m
  | .own bound _ => ⟨n, .here, binds_of_own bound⟩
  | .part _ inner => by
    obtain ⟨k, member, m, within, binds⟩ := inner.exists_binds
    exact ⟨m, .part ((view_sublist n).subset member) within, binds⟩

theorem IntroducesIn.exists_binds {ns : List Node} :
    w.IntroducesIn x ns → ∃ n ∈ ns, ∃ m, Node.Within m n ∧ w.Binds x m
  | .here (n := n) introduced _ => ⟨n, List.mem_cons_self, introduced.exists_binds⟩
  | .later inner => by
    obtain ⟨n, member, found⟩ := inner.exists_binds
    exact ⟨n, List.mem_cons_of_mem _ member, found⟩

end

/-- The scope at an offset is what a walk through the code of the namespace around it comes
to. Every name in it is bound for the offset by a node of that code: an assignment that has
ended, a loop whose body the offset is in, a clause or statement that has started, or the
function, method or closure around the offset. A node behind the offset leaves every scope
as it is, so it adds no name and no type. -/
theorem scopeAmong_origin (w : Walk) {ss : List Stmt} {lo hi : Nat}
    (placed : Placed lo hi (ss.map .stmt)) :
    (w.scopeAmong none ss ss).close =
      (w.nodes (w.start none ss ss) ((w.around ss ss).map .stmt)).close ∧
    (∀ x ∈ (w.scopeAmong none ss ss).names,
      ∃ t ∈ w.around ss ss, ∃ m, Node.Within m (.stmt t) ∧ w.Binds x m) ∧
    ∀ (m : Node) (start stop : Nat), Placed start stop [m] → w.offset < start →
      ∀ s, w.node s m = s := by
  have split : ss = [] ++ ss := (List.nil_append ss).symm
  refine ⟨scopeAmong_eq none split placed, ?_, ?_⟩
  · intro x known
    have introduced := (names_scopeAmong none split placed).1 known
    obtain ⟨n, member, found⟩ := introduced.exists_binds
    obtain ⟨t, stands, rfl⟩ := List.mem_map.1 member
    exact ⟨t, stands, found⟩
  · intro m start stop place behind s
    exact nodes_behind place behind s

/-! ### An offset between two assignments of a loop -/

/-- `$a=1;foreach($a as $k){$c=$k;$d=1;}$b=2;` -/
def assignments : List Stmt := [
  .expression ⟨0, 5⟩ (.assign ⟨0, 4⟩ "=" (.var ⟨0, 2⟩ "a") (.literal ⟨3, 4⟩ .integer)),
  .foreach ⟨5, 35⟩ (.var ⟨13, 15⟩ "a") none (.var ⟨19, 21⟩ "k") ⟨22, 35⟩
    [.block ⟨22, 35⟩ [
      .expression ⟨23, 29⟩ (.assign ⟨23, 28⟩ "=" (.var ⟨23, 25⟩ "c") (.var ⟨26, 28⟩ "k")),
      .expression ⟨29, 34⟩ (.assign ⟨29, 33⟩ "=" (.var ⟨29, 31⟩ "d")
        (.literal ⟨32, 33⟩ .integer))]],
  .expression ⟨35, 40⟩ (.assign ⟨35, 39⟩ "=" (.var ⟨35, 37⟩ "b") (.literal ⟨38, 39⟩ .integer))]

theorem placed_assignments : Placed 0 40 (assignments.map .stmt) := by
  repeat' first
    | exact .nil (by decide)
    | refine .spanned rfl (by decide) ?_ ?_

theorem scopeAmong_origin_assignments : let w : Walk := ⟨⟨{}, {}⟩, 29⟩
    Placed 0 40 (assignments.map .stmt) ∧
    (w.scopeAmong none assignments assignments).names = ["a", "k", "c"] ∧
    (∀ x ∈ ["a", "k", "c"], ∃ t ∈ w.around assignments assignments,
      ∃ m, Node.Within m (.stmt t) ∧ w.Binds x m) ∧
    ∀ s, w.node s (.expr (.assign ⟨35, 39⟩ "=" (.var ⟨35, 37⟩ "b")
      (.literal ⟨38, 39⟩ .integer))) = s := by
  intro w
  have names : (w.scopeAmong none assignments assignments).names = ["a", "k", "c"] := by cbv
  have origin := scopeAmong_origin w placed_assignments
  refine ⟨placed_assignments, names, ?_, ?_⟩
  · rw [← names]
    exact origin.2.1
  · apply origin.2.2 _ 35 39
    · exact .spanned rfl (by decide) (.spanned rfl (by decide) (.nil (by decide))
        (.nil (by decide))) (.nil (by decide))
    · decide

end Walk
end PhpSymbols
