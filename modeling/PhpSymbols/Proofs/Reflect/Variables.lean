import PhpSymbols.Proofs.Reflect.Assignment
import PhpSymbols.Proofs.Reflect.Resolution

/-!
# The variables that a reflector knows

* `locals_resolutionAt`: at a place of a source they are those that the walk towards it
  introduces, and what is assigned before it in the scope around it is among them.
-/

namespace PhpSymbols
open Php

namespace Reflector
open ReflectorBy

/-- At every place of a source the variables are those that the walk towards it introduces.
Among them is each to which a value is assigned by then in the innermost scope around the
place, at a position that is walked and in no finished loop over the variable. -/
theorem locals_resolutionAt [Frontend] [Walker] (r : Reflector) (session : Session)
    (source : String) (offset : Nat) {lo hi : Nat}
    (place : Text.isOffset offset source.toList = true)
    (placed : Placed lo hi ((Reading.of source).program.statements.map .stmt)) :
    ∃ found, ((r.resolutionAt source offset).run session).1 = .ok found ∧
      (∀ x, x ∈ found.locals.names ↔
        (r.walk source offset).IntroducesIn x (r.walk source offset).home) ∧
      ∀ x, (r.walk source offset).Assigned x (r.walk source offset).home →
        x ∈ found.locals.names := by
  have names := r.names_resolutionAt offset placed
  refine ⟨_, r.run_resolutionAt session source place, names, fun x assigned => (names x).2 ?_⟩
  exact assigned.introducesIn (Walk.placed_around (List.nil_append _).symm placed)

/-! ### A loop with assignments in its condition and its body -/

def loop : String := "<?php while($a=f()){$b=2;}"

def loopStatements : List Stmt := [
  .markup ⟨0, 5⟩,
  .whileLoop ⟨6, 26⟩
    (.assign ⟨12, 18⟩ "=" (.var ⟨12, 14⟩ "a") (.call ⟨15, 18⟩ (.name ⟨15, 16⟩ "f") []))
    [.block ⟨19, 26⟩ [.expression ⟨20, 25⟩
      (.assign ⟨20, 24⟩ "=" (.var ⟨20, 22⟩ "b") (.literal ⟨23, 24⟩ .integer))]]]

set_option maxRecDepth 100000 in
theorem reading_loop :
    Reading.of loop = { text := loop.toList, program := { statements := loopStatements } } := by
  cbv

theorem placed_loop : Placed 0 26 (loopStatements.map .stmt) := by
  have body : Placed 20 24 [.expr (.literal ⟨23, 24⟩ .integer)] :=
    .spanned rfl (by decide) (.nil (by decide)) (.nil (by decide))
  have assignment : Placed 20 25
      [.expr (.assign ⟨20, 24⟩ "=" (.var ⟨20, 22⟩ "b") (.literal ⟨23, 24⟩ .integer))] :=
    .spanned rfl (by decide) body (.nil (by decide))
  refine .spanned rfl (by decide) (.nil (by decide))
    (.spanned rfl (by decide) ?_ (.nil (by decide)))
  exact .spanned rfl (by decide) (.spanned rfl (by decide) assignment (.nil (by decide)))
    (.nil (by decide))

theorem assigned_loop :
    (({} : Reflector).walk loop 25).Assigned "b" (({} : Reflector).walk loop 25).home := by
  have home : (({} : Reflector).walk loop 25).home = loopStatements.map .stmt := by
    rw [walk, Walk.home, reading_loop]
    simp [loopStatements, Walk.around]
  have offset : (({} : Reflector).walk loop 25).offset = 25 := by
    rw [walk, reading_loop]
    rfl
  rw [home]
  generalize ({} : Reflector).walk loop 25 = w at offset
  have passes : w.Passes (loopStatements.map .stmt) := by
    simp [loopStatements, Walk.passes_cons, Walk.passes_nil, Walk.enters_iff, Walk.view,
      Walk.viewStmt, Walk.viewExpr, offset, Node.ofStmt, Node.ofExpr, Stmt.span]
  refine @Walk.Assigned.intro w _ _ _ _ ⟨20, 24⟩ "=" (.var ⟨20, 22⟩ "b")
    (.literal ⟨23, 24⟩ .integer) (.inl ⟨rfl, passes⟩)
    (List.mem_cons_of_mem _ List.mem_cons_self) ?_ List.mem_cons_self ?_
  · -- from the loop to its block, the statement in it, and the assignment
    exact .part List.not_mem_nil List.mem_cons_self (.part List.not_mem_nil List.mem_cons_self
      (.part List.not_mem_nil List.mem_cons_self .here))
  · rw [offset]
    decide

theorem locals_resolutionAt_loop : Text.isOffset 25 loop.toList = true ∧
    Placed 0 26 ((Reading.of loop).program.statements.map .stmt) ∧
    ∃ found, ((({} : Reflector).resolutionAt loop 25).run {}).1 = .ok found ∧
      "b" ∈ found.locals.names := by
  have place : Text.isOffset 25 loop.toList = true := by decide
  have placed : Placed 0 26 ((Reading.of loop).program.statements.map .stmt) := by
    rw [reading_loop]
    exact placed_loop
  obtain ⟨found, ok, -, assigned⟩ := locals_resolutionAt {} {} loop 25 place placed
  exact ⟨place, placed, found, ok, assigned "b" assigned_loop⟩

/-- The condition of the loop assigns `$a` in front of the offset, but no walk goes through it. -/
theorem locals_resolutionAt_condition : (Reading.of loop).program.statements = loopStatements ∧
    ((({} : Reflector).resolutionAt loop 25).run {}).1.map (·.locals.names) = .ok ["b"] := by
  rw [resolutionAt, Scope.at, reading_loop]
  constructor
  · rfl
  · cbv

end Reflector
end PhpSymbols
