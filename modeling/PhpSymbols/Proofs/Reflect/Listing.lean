import PhpSymbols.Proofs.Reflect.Arranged

/-!
# Listed declarations

* `Node.Lists`: a declaration stands in a node where a source lists it: in namespaces,
  blocks and branches, and in nothing else;
* `lists_of_mem`: every declaration that a source lists does;
* `reaches_of_lists`, `exists_reaches_of_listed`: a walk through the code of its namespace
  comes to it, if it holds the offset.
-/

namespace PhpSymbols
open Php

namespace Declared

/-- The namespace that the declaration is listed in. -/
def space : Declared → Option String
  | .classLike ns _ | .function ns _ => ns

def stmt : Declared → Stmt
  | .classLike _ d => .classLike d
  | .function _ d => .function d

end Declared

namespace Node

/-- The parts of a node whose declarations are listed with its own, in the same namespace. -/
def branches : Node → List Node
  | .stmt (.block _ ss) => ss.map .stmt
  | .stmt (.ifElse _ _ ss elseIfs otherwise) =>
    ss.map .stmt ++ (elseIfs.map .elseIf ++ otherwise.map .stmt)
  | .elseIf (.mk _ ss) => ss.map .stmt
  | _ => []

theorem branches_subset (n : Node) : n.branches ⊆ n.inner := by
  intro k part
  unfold branches at part
  split at part
  · exact part
  · exact List.mem_cons_of_mem _ part
  · exact List.mem_cons_of_mem _ part
  · cases part

/-- The node, in the namespace `ns`, lists the declaration. -/
inductive Lists (d : Declared) : (ns : Option String) → Node → Prop where
  | here {ns : Option String} {n : Node} : ns = d.space → n = .stmt d.stmt → Lists d ns n
  | branch {ns : Option String} {n k : Node} : k ∈ n.branches → Lists d ns k → Lists d ns n
  | space {outer name : Option String} {span : Span} {ss : List Stmt} {s : Stmt} : s ∈ ss →
      Lists d (innerNamespace outer name) (.stmt s) → Lists d outer (.stmt (.ns span name ss))

mutual

theorem lists_of_mem_stmt {d : Declared} : (s : Stmt) → (ns : Option String) →
    d ∈ declaredBy ns s → Lists d ns (.stmt s)
  | .classLike decl, ns, listed => by
    rw [declaredBy] at listed
    obtain rfl := List.mem_singleton.1 listed
    exact .here rfl rfl
  | .function decl, ns, listed => by
    rw [declaredBy] at listed
    obtain rfl := List.mem_singleton.1 listed
    exact .here rfl rfl
  | .ns span name ss, ns, listed => by
    rw [declaredBy] at listed
    obtain ⟨s, member, lists⟩ := lists_of_mem ss _ listed
    exact .space member lists
  | .block span ss, ns, listed => by
    rw [declaredBy] at listed
    obtain ⟨s, member, lists⟩ := lists_of_mem ss ns listed
    exact .branch (List.mem_map_of_mem member) lists
  | .ifElse span c ss elseIfs otherwise, ns, listed => by
    rw [declaredBy, List.mem_append, List.mem_append] at listed
    rcases listed with listed | listed | listed
    · obtain ⟨s, member, lists⟩ := lists_of_mem ss ns listed
      exact .branch (List.mem_append_left _ (List.mem_map_of_mem member)) lists
    · obtain ⟨e, member, lists⟩ := lists_of_mem_elseIfs elseIfs ns listed
      exact .branch (List.mem_append_right _
        (List.mem_append_left _ (List.mem_map_of_mem member))) lists
    · obtain ⟨s, member, lists⟩ := lists_of_mem otherwise ns listed
      exact .branch (List.mem_append_right _
        (List.mem_append_right _ (List.mem_map_of_mem member))) lists
  | .markup .., ns, listed | .expression .., ns, listed | .foreach .., ns, listed
  | .forLoop .., ns, listed | .whileLoop .., ns, listed | .doWhile .., ns, listed
  | .tryCatch .., ns, listed | .global .., ns, listed | .staticVars .., ns, listed
  | .ret .., ns, listed | .echo .., ns, listed | .switch .., ns, listed
  | .declare .., ns, listed | .use .., ns, listed | .other .., ns, listed => by
    simp [declaredBy] at listed

/-- Every declaration that a source lists is listed by one of its statements. -/
theorem lists_of_mem {d : Declared} : (ss : List Stmt) → (ns : Option String) →
    d ∈ declaredByAll ns ss → ∃ s ∈ ss, Lists d ns (.stmt s)
  | [], ns, listed => by simp [declaredByAll] at listed
  | s :: ss, ns, listed => by
    rw [declaredByAll, List.mem_append] at listed
    rcases listed with listed | listed
    · exact ⟨s, List.mem_cons_self, lists_of_mem_stmt s ns listed⟩
    · obtain ⟨t, member, lists⟩ := lists_of_mem ss ns listed
      exact ⟨t, List.mem_cons_of_mem s member, lists⟩

theorem lists_of_mem_elseIfs {d : Declared} : (es : List ElseIf) → (ns : Option String) →
    d ∈ declaredByElseIfs ns es → ∃ e ∈ es, Lists d ns (.elseIf e)
  | [], ns, listed => by simp [declaredByElseIfs] at listed
  | e :: es, ns, listed => by
    rw [declaredByElseIfs, List.mem_append] at listed
    rcases listed with listed | listed
    · exact ⟨e, List.mem_cons_self, lists_of_mem_elseIf e ns listed⟩
    · obtain ⟨f, member, lists⟩ := lists_of_mem_elseIfs es ns listed
      exact ⟨f, List.mem_cons_of_mem e member, lists⟩

theorem lists_of_mem_elseIf {d : Declared} : (e : ElseIf) → (ns : Option String) →
    d ∈ declaredByElseIf ns e → Lists d ns (.elseIf e)
  | .mk c ss, ns, listed => by
    rw [declaredByElseIf] at listed
    obtain ⟨s, member, lists⟩ := lists_of_mem ss ns listed
    exact .branch (List.mem_map_of_mem member) lists

end

theorem Lists.within {d : Declared} {ns : Option String} {n : Node} (h : Lists d ns n) :
    Within (.stmt d.stmt) n := by
  induction h with
  | here _ same =>
    subst same
    exact .here
  | branch part _ ih => exact .part ((inner_sublist _).subset (branches_subset _ part)) ih
  | space member _ ih => exact .part (List.mem_map_of_mem member) ih

end Node

theorem Declared.isNamespace_stmt (d : Declared) : (Node.stmt d.stmt).isNamespace = false := by
  cases d <;> rfl

namespace Walk
variable {w : Walk} {lo hi : Nat}

/-! ### Coming to a listed declaration -/

theorem exists_spaces_of_lists {outer : Option String} {all : List Stmt} {d : Declared} {n : Node}
    {s : Stmt} (member : s ∈ all) (lists : Node.Lists d outer n) (same : n = .stmt s) :
    ∃ ns code, Spaces outer all ns code ∧
      ∃ t ∈ code, Node.Lists d ns (.stmt t) ∧ (Node.stmt t).isNamespace = false := by
  induction lists generalizing all s with
  | @here ns n space stmt =>
    obtain rfl := Node.stmt.inj (same.symm.trans stmt)
    exact ⟨ns, all, .top, d.stmt, member, .here space rfl, d.isNamespace_stmt⟩
  | @branch ns n k part lists _ =>
    subst same
    refine ⟨ns, all, .top, s, member, .branch part lists, ?_⟩
    cases s with
    | ns => cases part
    | _ => rfl
  | space part _ ih =>
    obtain rfl := Node.stmt.inj same
    obtain ⟨ns, code, code_of, found⟩ := ih part rfl
    exact ⟨ns, code, .inner member code_of, found⟩

/-- A walk comes to the listed declaration that holds the offset. -/
theorem reaches_of_lists {ns : Option String} {d : Declared} {n : Node}
    (lists : Node.Lists d ns n) (placed : Placed lo hi [n]) (here : n.IsArranged)
    (parts : Arranged n.parts) (other : n.isNamespace = false) (inside : w.At (.stmt d.stmt)) :
    ns = d.space ∧ w.Reaches (.stmt d.stmt) n := by
  induction lists with
  | here space same =>
    subst same
    exact ⟨space, .here⟩
  | @branch ns n k part lists ih =>
    have inner := Node.branches_subset n part
    have stands := (Node.inner_sublist n).subset inner
    have walked : k ∈ (w.view n).parts := by
      apply mem_view_of_mem_inner inner
      intro span same
      exact (inside.of_within (.part stands lists.within) _ _
        (placed.own List.mem_cons_self same)).1
    obtain ⟨part_here, part_parts⟩ := parts.of_mem stands
    obtain ⟨space, reached⟩ := ih (placed.parts.of_mem stands) part_here part_parts
      (here.part other stands)
    exact ⟨space, .part walked reached⟩
  | space => cases other

/-! ### All that a source lists -/

/-- A walk through the code around the offset comes to the listed declaration that holds it,
and this is the code of the namespace that the declaration is listed in. -/
theorem exists_reaches_of_listed {ss : List Stmt} {d : Declared}
    (listed : d ∈ declaredByAll none ss) (placed : Placed lo hi (ss.map .stmt))
    (arranged : Arranged (ss.map .stmt)) (inside : w.At (.stmt d.stmt)) :
    w.space none ss ss = d.space ∧
      ∃ t ∈ w.around ss ss, w.Reaches (.stmt d.stmt) (.stmt t) := by
  obtain ⟨s, member, lists⟩ := Node.lists_of_mem ss none listed
  obtain ⟨ns, code, spaces, t, part, t_lists, plain⟩ := exists_spaces_of_lists member lists rfl
  obtain ⟨around_eq, space_eq⟩ :=
    around_of_spaces spaces placed part (inside.of_within t_lists.within) plain
  obtain ⟨outer, outer_member, t_stands⟩ := spaces.within part
  have outer_part : .stmt outer ∈ ss.map Node.stmt := List.mem_map_of_mem outer_member
  obtain ⟨here, parts⟩ := arranged.of_within outer_part t_stands
  obtain ⟨space, reached⟩ := reaches_of_lists t_lists (t_stands.placed (placed.of_mem outer_part))
    here parts plain inside
  exact ⟨space_eq.trans space, t, around_eq ▸ part, reached⟩

end Walk
end PhpSymbols
