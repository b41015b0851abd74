import PhpSymbols.Proofs.Reflect.Run

/-!
# Walks towards a later offset

Two walks through the same nodes, of which one goes further.

* `Walk.OneScope`: all nodes that a walk comes to are in the scope that it started in;
* `onward_own`, `onward_parts`: at a node the further walk binds what the other binds, and goes
  through the same parts, unless it has left a loop;
* `IntroducesIn.onward`: so it introduces what the other introduces;
* `stmts_onward`: and moving the offset forward loses no variable, other than those of a loop
  whose body it leaves.
-/

namespace PhpSymbols
open Php

namespace Walk

/-- No function, arrow function or declaration that a walk through the nodes comes to holds the
offset. -/
def OneScope (w : Walk) (ns : List Node) : Prop :=
  ∀ n ∈ ns, ∀ m, w.Reaches m n → w.ends m = false

/-- A walk through the nodes comes to a loop over `x` whose body holds its offset, but not that
of the walk `v`. -/
def Leaves (w v : Walk) (x : String) (ns : List Node) : Prop :=
  ∃ n ∈ ns, ∃ subject key value b, w.Reaches (.iteration subject key value b) n ∧
    x ∈ targetsOf key value ∧ b.span.touches w.offset = true ∧ b.span.touches v.offset = false

variable {w v : Walk} {lo hi : Nat} {x : String} {n : Node} {ns : List Node}

/-! ### One scope -/

theorem OneScope.passes (h : w.OneScope ns) : w.Passes ns := by
  intro n member entered
  obtain ⟨m, reached, resets⟩ := entered.exists_reaches
  exact Bool.false_ne_true ((h n member m reached).symm.trans (ends_of_resets resets))

theorem oneScope_nil : w.OneScope [] := fun _ member => absurd member List.not_mem_nil

theorem oneScope_cons : w.OneScope (n :: ns) ↔
    w.ends n = false ∧ w.OneScope (w.view n).parts ∧ w.OneScope ns := by
  constructor
  · intro h
    refine ⟨h n List.mem_cons_self n .here, ?_, fun m member => h m (List.mem_cons_of_mem _ member)⟩
    intro k member m reached
    exact h n List.mem_cons_self m (.part member reached)
  · rintro ⟨head, parts, tail⟩ m member k reached
    cases member with
    | tail _ member => exact tail m member k reached
    | head =>
      cases reached with
      | here => exact head
      | part member reached => exact parts _ member k reached

theorem OneScope.head (h : w.OneScope (n :: ns)) : w.ends n = false := (oneScope_cons.1 h).1

theorem OneScope.parts (h : w.OneScope (n :: ns)) : w.OneScope (w.view n).parts :=
  (oneScope_cons.1 h).2.1

theorem OneScope.tail (h : w.OneScope (n :: ns)) : w.OneScope ns := (oneScope_cons.1 h).2.2

theorem Leaves.tail (h : w.Leaves v x ns) : w.Leaves v x (n :: ns) := by
  obtain ⟨m, member, found⟩ := h
  exact ⟨m, List.mem_cons_of_mem _ member, found⟩

theorem Leaves.parts (h : w.Leaves v x (w.view n).parts) : w.Leaves v x (n :: ns) := by
  obtain ⟨m, member, subject, key, value, b, reached, found⟩ := h
  exact ⟨n, List.mem_cons_self, subject, key, value, b, .part member reached, found⟩

/-! ### One node -/

section
variable (le : w.offset ≤ v.offset) (here : w.ends n = false) (there : v.ends n = false)
include le here there

/-- At a node that binds nothing behind its parts a walk does nothing, or the further walk does
the same. -/
theorem view_onward (plain : n.IsPlain) : w.view n = {} ∨ v.view n = w.view n := by
  have apart : w.ends n ≠ true := Bool.eq_false_iff.1 here
  have apart' : v.ends n ≠ true := Bool.eq_false_iff.1 there
  cases n with
  | expr e =>
    cases e with
    | closure | arrow => exact .inl (if_neg apart)
    | assign => exact plain.elim
    | _ => exact .inr rfl
  | stmt t =>
    rw [view, view]
    by_cases started : t.span.start ≤ w.offset
    · rw [if_pos started, if_pos (Nat.le_trans started le)]
      cases t with
      | classLike | function => exact .inl (if_neg apart)
      | _ => exact .inr rfl
    · exact .inl (if_neg started)
  | catch_ c =>
    obtain ⟨span, hint, name, ss⟩ := c
    rw [view, view]
    by_cases started : span.start ≤ w.offset
    · rw [if_pos started, if_pos (Nat.le_trans started le)]
      exact .inr rfl
    · exact .inl (if_neg started)
  | ensure e =>
    obtain ⟨span, ss⟩ := e
    rw [view, view]
    by_cases started : span.start ≤ w.offset
    · rw [if_pos started, if_pos (Nat.le_trans started le)]
      exact .inr rfl
    · exact .inl (if_neg started)
  | iteration => exact plain.elim
  | element | elseIf | case_ | body => exact .inr rfl

/-- The further walk goes through the same parts, if the other goes through any. -/
theorem onward_parts (some : (w.view n).parts ≠ []) : (v.view n).parts = (w.view n).parts := by
  by_cases plain : n.IsPlain
  · rcases view_onward le here there plain with nothing | same
    · exact absurd (congrArg View.parts nothing) some
    · rw [same]
  · cases n with
    | expr e =>
      cases e with
      | assign => rfl
      | _ => exact absurd trivial plain
    | iteration => rfl
    | _ => exact absurd trivial plain

/-- The further walk binds what the other binds, unless it has left the loop that binds it. -/
theorem onward_own (ns : List Node) (bound : x ∈ (w.view n).own) :
    x ∈ (v.view n).own ∨ w.Leaves v x (n :: ns) := by
  by_cases plain : n.IsPlain
  · rcases view_onward le here there plain with nothing | same
    · rw [nothing] at bound
      cases bound
    · rw [same]
      exact .inl bound
  · cases n with
    | expr e =>
      cases e with
      | assign =>
        rw [view, viewExpr] at bound ⊢
        split at bound
        · rename_i ended
          rw [if_pos (Nat.le_trans ended le)]
          exact .inl bound
        · cases bound
      | _ => exact absurd trivial plain
    | iteration subject key value b =>
      rw [view] at bound ⊢
      split at bound
      · rename_i touched
        cases still : b.span.touches v.offset with
        | true => exact .inl bound
        | false =>
          exact .inr ⟨_, List.mem_cons_self, subject, key, value, b, .here, bound, touched, still⟩
      · cases bound
    | _ => exact absurd trivial plain

end

/-- A loop that only the further walk has left gives its variables back only there. -/
theorem onward_finished (ns : List Node) (shown : x ∉ w.finished n) :
    x ∉ v.finished n ∨ w.Leaves v x (n :: ns) := by
  cases n with
  | iteration subject key value b =>
    rw [finished] at shown ⊢
    split
    · exact .inl List.not_mem_nil
    · rename_i left
      split at shown
      · rename_i touched
        by_cases target : x ∈ targetsOf key value
        · exact .inr ⟨_, List.mem_cons_self, subject, key, value, b, .here, target, touched,
            Bool.eq_false_iff.2 left⟩
        · exact .inl target
      · exact .inl shown
  | expr | element | stmt | elseIf | catch_ | ensure | case_ | body =>
    exact .inl List.not_mem_nil

/-! ### All nodes -/

mutual

theorem Introduces.onward {n : Node} {ns : List Node} (le : w.offset ≤ v.offset)
    (here : w.OneScope (n :: ns)) (there : v.OneScope (n :: ns)) :
    w.Introduces x n → v.Introduces x n ∨ w.Leaves v x (n :: ns)
  | .own bound _ => by
    rcases onward_own le here.head there.head ns bound with kept | left
    · exact .inl (.own kept there.parts.passes)
    · exact .inr left
  | .part shown inner => by
    rcases onward_finished (v := v) ns shown with shown | left
    · have same : (v.view n).parts = (w.view n).parts :=
        onward_parts le here.head there.head fun none => not_introducesIn_nil (none ▸ inner)
      rcases inner.onward le here.parts (same ▸ there.parts) with kept | left
      · exact .inl (.part shown (same.symm ▸ kept))
      · exact .inr left.parts
    · exact .inr left

theorem IntroducesIn.onward {ns : List Node} (le : w.offset ≤ v.offset) (here : w.OneScope ns)
    (there : v.OneScope ns) : w.IntroducesIn x ns → v.IntroducesIn x ns ∨ w.Leaves v x ns
  | .here introduced _ => by
    rcases introduced.onward le here there with kept | left
    · exact .inl (.here kept there.tail.passes)
    · exact .inr left
  | .later inner => by
    rcases inner.onward le here.tail there.tail with kept | left
    · exact .inl (.later kept)
    · exact .inr left.tail

end

/-- A walk through nodes of one scope keeps what a walk towards an earlier offset has in scope,
unless it has left a loop over it that the earlier offset is in. -/
theorem nodes_onward (placed : Placed lo hi ns) (le : w.offset ≤ v.offset) (here : w.OneScope ns)
    (there : v.OneScope ns) {s : Scope} (isOpen : s.isClosed = false)
    (known : x ∈ (w.nodes s ns).names) : x ∈ (v.nodes s ns).names ∨ w.Leaves v x ns := by
  have names : x ∈ s.names ∧ w.Passes ns ∨ w.IntroducesIn x ns :=
    ((sound_of_placed placed _ (.refl _)).names s isOpen x).1 known
  have names' : x ∈ (v.nodes s ns).names ↔ x ∈ s.names ∧ v.Passes ns ∨ v.IntroducesIn x ns :=
    (sound_of_placed placed _ (.refl _)).names s isOpen x
  rcases names with ⟨before, -⟩ | introduced
  · exact .inl (names'.2 (.inl ⟨before, there.passes⟩))
  · exact (introduced.onward le here there).imp_left fun kept => names'.2 (.inr kept)

/-- Moving the offset forward in the statements of a scope loses no variable: whatever is bound
in front of them, each that is bound at the first offset is bound at the second, unless it is a
variable of a loop whose body, ends included, holds the first offset and not the second. -/
theorem stmts_onward (r : Reader) (s : Scope) {ss : List Stmt} {lo hi : Nat}
    (placed : Placed lo hi (ss.map .stmt)) {first second : Nat} (le : first ≤ second)
    (here : Walk.OneScope ⟨r, first⟩ (ss.map .stmt))
    (there : Walk.OneScope ⟨r, second⟩ (ss.map .stmt)) :
    ∀ x ∈ (Walk.stmts ⟨r, first⟩ s ss).names, x ∈ (Walk.stmts ⟨r, second⟩ s ss).names ∨
      ∃ t ∈ ss, ∃ subject key value b,
        Walk.Reaches ⟨r, first⟩ (.iteration subject key value b) (.stmt t) ∧
        x ∈ targetsOf key value ∧ b.span.touches first = true ∧ b.span.touches second = false := by
  intro x known
  rw [stmts_eq placed] at known ⊢
  cases closed : s.isClosed with
  | true =>
    rw [nodes_stmt_still placed (.inl closed)] at known ⊢
    exact .inl known
  | false =>
    rcases nodes_onward placed le here there closed known with kept | left
    · exact .inl kept
    · obtain ⟨n, member, loop⟩ := left
      obtain ⟨t, stands, rfl⟩ := List.mem_map.1 member
      exact .inr ⟨t, stands, loop⟩

/-! ### From the body of a loop to the end -/

def attempting : Stmt :=
  .tryCatch ⟨40, 64⟩
    [.expression ⟨44, 50⟩ (.assign ⟨44, 49⟩ "=" (.var ⟨44, 46⟩ "d") (.var ⟨47, 49⟩ "k"))]
    [.mk ⟨51, 64⟩ ⟨57, 58⟩ (some "e") []] none

/-- `$a=[];foreach($a as $k){$f=function(){};try{$d=$k;}catch(E $e){}}$b=2;` -/
def looping : List Stmt := [
  .expression ⟨0, 6⟩ (.assign ⟨0, 5⟩ "=" (.var ⟨0, 2⟩ "a") (.array ⟨3, 5⟩ [])),
  .foreach ⟨6, 65⟩ (.var ⟨14, 16⟩ "a") none (.var ⟨20, 22⟩ "k") ⟨23, 65⟩
    [.block ⟨23, 65⟩ [
      .expression ⟨24, 40⟩ (.assign ⟨24, 39⟩ "=" (.var ⟨24, 26⟩ "f")
        (.closure ⟨27, 39⟩ [] [] (.mk ⟨37, 39⟩ []))),
      attempting]],
  .expression ⟨65, 70⟩ (.assign ⟨65, 69⟩ "=" (.var ⟨65, 67⟩ "b") (.literal ⟨68, 69⟩ .integer))]

/-- Between the two offsets the loop ends, so that `$k` is gone, and `$e` is caught. -/
theorem stmts_onward_looping :
    Placed 0 70 (looping.map .stmt) ∧ 50 ≤ 70 ∧
    Walk.OneScope ⟨⟨{}, {}⟩, 50⟩ (looping.map .stmt) ∧
    Walk.OneScope ⟨⟨{}, {}⟩, 70⟩ (looping.map .stmt) ∧
    (Walk.stmts ⟨⟨{}, {}⟩, 50⟩ {} looping).names = ["a", "k", "f", "d"] ∧
    (Walk.stmts ⟨⟨{}, {}⟩, 70⟩ {} looping).names = ["a", "f", "d", "e", "b"] ∧
    ∀ x ∈ (Walk.stmts ⟨⟨{}, {}⟩, 50⟩ {} looping).names,
      x ∈ (Walk.stmts ⟨⟨{}, {}⟩, 70⟩ {} looping).names ∨
      ∃ t ∈ looping, ∃ subject key value b,
        Walk.Reaches ⟨⟨{}, {}⟩, 50⟩ (.iteration subject key value b) (.stmt t) ∧
        x ∈ targetsOf key value ∧ b.span.touches 50 = true ∧ b.span.touches 70 = false := by
  have placed : Placed 0 70 (looping.map .stmt) :=
    placed_of_end? (show Node.end? 20 0 _ = some 70 by decide)
  have oneScope : ∀ offset, offset = 50 ∨ offset = 70 →
      Walk.OneScope ⟨⟨{}, {}⟩, offset⟩ (looping.map .stmt) := by
    rintro offset (rfl | rfl) <;>
      simp [looping, attempting, oneScope_cons, oneScope_nil, view, viewStmt, viewExpr, ends,
        Node.ofStmt, Node.ofExpr, Node.parts, Stmt.span, Body.span, Span.insideBraces]
  have here := oneScope 50 (.inl rfl)
  have there := oneScope 70 (.inr rfl)
  refine ⟨placed, by decide, here, there, by decide, by decide, ?_⟩
  exact stmts_onward ⟨{}, {}⟩ {} placed (by decide) here there

end Walk
end PhpSymbols
