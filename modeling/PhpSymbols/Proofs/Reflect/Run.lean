import PhpSymbols.Proofs.Reflect.Locals

/-!
# Whole walks

* `Walk.Reaches`: a walk through a node comes to another;
* `walk_induction`, `nodes_keep`: what each step keeps, a whole walk keeps;
* `nodes_outside`: a walk that comes to no declaration around the offset binds variables
  and may end, and changes nothing else;
* `nodes_behind`: a walk through nodes behind the offset changes nothing;
* `nodes_of_enters`: of nodes next to one in which a scope around the offset starts, only
  what those in front of it bind is seen;
* `introduces_iff_of_reaches`: what a walk introduces is what it introduces where such a
  scope starts.
-/

namespace PhpSymbols
open Php

namespace Walk

/-- A walk through a node comes to the node `m`. -/
inductive Reaches (w : Walk) (m : Node) : Node → Prop where
  | here : Reaches w m m
  | part {n k : Node} : k ∈ (w.view n).parts → Reaches w m k → Reaches w m n

/-- No declaration that a walk through the nodes comes to holds the offset. -/
def Outside (w : Walk) (ns : List Node) : Prop :=
  ∀ n ∈ ns, ∀ m, w.Reaches m n → ∀ space, w.declares space m = none

variable {w : Walk} {lo hi : Nat} {x : String}

theorem Reaches.enters {m n : Node} (h : w.Reaches m n) (entered : w.Enters m) : w.Enters n := by
  induction h with
  | here => exact entered
  | part member _ ih => exact .part member ih

theorem Enters.exists_reaches {n : Node} (h : w.Enters n) :
    ∃ m, w.Reaches m n ∧ (w.view m).resets = true := by
  induction h with
  | resets resets => exact ⟨_, .here, resets⟩
  | part member _ ih =>
    obtain ⟨m, reached, resets⟩ := ih
    exact ⟨m, .part member reached, resets⟩

theorem resets_of_declares {n : Node} {space : Option String} {key : Enclosing}
    (declared : w.declares space n = some key) : (w.view n).resets = true := by
  rcases declares_eq_some declared with ⟨d, rfl, inside, -⟩ | ⟨d, rfl, inside, -⟩
  · have started : (Stmt.classLike d).span.start ≤ w.offset := (Span.encloses_iff.1 inside).1
    rw [view, if_pos started, viewStmt, if_pos inside]
    exact (viewClass_frame d).1
  · have started : (Stmt.function d).span.start ≤ w.offset := (Span.encloses_iff.1 inside).1
    rw [view, if_pos started, viewStmt, if_pos inside]
    exact (viewBody_frame _ d.body).1

theorem Passes.outside {ns : List Node} (passes : w.Passes ns) : w.Outside ns := by
  intro n member m reached space
  cases declared : w.declares space m with
  | none => rfl
  | some key =>
    exact absurd (reached.enters (.resets (resets_of_declares declared))) (passes n member)

/-! ### Induction along a walk -/

theorem walk_induction_sublist {motive : List Node → Prop} (nil : motive [])
    (cons : ∀ {lo mid hi : Nat} {n : Node} {ns : List Node}, Placed lo mid [n] →
      Placed mid hi ns → motive [n] → motive ns → motive (n :: ns))
    (node : ∀ {lo hi : Nat} {n : Node}, Placed lo hi [n] → motive (w.view n).parts → motive [n])
    {ns : List Node} (placed : Placed lo hi ns) : ∀ ms, ms.Sublist ns → motive ms := by
  induction placed with
  | nil =>
    intro ms sub
    obtain rfl := List.sublist_nil.1 sub
    exact nil
  | spanned span start inside rest ih_inside ih_rest =>
    intro ms sub
    cases sub with
    | cons _ sub => exact ih_rest ms sub
    | cons_cons _ sub =>
      have head : Placed _ _ [_] := .spanned span start inside (.nil (Nat.le_refl _))
      exact cons head (rest.sublist sub) (node head (ih_inside _ (view_sublist _)))
        (ih_rest _ sub)
  | bare span inside rest ih_inside ih_rest =>
    intro ms sub
    cases sub with
    | cons _ sub => exact ih_rest ms sub
    | cons_cons _ sub =>
      have head : Placed _ _ [_] := .bare span inside (.nil (Nat.le_refl _))
      exact cons head (rest.sublist sub) (node head (ih_inside _ (view_sublist _)))
        (ih_rest _ sub)

/-- What holds of a node if it holds of the parts that a walk goes through, and of nodes one
after another, holds of all nodes in place. -/
theorem walk_induction {motive : List Node → Prop} (nil : motive [])
    (cons : ∀ {lo mid hi : Nat} {n : Node} {ns : List Node}, Placed lo mid [n] →
      Placed mid hi ns → motive [n] → motive ns → motive (n :: ns))
    (node : ∀ {lo hi : Nat} {n : Node}, Placed lo hi [n] → motive (w.view n).parts → motive [n])
    {ns : List Node} (placed : Placed lo hi ns) : motive ns :=
  walk_induction_sublist nil cons node placed ns (.refl _)

theorem placed_view {n : Node} (placed : Placed lo hi [n]) : Placed lo hi (w.view n).parts :=
  placed.parts.sublist (view_sublist n)

theorem Reaches.placed {m n : Node} (h : w.Reaches m n) (placed : Placed lo hi [n]) :
    Placed lo hi [m] := by
  induction h with
  | here => exact placed
  | part member _ ih => exact ih ((placed_view placed).of_mem member)

theorem isClosed_enter (s : Scope) (n : Node) : (w.enter s n).isClosed = s.isClosed := by
  rw [enter_frame]

/-- A walk that ends at a node does not go on behind it. -/
theorem nodes_of_closed {mid : Nat} {n : Node} {ns : List Node} {s : Scope}
    (head : Placed lo mid [n]) (rest : Placed mid hi ns) (isOpen : s.isClosed = false)
    (closed : (w.node s n).isClosed = true) : w.nodes s (n :: ns) = w.node s n := by
  have within := (sound_of_placed head _ (.refl _)).within s isOpen closed
  rw [nodes_cons]
  exact (sound_of_placed rest _ (.refl _)).still _ closed within.2

/-- What entering and leaving keep at each node that a walk comes to, the walk keeps. -/
theorem nodes_keep {R : Scope → Scope → Prop} (refl : ∀ s, R s s)
    (trans : ∀ {a b c}, R a b → R b c → R a c)
    (leaves : ∀ (n : Node) (s after : Scope), R after (w.leave s after n))
    {ns : List Node} (placed : Placed lo hi ns)
    (enters : ∀ n ∈ ns, ∀ m, w.Reaches m n → ∀ s, R s (w.enter s m)) (s : Scope)
    (isOpen : s.isClosed = false) : R s (w.nodes s ns) := by
  revert enters s
  apply walk_induction (w := w) (motive := fun ns =>
    (∀ n ∈ ns, ∀ m, w.Reaches m n → ∀ s, R s (w.enter s m)) →
      ∀ s : Scope, s.isClosed = false → R s (w.nodes s ns)) _ _ _ placed
  · intro _ s _
    exact refl s
  · intro lo mid hi n ns head rest ih_head ih_rest enters s isOpen
    obtain ⟨first, others⟩ := List.forall_mem_cons.1 enters
    have step : R s (w.node s n) :=
      ih_head (fun m member => List.mem_singleton.1 member ▸ first) s isOpen
    cases closed : (w.node s n).isClosed with
    | true =>
      rw [nodes_of_closed head rest isOpen closed]
      exact step
    | false => exact trans step (ih_rest others _ closed)
  · intro lo hi n place ih enters s isOpen
    have here := enters n List.mem_cons_self
    have inner := ih (fun k member m reached => here m (.part member reached)) (w.enter s n)
      ((isClosed_enter s n).trans isOpen)
    have step : w.nodes s [n] = w.leave s (w.nodes (w.enter s n) (w.view n).parts) n :=
      node_eq place.parts isOpen
    rw [step]
    exact trans (trans (here n .here s) inner) (leaves n s _)

/-! ### What a walk changes -/

/-- Where no declaration holds the offset, a walk binds variables and may end. -/
theorem nodes_outside {ns : List Node} (placed : Placed lo hi ns) (outside : w.Outside ns)
    {s : Scope} (isOpen : s.isClosed = false) :
    w.nodes s ns =
      { s with
        locals := (w.nodes s ns).locals
        isClosed := (w.nodes s ns).isClosed } := by
  apply nodes_keep (R := fun s after =>
    after = { s with locals := after.locals, isClosed := after.isClosed }) _ _ _ placed _ s isOpen
  · intro s
    rfl
  · intro a b c first second
    rw [second, first]
  · intro n s after
    exact leave_frame s after n
  · intro n member m reached s
    rw [enter_outside (outside n member m reached none)]

/-- A walk through nodes behind the offset changes nothing: neither a name nor a type. -/
theorem nodes_behind {ns : List Node} (placed : Placed lo hi ns) (behind : w.offset < lo)
    (s : Scope) : w.nodes s ns = s := by
  have all := walk_induction (w := w) (motive := fun ns =>
    ∀ lo hi, Placed lo hi ns → w.offset < lo → ∀ s, w.nodes s ns = s) ?_ ?_ ?_ placed
  · exact all lo hi placed behind s
  · intro lo hi _ _ s
    rfl
  · intro _ _ _ n ns _ _ ih_head ih_rest lo hi placed behind s
    obtain ⟨mid, first, others⟩ := placed.of_cons
    have le := first.le
    rw [nodes_cons, ih_rest mid hi others (by omega)]
    exact ih_head lo mid first behind s
  · intro _ _ n _ ih lo hi placed behind s
    cases closed : s.isClosed with
    | true => exact (sound_of_placed placed _ (.refl _)).still s closed behind
    | false =>
      have parts := ih lo hi (placed_view placed) behind (w.enter s n)
      have step : w.nodes s [n] = w.leave s (w.nodes (w.enter s n) (w.view n).parts) n :=
        node_eq placed.parts closed
      rw [step, parts]
      exact leave_enter_behind placed behind s

/-- Of the nodes next to one in which a scope around the offset starts, those in front of it
bind variables, and those behind it are not seen. -/
theorem nodes_of_enters {ns : List Node} {n : Node} (placed : Placed lo hi ns) (member : n ∈ ns)
    (entered : w.Enters n) {s : Scope} (isOpen : s.isClosed = false) :
    ∃ before : Scope, before = { s with locals := before.locals } ∧
      w.nodes s ns = w.node before n := by
  obtain ⟨pre, post, rfl⟩ := List.append_of_mem member
  obtain ⟨start, pre_placed, rest⟩ := placed.of_append
  obtain ⟨stop, place, post_placed⟩ := rest.of_cons
  have around := (sound_of_placed place _ (.refl _)).enters fun passes =>
    (passes_cons.1 passes).1 entered
  have front : Sound w lo start pre := sound_of_placed pre_placed _ (.refl _)
  have outside := (front.passes (by omega)).outside
  have frame := nodes_outside pre_placed outside isOpen
  rw [front.isClosed_nodes (by omega) isOpen, ← isOpen] at frame
  refine ⟨w.nodes s pre, frame, ?_⟩
  rw [nodes_append, nodes_cons]
  exact nodes_behind post_placed around.2 _

/-! ### Names around the offset -/

/-- A loop around the offset is not finished. -/
theorem not_mem_finished {n : Node} (placed : Placed lo hi [n]) (entered : w.Enters n) :
    x ∉ w.finished n := by
  cases n with
  | iteration subject key value b =>
    cases placed with
    | bare same => cases same
    | spanned same start inside rest =>
      obtain rfl := Option.some.inj same
      have inner : Placed b.span.start b.span.stop [.iteration subject key value b] :=
        .spanned rfl (Nat.le_refl _) inside (.nil (Nat.le_refl _))
      have around := (sound_of_placed inner _ (.refl _)).enters fun passes =>
        (passes_cons.1 passes).1 entered
      have touched : b.span.touches w.offset = true := by
        simp only [Span.touches, Bool.and_eq_true, decide_eq_true_eq]
        omega
      rw [finished, if_pos touched]
      exact List.not_mem_nil
  | expr | element | stmt | elseIf | catch_ | ensure | case_ | body => exact List.not_mem_nil

/-- What nodes introduce is what the one introduces in which a scope around the offset starts. -/
theorem introducesIn_iff_of_enters {n : Node} {ns : List Node} (placed : Placed lo hi ns)
    (member : n ∈ ns) (entered : w.Enters n) : w.IntroducesIn x ns ↔ w.Introduces x n := by
  induction ns generalizing lo with
  | nil => cases member
  | cons m ns ih =>
    obtain ⟨mid, head, rest⟩ := placed.of_cons
    rw [introducesIn_cons]
    cases member with
    | head =>
      have around := (sound_of_placed head _ (.refl _)).enters fun passes =>
        (passes_cons.1 passes).1 entered
      have behind : Sound w mid hi ns := sound_of_placed rest _ (.refl _)
      rw [and_iff_left (behind.passes (by omega)), or_iff_left (behind.not_introducesIn around.2)]
    | tail _ member =>
      have entered_rest : ¬ w.Passes ns := fun passes => passes n member entered
      rw [or_iff_right fun introduced => entered_rest introduced.2]
      exact ih rest member

theorem introduces_iff_of_mem {m n : Node} (placed : Placed lo hi [n])
    (member : m ∈ (w.view n).parts) (entered : w.Enters m) :
    w.Introduces x n ↔ w.Introduces x m := by
  have shown := @not_mem_finished w lo hi x n placed (.part member entered)
  have entered_parts : ¬ w.Passes (w.view n).parts := fun passes => passes m member entered
  rw [introduces_iff, or_iff_right fun bound => entered_parts bound.2, and_iff_right shown]
  exact introducesIn_iff_of_enters (placed_view placed) member entered

/-- What a node introduces is what a node introduces that the walk through it comes to, if a
scope around the offset starts there. -/
theorem introduces_iff_of_reaches {m n : Node} (h : w.Reaches m n) (placed : Placed lo hi [n])
    (entered : w.Enters m) : w.Introduces x n ↔ w.Introduces x m := by
  induction h with
  | here => exact Iff.rfl
  | part member reached ih =>
    have inner := ih ((placed_view placed).of_mem member)
    exact (introduces_iff_of_mem placed member (reached.enters entered)).trans inner

end Walk
end PhpSymbols
