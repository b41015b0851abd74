import PhpSymbols.Proofs.Reflect.View

/-!
# Walks through nodes

* `Walk.node`, `Walk.nodes`: a walk through nodes, of which the walks through lists of
  expressions, statements and clauses are cases;
* `Sound`: what holds of a walk through placed nodes, above all that a name is in scope
  after it exactly if the walk introduces it, or it was in scope and no scope of its own
  starts in between;
* `Sound.append`: nodes one after another keep it;
* `Sound.of_view`: a node keeps it whose walk is what its view says.
-/

namespace PhpSymbols
open Php

namespace Walk
variable (w : Walk)

/-- The scope in which the body of a loop over `subject` starts. -/
def iteration (s : Scope) (subject : Expr) (key : Option Expr) (value : Expr) : Scope :=
  let element := Scope.elementTy (subject.valueTy s.locals)
  let s := match key with
    | some k => s.bindTarget .mixed k
    | none => s
  s.bindTarget element value

theorem frame_iteration (s : Scope) (subject : Expr) (key : Option Expr) (value : Expr) :
    iteration s subject key value =
      { s with locals := (iteration s subject key value).locals } := by
  cases key with
  | none => exact Scope.frame_bindTarget value s _
  | some k => rw [iteration, Scope.frame_bindTarget, Scope.frame_bindTarget k]

theorem mem_names_iteration (s : Scope) (subject : Expr) (key : Option Expr) (value : Expr)
    (x : String) : x ∈ (iteration s subject key value).names ↔
      x ∈ targetsOf key value ∨ x ∈ s.names := by
  cases key with
  | none => simp [iteration, targetsOf, Scope.mem_names_bindTarget]
  | some k =>
    simp only [iteration, targetsOf, Scope.mem_names_bindTarget, Option.map_some,
      Option.getD_some, List.mem_append]
    exact or_left_comm.trans or_assoc.symm

/-- A loop that gives its targets back leaves them as they were. -/
theorem restore_iteration (s : Scope) (subject : Expr) (key : Option Expr) (value : Expr) :
    (iteration s subject key value).restore (s.save (targetsOf key value)) = s := by
  cases key with
  | none =>
    have names : targetsOf none value = Scope.targetNames value := rfl
    rw [iteration, names,
      Scope.restore_bindTarget value s _ (List.Subset.refl _) (List.Subset.refl _)]
    exact s.restore_save _
  | some k =>
    have kept : s.names ⊆ (s.bindTarget .mixed k).names := fun x member =>
      (Scope.mem_names_bindTarget k s .mixed x).2 (.inr member)
    have names : targetsOf (some k) value = Scope.targetNames k ++ Scope.targetNames value := rfl
    rw [iteration, names, Scope.restore_bindTarget value _ _ (List.subset_append_right _ _) kept,
      Scope.restore_bindTarget k s _ (List.subset_append_left _ _) (List.Subset.refl _)]
    exact s.restore_save _

/-- The walk through a loop behind its subject. -/
def iterate (s : Scope) (subject : Expr) (key : Option Expr) (value : Expr) (span : Span)
    (ss : List Stmt) : Scope :=
  (w.stmts (iteration s subject key value) ss).restore
    (if span.touches w.offset then [] else s.save (targetsOf key value))

def node (s : Scope) : Node → Scope
  | .expr e => w.expr s e
  | .element e => w.element s e
  | .stmt t => if s.isClosed || w.offset < t.span.start then s else w.stmt s t
  | .iteration subject key value (.mk span ss) =>
    if s.isClosed then s else w.iterate s subject key value span ss
  | .elseIf e => w.elseIf s e
  | .catch_ c => if c.span.start ≤ w.offset then w.catch_ s c else s
  | .ensure e => w.ensure s e
  | .case_ c => w.case_ s c
  | .body (.mk _ ss) => w.stmts s ss

def nodes (s : Scope) (ns : List Node) : Scope := ns.foldl w.node s

theorem nodes_cons (s : Scope) (n : Node) (ns : List Node) :
    w.nodes s (n :: ns) = w.nodes (w.node s n) ns := rfl

theorem nodes_append (s : Scope) (ms ns : List Node) :
    w.nodes s (ms ++ ns) = w.nodes (w.nodes s ms) ns := List.foldl_append

/-! ### Lists of parts -/

theorem exprs_eq (s : Scope) (es : List Expr) : w.exprs s es = w.nodes s (es.map .expr) := by
  induction es generalizing s with
  | nil => rw [exprs]; rfl
  | cons e es ih => rw [exprs, ih]; rfl

theorem exprIfAny_eq (s : Scope) (e : Option Expr) :
    w.exprIfAny s e = w.nodes s (e.toList.map .expr) := by
  cases e <;> rw [exprIfAny] <;> rfl

theorem elements_eq (s : Scope) (es : List Element) :
    w.elements s es = w.nodes s (es.map .element) := by
  induction es generalizing s with
  | nil => rw [elements]; rfl
  | cons e es ih => rw [elements, ih]; rfl

theorem elseIfs_eq (s : Scope) (es : List ElseIf) :
    w.elseIfs s es = w.nodes s (es.map .elseIf) := by
  induction es generalizing s with
  | nil => rw [elseIfs]; rfl
  | cons e es ih => rw [elseIfs, ih]; rfl

theorem cases_eq (s : Scope) (cs : List Case) : w.cases s cs = w.nodes s (cs.map .case_) := by
  induction cs generalizing s with
  | nil => rw [cases]; rfl
  | cons c cs ih => rw [cases, ih]; rfl

theorem ensureIfAny_eq (s : Scope) (e : Option Ensure) :
    w.ensureIfAny s e = w.nodes s (e.toList.map .ensure) := by
  cases e <;> rw [ensureIfAny] <;> rfl

variable {w} {s : Scope}

theorem expr_closed (closed : s.isClosed = true) (e : Expr) : w.expr s e = s := by
  rw [expr.eq_def, if_pos closed]

theorem element_eq (s : Scope) (e : Element) : w.element s e = w.nodes s (Node.ofElement e) := by
  cases e <;> rw [element] <;> rfl

theorem nodes_still {ns : List Node} (h : ∀ n ∈ ns, w.node s n = s) : w.nodes s ns = s := by
  induction ns with
  | nil => rfl
  | cons n ns ih =>
    obtain ⟨head, rest⟩ := List.forall_mem_cons.1 h
    rw [nodes_cons, head]
    exact ih rest

/-- Statements behind the offset, or behind the end of the scope, are not walked. -/
theorem nodes_stmt_still {lo hi : Nat} {ss : List Stmt} (h : Placed lo hi (ss.map .stmt))
    (still : s.isClosed = true ∨ w.offset < lo) : w.nodes s (ss.map .stmt) = s := by
  apply nodes_still
  intro n member
  obtain ⟨t, -, rfl⟩ := List.mem_map.1 member
  have start : lo ≤ t.span.start := h.start_le member rfl
  rw [node]
  apply if_pos
  simp only [Bool.or_eq_true, decide_eq_true_eq]
  exact still.imp_right fun h => by omega

theorem stmts_eq {lo hi : Nat} {ss : List Stmt} (h : Placed lo hi (ss.map .stmt)) :
    w.stmts s ss = w.nodes s (ss.map .stmt) := by
  induction ss generalizing lo s with
  | nil => rw [stmts]; rfl
  | cons t ss ih =>
    cases h with
    | bare span => cases span
    | spanned span start inside rest =>
      obtain rfl := Option.some.inj span
      have le := inside.le
      rw [stmts, List.map_cons, nodes_cons, node]
      split
      · rename_i still
        simp only [Bool.or_eq_true, decide_eq_true_eq] at still
        exact (nodes_stmt_still rest (still.imp_right fun h => by omega)).symm
      · exact ih rest

/-- Clauses behind the offset are not walked. -/
theorem nodes_catch_still {lo hi : Nat} {cs : List Catch} (h : Placed lo hi (cs.map .catch_))
    (behind : w.offset < lo) : w.nodes s (cs.map .catch_) = s := by
  apply nodes_still
  intro n member
  obtain ⟨c, -, rfl⟩ := List.mem_map.1 member
  have start : lo ≤ c.span.start := h.start_le member rfl
  rw [node]
  exact if_neg (by omega)

theorem catches_eq {lo hi : Nat} {cs : List Catch} (h : Placed lo hi (cs.map .catch_)) :
    w.catches s cs = w.nodes s (cs.map .catch_) := by
  induction cs generalizing lo s with
  | nil => rw [catches]; rfl
  | cons c cs ih =>
    cases h with
    | bare span => cases span
    | spanned span start inside rest =>
      obtain rfl := Option.some.inj span
      have le := inside.le
      rw [catches, List.map_cons, nodes_cons, node]
      split
      · exact ih rest
      · exact (nodes_catch_still rest (by omega)).symm

variable (w) in
/-- What holds of a walk through nodes that stand between two places. -/
structure Sound (lo hi : Nat) (ns : List Node) : Prop where
  le : lo ≤ hi
  /-- A walk that ended before the nodes leaves them alone. -/
  still : ∀ s : Scope, s.isClosed = true → w.offset < lo → w.nodes s ns = s
  /-- A walk ends only where the offset is. -/
  within : ∀ s : Scope, s.isClosed = false → (w.nodes s ns).isClosed = true →
    lo ≤ w.offset ∧ w.offset < hi
  names : ∀ s : Scope, s.isClosed = false → ∀ x,
    (x ∈ (w.nodes s ns).names ↔ x ∈ s.names ∧ w.Passes ns ∨ w.IntroducesIn x ns)
  enters : ¬ w.Passes ns → lo ≤ w.offset ∧ w.offset < hi
  introduces : ∀ x, w.IntroducesIn x ns → lo ≤ w.offset

namespace Sound
variable {lo mid hi : Nat} {ns : List Node}

theorem weaken {lo' hi' : Nat} (h : Sound w lo hi ns) (start : lo' ≤ lo) (stop : hi ≤ hi') :
    Sound w lo' hi' ns where
  le := Nat.le_trans start (Nat.le_trans h.le stop)
  still s closed before := h.still s closed (by omega)
  within s isOpen closed := by
    have := h.within s isOpen closed
    omega
  names := h.names
  enters entered := by
    have := h.enters entered
    omega
  introduces x introduced := Nat.le_trans start (h.introduces x introduced)

/-! Nodes that the offset is not in neither start a scope around it nor end the walk. -/

theorem passes (h : Sound w lo hi ns) (apart : ¬ (lo ≤ w.offset ∧ w.offset < hi)) :
    w.Passes ns := Classical.byContradiction fun entered => apart (h.enters entered)

theorem isClosed_nodes {s : Scope} (h : Sound w lo hi ns)
    (apart : ¬ (lo ≤ w.offset ∧ w.offset < hi)) (isOpen : s.isClosed = false) :
    (w.nodes s ns).isClosed = false :=
  Bool.eq_false_iff.2 fun closed => apart (h.within s isOpen closed)

theorem not_introducesIn {x : String} (h : Sound w lo hi ns) (behind : w.offset < lo) :
    ¬ w.IntroducesIn x ns := fun introduced =>
  absurd (h.introduces x introduced) (Nat.not_le_of_lt behind)

theorem nil (le : lo ≤ hi) : Sound w lo hi [] where
  le := le
  still _ _ _ := rfl
  within s isOpen closed := absurd (isOpen.symm.trans closed) (by decide)
  names s _ x := by
    simp only [passes_nil, not_introducesIn_nil, and_true, or_false]
    exact Iff.rfl
  enters entered := absurd passes_nil entered
  introduces _ introduced := absurd introduced not_introducesIn_nil

theorem append {ms : List Node} (hm : Sound w lo mid ms) (hn : Sound w mid hi ns) :
    Sound w lo hi (ms ++ ns) where
  le := Nat.le_trans hm.le hn.le
  still s closed before := by
    have le := hm.le
    rw [nodes_append, hm.still s closed before, hn.still s closed (by omega)]
  within s isOpen closed := by
    have lo_mid := hm.le
    have mid_hi := hn.le
    rw [nodes_append] at closed
    cases here : (w.nodes s ms).isClosed with
    | true =>
      have := hm.within s isOpen here
      omega
    | false =>
      have := hn.within _ here closed
      omega
  names s isOpen x := by
    rw [nodes_append, passes_append, introducesIn_append]
    cases here : (w.nodes s ms).isClosed with
    | true =>
      -- what stands behind the offset neither binds a name nor starts a scope around it
      have inside := hm.within s isOpen here
      have passes := hn.passes (by omega)
      have none := hn.not_introducesIn (x := x) inside.2
      rw [hn.still _ here inside.2, hm.names s isOpen x]
      simp only [passes, none, and_true, or_false]
    | false =>
      rw [hn.names _ here x, hm.names s isOpen x]
      constructor
      · rintro (⟨⟨h, hm⟩ | h, hn⟩ | h)
        · exact .inl ⟨h, hm, hn⟩
        · exact .inr (.inl ⟨h, hn⟩)
        · exact .inr (.inr h)
      · rintro (⟨h, hm, hn⟩ | ⟨h, hn⟩ | h)
        · exact .inl ⟨.inl ⟨h, hm⟩, hn⟩
        · exact .inl ⟨.inr h, hn⟩
        · exact .inr h
  enters entered := by
    have lo_mid := hm.le
    have mid_hi := hn.le
    rw [passes_append, Classical.not_and_iff_not_or_not] at entered
    rcases entered with entered | entered
    · have := hm.enters entered
      omega
    · have := hn.enters entered
      omega
  introduces x introduced := by
    have le := hm.le
    rcases introducesIn_append.1 introduced with ⟨h, -⟩ | h
    · exact hm.introduces x h
    · exact Nat.le_trans le (hn.introduces x h)

/-- A node is sound if its parts are and its view accounts for the names. -/
theorem of_view {n : Node} {v : View} (view : w.view n = v) (parts : Sound w lo hi v.parts)
    (still : ∀ s : Scope, s.isClosed = true → w.offset < lo → w.node s n = s)
    (within : ∀ s : Scope, s.isClosed = false → (w.node s n).isClosed = true →
      lo ≤ w.offset ∧ w.offset < hi)
    (names : ∀ s : Scope, s.isClosed = false → ∀ x, (x ∈ (w.node s n).names ↔
      (x ∈ v.own ∨ v.resets = false ∧ x ∈ s.names) ∧ w.Passes v.parts ∨
        x ∉ w.finished n ∧ w.IntroducesIn x v.parts))
    (resets : v.resets = true → lo ≤ w.offset ∧ w.offset < hi)
    (own : ∀ x ∈ v.own, lo ≤ w.offset) : Sound w lo hi [n] where
  le := parts.le
  still := still
  within := within
  names s isOpen x := by
    subst view
    have none := @not_introducesIn_nil w x
    rw [passes_cons, introducesIn_cons, enters_iff, introduces_iff]
    simp only [passes_nil, none, and_true, or_false, not_or, Classical.not_not,
      Bool.not_eq_true]
    refine (names s isOpen x).trans ?_
    rw [or_and_right, or_comm (a := x ∈ _ ∧ _), or_assoc, and_assoc, and_left_comm]
  enters entered := by
    subst view
    rw [passes_cons, and_iff_left passes_nil, Classical.not_not, enters_iff] at entered
    exact entered.elim resets parts.enters
  introduces x introduced := by
    subst view
    rw [introducesIn_cons, or_iff_left not_introducesIn_nil, introduces_iff] at introduced
    rcases introduced with ⟨⟨h, -⟩ | ⟨-, h⟩, -⟩
    · exact own x h
    · exact parts.introduces x h

end Sound

end Walk
end PhpSymbols
