import PhpSymbols.Proofs.Reflect.Course

/-!
# Finished loops

* `extends_enter`, `extends_leave`: outside of scopes of their own, nodes move no name;
* `extends_nodes`: so no walk does that passes them;
* `mem_leave`, `Comes.mem_names`: a name that is in scope at some moment of such a walk stays,
  if no finished loop gives it back;
* `stmt_foreach`: a finished loop leaves its variables as they were before its body, moves no
  name, and keeps what its body binds.
-/

namespace PhpSymbols
open Php

namespace Walk
variable {w : Walk} {lo hi : Nat} {x : String} {s : Scope}

/-! ### One step -/

theorem extends_iteration (s : Scope) (subject : Expr) (key : Option Expr) (value : Expr) :
    (iteration s subject key value).Extends s := by
  cases key with
  | none => exact Scope.extends_bindTarget value s _
  | some k => exact (Scope.extends_bindTarget value _ _).trans (Scope.extends_bindTarget k s _)

theorem isClosed_iteration (s : Scope) (subject : Expr) (key : Option Expr) (value : Expr) :
    (iteration s subject key value).isClosed = s.isClosed := by rw [frame_iteration]

theorem extends_enterStmt {t : Stmt} (shared : (w.viewStmt t).resets = false) :
    (w.enterStmt s t).Extends s := by
  cases t with
  | global span names => exact s.extends_bindAll _
  | staticVars span names initials => exact s.extends_static names
  | classLike d =>
    by_cases inside : d.span.encloses w.offset = true
    · rw [viewStmt, if_pos inside, (viewClass_frame d).1] at shared
      cases shared
    · rw [enterStmt, if_neg inside]
      exact .refl s
  | function d =>
    by_cases inside : d.span.encloses w.offset = true
    · rw [viewStmt, if_pos inside, (viewBody_frame _ d.body).1] at shared
      cases shared
    · rw [enterStmt, if_neg inside]
      exact .refl s
  | _ => exact .refl s

/-- Entering a node moves no name, unless a scope of its own starts there. -/
theorem extends_enter {n : Node} (shared : (w.view n).resets = false) :
    (w.enter s n).Extends s := by
  cases n with
  | expr e =>
    cases e with
    | closure span ps captured b =>
      by_cases inside : b.span.insideBraces w.offset = true
      · rw [view, viewExpr, if_pos inside] at shared
        cases shared
      · rw [enter, if_neg inside]
        exact .refl s
    | arrow span ps value =>
      rw [enter]
      split
      · exact s.extends_bindAll _
      · exact .refl s
    | _ => exact .refl s
  | stmt t =>
    rw [view] at shared
    rw [enter]
    split
    · rename_i started
      rw [if_pos started] at shared
      exact extends_enterStmt shared
    · exact .refl s
  | iteration subject key value b => exact extends_iteration s subject key value
  | catch_ c =>
    obtain ⟨span, hint, name, ss⟩ := c
    cases name with
    | none => exact .refl s
    | some caught =>
      rw [enter]
      split
      · exact s.extends_bind caught _
      · exact .refl s
  | element | elseIf | ensure | case_ | body => exact .refl s

theorem extends_leave {after : Scope} (n : Node) (kept : after.Extends s) :
    (w.leave s after n).Extends s := by
  by_cases plain : n.IsPlain
  · rw [leave_plain plain]
    split
    · exact kept
    · exact kept
  · cases n with
    | expr e =>
      cases e with
      | assign span operator target value =>
        rw [leave]
        split
        · exact kept
        · exact (Scope.extends_bindTarget target after _).trans kept
      | _ => exact absurd trivial plain
    | iteration subject key value b =>
      rw [leave]
      split
      · exact kept
      · exact kept.restore _
    | _ => exact absurd trivial plain

/-- A name that is in scope behind the parts of a node is so behind the node, if the node is no
finished loop over it. -/
theorem mem_leave {after : Scope} (n : Node) (known : x ∈ after.names) :
    x ∈ (w.leave s after n).names ∨ x ∈ w.finished n := by
  by_cases plain : n.IsPlain
  · left
    rw [leave_plain plain]
    split
    · exact known
    · exact known
  · cases n with
    | expr e =>
      cases e with
      | assign span operator target value =>
        left
        rw [leave]
        split
        · exact known
        · exact (Scope.extends_bindTarget target after _).subset known
      | _ => exact absurd trivial plain
    | iteration subject key value b =>
      rw [leave, finished]
      split
      · exact .inl known
      · rw [Scope.mem_names_restore]
        by_cases target : x ∈ targetsOf key value
        · exact .inr target
        · exact .inl (.inr ⟨target, known⟩)
    | _ => exact absurd trivial plain

/-! ### The walk -/

theorem not_enters_iff {n : Node} :
    ¬ w.Enters n ↔ (w.view n).resets = false ∧ w.Passes (w.view n).parts := by
  rw [enters_iff, not_or, Bool.not_eq_true, Classical.not_not]

/-- A walk that passes all scopes of their own moves no name. -/
theorem extends_nodes {ns : List Node} (placed : Placed lo hi ns) (passes : w.Passes ns)
    (isOpen : s.isClosed = false) : (w.nodes s ns).Extends s := by
  have all := walk_induction (w := w) (motive := fun ns =>
    w.Passes ns → ∀ s : Scope, s.isClosed = false → (w.nodes s ns).Extends s) ?_ ?_ ?_ placed
  · exact all passes s isOpen
  · intro _ s _
    exact .refl s
  · intro lo mid hi n ns head rest ih_head ih_rest passes s isOpen
    obtain ⟨first, others⟩ := passes_cons.1 passes
    have step : (w.node s n).Extends s := ih_head (passes_cons.2 ⟨first, passes_nil⟩) s isOpen
    cases closed : (w.node s n).isClosed with
    | true =>
      rw [nodes_of_closed head rest isOpen closed]
      exact step
    | false => exact (ih_rest others _ closed).trans step
  · intro lo hi n place ih passes s isOpen
    obtain ⟨shared, inner⟩ := not_enters_iff.1 (passes n List.mem_cons_self)
    have parts := ih inner (w.enter s n) ((isClosed_enter s n).trans isOpen)
    have step : w.nodes s [n] = w.leave s (w.nodes (w.enter s n) (w.view n).parts) n :=
      node_eq place.parts isOpen
    rw [step]
    exact extends_leave n (parts.trans (extends_enter shared))

/-- What is in scope behind the first of several nodes is so behind all. -/
theorem mem_nodes_cons {n : Node} {ns : List Node} (placed : Placed lo hi (n :: ns))
    (passes : w.Passes ns) (isOpen : s.isClosed = false) (known : x ∈ (w.node s n).names) :
    x ∈ (w.nodes s (n :: ns)).names := by
  obtain ⟨mid, head, rest⟩ := placed.of_cons
  cases closed : (w.node s n).isClosed with
  | true =>
    rw [nodes_of_closed head rest isOpen closed]
    exact known
  | false => exact (extends_nodes rest passes closed).subset known

/-- A name that is in scope behind a node to which a walk comes is so at the end of the walk,
unless the walk comes to a finished loop over it. -/
theorem Comes.mem_names {m : Node} {moment : Scope} {ns : List Node} (h : w.Comes m moment s ns)
    (placed : Placed lo hi ns) (passes : w.Passes ns) (isOpen : s.isClosed = false)
    (known : x ∈ (w.node moment m).names) :
    x ∈ (w.nodes s ns).names ∨ ∃ n ∈ ns, ∃ k, w.Reaches k n ∧ x ∈ w.finished k := by
  induction h generalizing lo hi with
  | here => exact .inl (mem_nodes_cons placed (passes_cons.1 passes).2 isOpen known)
  | @inside s n ns _ ih =>
    obtain ⟨mid, head, -⟩ := placed.of_cons
    obtain ⟨first, others⟩ := passes_cons.1 passes
    have inner := (not_enters_iff.1 first).2
    have parts := ih (placed_view head) inner ((isClosed_enter s n).trans isOpen)
    rcases parts with kept | ⟨part, member, k, reached, given⟩
    · -- only if `n` is itself a finished loop over the name does leaving it lose the name
      rcases mem_leave n kept with left | given
      · rw [← node_eq head.parts isOpen] at left
        exact .inl (mem_nodes_cons placed others isOpen left)
      · exact .inr ⟨n, List.mem_cons_self, n, .here, given⟩
    · exact .inr ⟨n, List.mem_cons_self, k, .part member reached, given⟩
  | @behind s n ns before _ ih =>
    obtain ⟨mid, -, rest⟩ := placed.of_cons
    rcases ih rest (passes_cons.1 passes).2 before with kept | ⟨m, member, found⟩
    · exact .inl kept
    · exact .inr ⟨m, List.mem_cons_of_mem _ member, found⟩

/-! ### Loops -/

theorem mem_finished {k : Node} (given : x ∈ w.finished k) :
    ∃ subject key value b, k = .iteration subject key value b ∧ x ∈ targetsOf key value := by
  cases k with
  | iteration subject key value b =>
    rw [finished] at given
    split at given
    · cases given
    · exact ⟨subject, key, value, b, rfl, given⟩
  | expr | element | stmt | elseIf | catch_ | ensure | case_ | body => cases given

section
variable {span : Span} {subject value : Expr} {key : Option Expr} {ss : List Stmt}
  (placed : Placed span.start span.stop (ss.map .stmt)) (apart : span.touches w.offset = false)
include placed apart

/-- A walk passes nodes in bytes that the offset does not touch. -/
theorem passes_of_apart : w.Passes (ss.map .stmt) := by
  apply (sound_of_placed placed _ (.refl _)).passes
  intro inside
  have touched := Span.touches_iff.2 ⟨inside.1, Nat.le_of_lt inside.2⟩
  rw [apart] at touched
  cases touched

theorem iterate_eq : w.iterate s subject key value span ss =
    (w.nodes (iteration s subject key value) (ss.map .stmt)).restore
      (s.save (targetsOf key value)) := by
  rw [iterate, stmts_eq placed, apart]
  rfl

theorem extends_iterate (isOpen : s.isClosed = false) :
    (w.iterate s subject key value span ss).Extends s := by
  have started : (iteration s subject key value).isClosed = false :=
    (isClosed_iteration s subject key value).trans isOpen
  have body := extends_nodes placed (passes_of_apart placed apart) started
  rw [iterate_eq placed apart]
  exact (body.trans (extends_iteration s subject key value)).restore _

/-- What is bound at some moment of a finished loop stays, unless it is a variable of the loop or
of one that is finished in its body. -/
theorem Comes.mem_names_iterate {m : Node} {moment : Scope}
    (h : w.Comes m moment (iteration s subject key value) (ss.map .stmt))
    (isOpen : s.isClosed = false) (known : x ∈ (w.node moment m).names) :
    x ∈ (w.iterate s subject key value span ss).names ∨ x ∈ targetsOf key value ∨
      ∃ t ∈ ss, ∃ subject key value inner,
        w.Reaches (.iteration subject key value inner) (.stmt t) ∧ x ∈ targetsOf key value := by
  have started : (iteration s subject key value).isClosed = false :=
    (isClosed_iteration s subject key value).trans isOpen
  rcases h.mem_names placed (passes_of_apart placed apart) started known with stays | found
  · by_cases target : x ∈ targetsOf key value
    · exact .inr (.inl target)
    · rw [iterate_eq placed apart]
      exact .inl ((Scope.mem_names_restore s _ _ x).2 (.inr ⟨target, stays⟩))
  · obtain ⟨n, member, k, reached, given⟩ := found
    obtain ⟨t, part, rfl⟩ := List.mem_map.1 member
    obtain ⟨subject, key, value, inner, rfl, target⟩ := mem_finished given
    exact .inr (.inr ⟨t, part, subject, key, value, inner, reached, target⟩)

end

/-- A walk through a loop goes through its subject and then, if it has not ended, iterates. -/
theorem stmt_foreach_eq (w : Walk) (s : Scope) (span bodySpan : Span) (subject value : Expr)
    (key : Option Expr) (body : List Stmt) :
    w.stmt s (.foreach span subject key value bodySpan body) =
      if (w.expr s subject).isClosed then w.expr s subject
      else w.iterate (w.expr s subject) subject key value bodySpan body := by
  rw [stmt.eq_def]
  rfl

theorem placed_body {span bodySpan : Span} {subject value : Expr} {key : Option Expr}
    {body : List Stmt}
    (placed : Placed lo hi [.stmt (.foreach span subject key value bodySpan body)]) :
    Placed bodySpan.start bodySpan.stop (body.map .stmt) := by
  have loop : Placed lo hi [.iteration subject key value (.mk bodySpan body)] :=
    placed.parts.of_mem (List.mem_cons_of_mem _ List.mem_cons_self)
  exact ((loop.own List.mem_cons_self rfl).parts.of_mem List.mem_cons_self).parts

/-- A loop over targets whose body the offset is not in leaves each of its variables as it was
before the body, with the type that it had or unbound. Each name that was bound before the body
is bound behind the loop, in its place. And a name that is bound at some moment of the body is
bound behind the loop, unless it is a variable of this loop or of a loop in the body. -/
theorem stmt_foreach (w : Walk) (s : Scope) {span bodySpan : Span} {subject value : Expr}
    {key : Option Expr} {body : List Stmt} {lo hi : Nat}
    (placed : Placed lo hi [.stmt (.foreach span subject key value bodySpan body)])
    (apart : bodySpan.touches w.offset = false) :
    let before := w.expr s subject
    let after := w.stmt s (.foreach span subject key value bodySpan body)
    (∀ x ∈ targetsOf key value, after.locals.get? x = before.locals.get? x) ∧
    after.Extends before ∧
    (before.isClosed = false → ∀ m moment x,
      w.Comes m moment (iteration before subject key value) (body.map .stmt) →
      x ∈ (w.node moment m).names →
        x ∈ after.names ∨ x ∈ targetsOf key value ∨
        ∃ t ∈ body, ∃ subject key value inner,
          w.Reaches (.iteration subject key value inner) (.stmt t) ∧
            x ∈ targetsOf key value) := by
  intro before after
  have inner := placed_body placed
  have walk : after = if before.isClosed then before
      else w.iterate before subject key value bodySpan body := w.stmt_foreach_eq ..
  cases closed : before.isClosed with
  | true =>
    rw [walk, if_pos closed]
    exact ⟨fun _ _ => rfl, .refl before, nofun⟩
  | false =>
    rw [walk, if_neg (Bool.eq_false_iff.1 closed)]
    refine ⟨?_, extends_iterate inner apart closed, ?_⟩
    · intro x target
      rw [iterate_eq inner apart, Scope.get?_restore, if_pos target]
    · intro _ m moment x comes known
      exact comes.mem_names_iterate inner apart closed known

/-! ### A loop in a loop over the same variable -/

def innerLoop : Stmt :=
  .foreach ⟨27, 51⟩ (.var ⟨35, 37⟩ "v") none (.var ⟨41, 43⟩ "v") ⟨44, 51⟩
    [.block ⟨44, 51⟩ [.expression ⟨45, 50⟩
      (.assign ⟨45, 49⟩ "=" (.var ⟨45, 47⟩ "t") (.literal ⟨48, 49⟩ .integer))]]

def innerBlock : Stmt :=
  .block ⟨26, 58⟩ [innerLoop, .expression ⟨51, 57⟩
    (.assign ⟨51, 56⟩ "=" (.var ⟨51, 53⟩ "u") (.var ⟨54, 56⟩ "v"))]

def innerTarget : Expr :=
  .array ⟨18, 25⟩ [.value (.var ⟨19, 21⟩ "v"), .value (.var ⟨22, 24⟩ "w")]

/-- `foreach($a as $k=>[$v,$w]){foreach($v as $v){$t=1;}$u=$v;}` -/
def outerLoop : Stmt :=
  .foreach ⟨0, 58⟩ (.var ⟨8, 10⟩ "a") (some (.var ⟨14, 16⟩ "k")) innerTarget ⟨26, 58⟩ [innerBlock]

/-- In front of the loop `$a` and `$v` are bound. -/
def outerScope : Scope := { locals := ⟨[("a", .scalar "array"), ("v", .scalar "int")]⟩ }

theorem stmt_foreach_outerLoop : let w : Walk := ⟨⟨{}, {}⟩, 60⟩
    let after := w.stmt outerScope outerLoop
    Placed 0 58 [.stmt outerLoop] ∧ (⟨26, 58⟩ : Span).touches w.offset = false ∧
    (after.locals.get? "k" = none ∧ after.locals.get? "v" = some (.scalar "int")) ∧
    after.Extends outerScope ∧
    ("t" ∈ after.names ∨ "t" ∈ ["k", "v", "w"] ∨
      ∃ t ∈ [innerBlock], ∃ subject key value inner,
        w.Reaches (.iteration subject key value inner) (.stmt t) ∧ "t" ∈ targetsOf key value) ∧
    after.locals =
      ⟨[("a", .scalar "array"), ("v", .scalar "int"), ("t", .scalar "int"), ("u", .mixed)]⟩ := by
  intro w after
  have placed : Placed 0 58 [.stmt outerLoop] :=
    placed_of_end? (show Node.end? 20 0 _ = some 58 by decide)
  have apart : (⟨26, 58⟩ : Span).touches w.offset = false := by decide
  obtain ⟨given, kept, stays⟩ := stmt_foreach w outerScope placed apart
  refine ⟨placed, apart, ⟨?_, ?_⟩, kept, ?_, by decide⟩
  · exact given "k" (by decide)
  · exact given "v" (by decide)
  · exact stays rfl (.stmt innerBlock) _ "t" .here (by decide)

end Walk
end PhpSymbols
