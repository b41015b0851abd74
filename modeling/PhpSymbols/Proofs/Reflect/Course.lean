import PhpSymbols.Proofs.Reflect.Offset

/-!
# The course of a walk

* `Walk.Comes`: a walk through nodes comes to one of them, or to one that stands in them, in
  a scope that has not ended by then;
* `leave_ended`: a node in which a walk has ended is left as the walk ended;
* `Comes.nodes_eq`: so a walk that ends at what it comes to ends with just that;
* `Reaches.exists_comes`: a walk comes to the node at which a scope around the offset starts;
* `scopeAmong_closure`: in the body of a closure the scope is that of its captured variables,
  its parameters and its statements, whatever stands around the closure and behind it.
-/

namespace PhpSymbols
open Php

namespace Walk

/-- A walk through nodes that starts in a scope comes to the node `m` in the scope `moment`: it
enters the nodes around `m`, and goes on behind those in front of it. -/
inductive Comes (w : Walk) (m : Node) (moment : Scope) : Scope → List Node → Prop where
  | here {ns : List Node} : Comes w m moment moment (m :: ns)
  | inside {s : Scope} {n : Node} {ns : List Node} :
      Comes w m moment (w.enter s n) (w.view n).parts → Comes w m moment s (n :: ns)
  | behind {s : Scope} {n : Node} {ns : List Node} : (w.node s n).isClosed = false →
      Comes w m moment (w.node s n) ns → Comes w m moment s (n :: ns)

variable {w : Walk} {lo hi : Nat} {m : Node} {s moment : Scope} {ns : List Node}

theorem Comes.isOpen (h : w.Comes m moment s ns) (isOpen : s.isClosed = false) :
    moment.isClosed = false := by
  induction h with
  | here => exact isOpen
  | inside _ ih => exact ih ((isClosed_enter _ _).trans isOpen)
  | behind before _ ih => exact ih before

/-! ### Where a walk ends -/

/-- An assignment whose value has the end of the walk binds nothing, and a loop gives nothing
back whose body has it. -/
theorem leave_ended {n : Node} {after : Scope} (placed : Placed lo hi [n])
    (isOpen : s.isClosed = false) (walk : w.nodes (w.enter s n) (w.view n).parts = after)
    (closed : after.isClosed = true) : w.leave s after n = after := by
  by_cases plain : n.IsPlain
  · have close : after.close = after := by
      rw [Scope.close, ← closed]
    rw [leave_plain plain, close, ite_self]
  · cases n with
    | expr e =>
      cases e with
      | assign =>
        rw [leave, closed]
        rfl
      | _ => exact absurd trivial plain
    | iteration subject key value b =>
      have inner := (placed.own List.mem_cons_self rfl).parts
      have ended := (sound_of_placed inner _ (.refl _)).within (w.enter s _)
        ((isClosed_enter s _).trans isOpen) (walk ▸ closed)
      have touched : b.span.touches w.offset = true :=
        Span.touches_iff.2 ⟨ended.1, Nat.le_of_lt ended.2⟩
      rw [leave, if_pos touched]
      rfl
    | _ => exact absurd trivial plain

/-- A walk that ends at a node to which it comes ends with the scope that it has there. What
stands around the node and behind it has no part in that scope. The induction goes from the node
outwards: each node around it ends the walk in turn. -/
theorem Comes.nodes_eq (h : w.Comes m moment s ns) (placed : Placed lo hi ns)
    (isOpen : s.isClosed = false) (closed : (w.node moment m).isClosed = true) :
    w.nodes s ns = w.node moment m := by
  induction h generalizing lo hi with
  | @here ns =>
    obtain ⟨mid, head, rest⟩ := placed.of_cons
    exact nodes_of_closed head rest isOpen closed
  | @inside s n ns _ ih =>
    obtain ⟨mid, head, rest⟩ := placed.of_cons
    have parts := ih (placed_view head) ((isClosed_enter s n).trans isOpen)
    -- the parts end the walk, so leaving `n` changes nothing, and the walk ends at `n` as well
    have node : w.node s n = w.node moment m := by
      rw [node_eq head.parts isOpen, leave_ended head isOpen rfl (parts ▸ closed), parts]
    rw [nodes_of_closed head rest isOpen (node ▸ closed), node]
  | @behind s n ns before _ ih =>
    obtain ⟨mid, -, rest⟩ := placed.of_cons
    exact ih rest before

/-! ### Coming to a scope around the offset -/

/-- A walk does not end in front of a node in which a scope around the offset starts. -/
theorem exists_front {n : Node} (member : n ∈ ns) (placed : Placed lo hi ns)
    (entered : w.Enters n) (isOpen : s.isClosed = false) :
    ∃ front : Scope, front.isClosed = false ∧ ∃ rest, ∀ m moment,
      w.Comes m moment front (n :: rest) → w.Comes m moment s ns := by
  induction ns generalizing s lo with
  | nil => cases member
  | cons k ns ih =>
    obtain ⟨mid, head, rest⟩ := placed.of_cons
    cases member with
    | head => exact ⟨s, isOpen, ns, fun _ _ comes => comes⟩
    | tail _ member =>
      -- the offset is among the nodes behind `k`, so it is not in `k`
      have around := (sound_of_placed rest _ (.refl _)).enters fun passes => passes n member entered
      have apart : ¬ (lo ≤ w.offset ∧ w.offset < mid) := fun inside =>
        Nat.lt_irrefl _ (Nat.lt_of_lt_of_le inside.2 around.1)
      have before : (w.node s k).isClosed = false :=
        (sound_of_placed head _ (.refl _)).isClosed_nodes apart isOpen
      obtain ⟨front, front_open, behind, comes⟩ := ih member rest before
      exact ⟨front, front_open, behind, fun m moment there => .behind before (comes m moment there)⟩

theorem Reaches.exists_comes {n : Node} (h : w.Reaches m n) (member : n ∈ ns)
    (placed : Placed lo hi ns) (entered : w.Enters m) (isOpen : s.isClosed = false) :
    ∃ moment, w.Comes m moment s ns := by
  induction h generalizing s ns with
  | here =>
    obtain ⟨front, -, rest, comes⟩ := exists_front member placed entered isOpen
    exact ⟨front, comes _ _ .here⟩
  | @part n k part reached ih =>
    have around : w.Enters n := .part part (reached.enters entered)
    obtain ⟨front, front_open, rest, comes⟩ := exists_front member placed around isOpen
    have inner := ih part (placed_view (placed.of_mem member))
      (show (w.enter front n).isClosed = false from (isClosed_enter front n).trans front_open)
    obtain ⟨moment, there⟩ := inner
    exact ⟨moment, comes _ _ (.inside there)⟩

/-! ### Closures -/

/-- The scope at the offset in the body of a closure to which a walk comes in the scope
`before`: first what the closure captures, with the types that are known there, then the
parameters, and then what the statements of the body do. -/
def closureScope (w : Walk) (before : Scope) (ps : List Param) (captured : List String)
    (ss : List Stmt) : Scope :=
  let known := captured.map fun x => (x, (before.locals.get? x).getD .unknown)
  let outside : Scope := { before with locals := {} }
  w.stmts ((outside.bindAll known).bindParameters (w.reader.parameters none ps)) ss

theorem node_closure {span braces : Span} {ps : List Param} {captured : List String}
    {body : List Stmt} (inside : braces.insideBraces w.offset = true)
    (isOpen : s.isClosed = false) :
    w.node s (.expr (.closure span ps captured (.mk braces body))) =
      (w.closureScope s ps captured body).close := by
  rw [node, expr.eq_def, isOpen, if_neg Bool.false_ne_true]
  exact if_pos inside

theorem enters_closure {span braces : Span} {ps : List Param} {captured : List String}
    {body : List Stmt} (inside : braces.insideBraces w.offset = true) :
    w.Enters (.expr (.closure span ps captured (.mk braces body))) := by
  apply Enters.resets
  rw [view, viewExpr]
  exact congrArg View.resets (if_pos inside)

/-- A walk that comes to a closure around the offset ends with the scope of its body. -/
theorem Comes.nodes_closure {before : Scope} {span braces : Span} {ps : List Param}
    {captured : List String} {body : List Stmt}
    (h : w.Comes (.expr (.closure span ps captured (.mk braces body))) before s ns)
    (placed : Placed lo hi ns) (isOpen : s.isClosed = false)
    (inside : braces.insideBraces w.offset = true) :
    w.nodes s ns = (w.closureScope before ps captured body).close := by
  have here : w.node before (.expr (.closure span ps captured (.mk braces body))) =
      (w.closureScope before ps captured body).close := node_closure inside (h.isOpen isOpen)
  rw [h.nodes_eq placed isOpen (congrArg Scope.isClosed here), here]

/-- If the offset is in the body of a closure that a walk reaches, the walk comes to the closure
and ends with the scope of its body: all that the scope knows, the variables, their order and
types and the enclosing declaration, is what the captured variables, the parameters and the
statements of the closure make of the scope in which the walk comes to it. So it is for a walk
from any scope through any statements, and for the scope at the offset. -/
theorem scopeAmong_closure (w : Walk) {ss : List Stmt} {lo hi : Nat}
    (placed : Placed lo hi (ss.map .stmt)) {span braces : Span} {ps : List Param}
    {captured : List String} {body : List Stmt} (inside : braces.insideBraces w.offset = true) :
    let closure : Node := .expr (.closure span ps captured (.mk braces body))
    (∀ s : Scope, s.isClosed = false →
      (∀ t ∈ ss, w.Reaches closure (.stmt t) →
        ∃ before, w.Comes closure before s (ss.map .stmt)) ∧
      ∀ before, w.Comes closure before s (ss.map .stmt) →
        w.stmts s ss = (w.closureScope before ps captured body).close) ∧
    (∀ t ∈ w.around ss ss, w.Reaches closure (.stmt t) →
      ∃ before, w.Comes closure before (w.start none ss ss) ((w.around ss ss).map .stmt)) ∧
    ∀ before, w.Comes closure before (w.start none ss ss) ((w.around ss ss).map .stmt) →
      (w.scopeAmong none ss ss).close = (w.closureScope before ps captured body).close := by
  intro closure
  have split : ss = [] ++ ss := (List.nil_append ss).symm
  have around : Placed lo hi ((w.around ss ss).map .stmt) := placed_around split placed
  have entered : w.Enters closure := enters_closure inside
  refine ⟨fun s isOpen => ⟨?_, ?_⟩, ?_, ?_⟩
  · intro t member reached
    exact reached.exists_comes (List.mem_map_of_mem member) placed entered isOpen
  · intro before comes
    rw [stmts_eq placed]
    exact comes.nodes_closure placed isOpen inside
  · intro t member reached
    exact reached.exists_comes (List.mem_map_of_mem member) around entered rfl
  · intro before comes
    rw [scopeAmong_eq none split placed, comes.nodes_closure around rfl inside]
    rfl

/-! ### A closure in a loop -/

def capturingBody : List Stmt :=
  [.expression ⟨52, 57⟩ (.assign ⟨52, 56⟩ "=" (.var ⟨52, 54⟩ "q") (.literal ⟨55, 56⟩ .integer))]

def capturingParameters : List Param := [.mk [] none false false "$p" none false]

def capturing : Expr :=
  .closure ⟨29, 58⟩ capturingParameters ["a", "z"] (.mk ⟨51, 58⟩ capturingBody)

def attempt : Stmt :=
  .tryCatch ⟨5, 81⟩
    [.foreach ⟨9, 67⟩ (.var ⟨17, 19⟩ "a") none (.var ⟨23, 25⟩ "k") ⟨26, 67⟩
      [.block ⟨26, 67⟩ [.expression ⟨27, 66⟩ (.call ⟨27, 65⟩ (.name ⟨27, 28⟩ "f") [capturing,
        .assign ⟨59, 64⟩ "=" (.var ⟨59, 61⟩ "a") (.literal ⟨62, 64⟩ .string)])]]]
    [.mk ⟨68, 81⟩ ⟨74, 75⟩ (some "e") []] none

/-- `$a=1;try{foreach($a as $k){f(function($p)use($a,$z){$q=1;},$a='');}}catch(E $e){}$b=2;` -/
def attempted : List Stmt := [
  .expression ⟨0, 5⟩ (.assign ⟨0, 4⟩ "=" (.var ⟨0, 2⟩ "a") (.literal ⟨3, 4⟩ .integer)),
  attempt,
  .expression ⟨81, 86⟩ (.assign ⟨81, 85⟩ "=" (.var ⟨81, 83⟩ "b") (.literal ⟨84, 85⟩ .integer))]

theorem placed_attempted : Placed 0 86 (attempted.map .stmt) :=
  placed_of_end? (show Node.end? 20 0 _ = some 86 by decide)

/-- Behind the assignment in the closure neither what its other argument assigns nor the target
of the loop, what is caught or a later assignment is in scope. -/
theorem scopeAmong_closure_attempted : let w : Walk := ⟨⟨{}, {}⟩, 57⟩
    Placed 0 86 (attempted.map .stmt) ∧ (⟨51, 58⟩ : Span).insideBraces w.offset = true ∧
    (∃ before, w.Comes (.expr capturing) before {} (attempted.map .stmt) ∧
      w.stmts {} attempted =
        (w.closureScope before capturingParameters ["a", "z"] capturingBody).close) ∧
    (∃ before, w.Comes (.expr capturing) before (w.start none attempted attempted)
        ((w.around attempted attempted).map .stmt) ∧
      (w.scopeAmong none attempted attempted).close =
        (w.closureScope before capturingParameters ["a", "z"] capturingBody).close) ∧
    (w.scopeAmong none attempted attempted).locals =
      ⟨[("a", .scalar "int"), ("z", .unknown), ("p", .unknown), ("q", .scalar "int")]⟩ := by
  intro w
  have inside : (⟨51, 58⟩ : Span).insideBraces w.offset = true := by decide
  have around : w.around attempted attempted = attempted := by
    simp [attempted, attempt, Walk.around]
  have reached : w.Reaches (.expr capturing) (.stmt attempt) := by
    -- from the attempt to the loop, its body, the block, the call and its argument
    refine .part List.mem_cons_self (.part (List.mem_cons_of_mem _ List.mem_cons_self) ?_)
    refine .part List.mem_cons_self (.part List.mem_cons_self (.part List.mem_cons_self ?_))
    refine .part List.mem_cons_self (.part ?_ .here)
    exact List.mem_cons_of_mem _ List.mem_cons_self
  have part : attempt ∈ attempted := List.mem_cons_of_mem _ List.mem_cons_self
  obtain ⟨walks, comes, scope⟩ := @scopeAmong_closure w attempted 0 86 placed_attempted
    ⟨29, 58⟩ ⟨51, 58⟩ capturingParameters ["a", "z"] capturingBody inside
  obtain ⟨first, first_there⟩ := (walks {} rfl).1 attempt part reached
  obtain ⟨before, there⟩ := comes attempt (around.symm ▸ part) reached
  refine ⟨placed_attempted, inside, ⟨first, first_there, (walks {} rfl).2 first first_there⟩,
    ⟨before, there, scope before there⟩, ?_⟩
  have scan : w.scopeAmong none attempted attempted =
      w.stmts { imports := .of none attempted } attempted := by
    simp [attempted, attempt, Walk.scopeAmong]
  rw [scan]
  decide

end Walk
end PhpSymbols
