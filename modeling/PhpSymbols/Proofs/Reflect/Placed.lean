import PhpSymbols.Proofs.Reflect.Binding

/-!
# Nodes and their places

A walk treats expressions, statements and the clauses between them alike: as nodes,
with the parts that it may go through.

* `Node.parts`, `Node.Within`: those parts, in source order, and what stands in a node at
  any depth;
* `Placed`: nodes in source order whose parts lie inside them, likewise in order;
* `Node.end?`, `placed_of_end?`: a check that nodes are in their places.
-/

namespace PhpSymbols
open Php

namespace Php

theorem Span.encloses_iff {s : Span} {offset : Nat} :
    s.encloses offset = true ↔ s.start ≤ offset ∧ offset < s.stop := by simp [encloses]

theorem Span.insideBraces_iff {s : Span} {offset : Nat} :
    s.insideBraces offset = true ↔ s.start + 1 ≤ offset ∧ offset + 1 ≤ s.stop := by
  simp [insideBraces]

theorem Span.touches_iff {s : Span} {offset : Nat} :
    s.touches offset = true ↔ s.start ≤ offset ∧ offset ≤ s.stop := by simp [touches]

def Body.span : Body → Span
  | .mk span _ => span

def Ensure.span : Ensure → Span
  | .mk span _ => span

def FunctionDecl.body : FunctionDecl → Body
  | .mk _ _ _ _ body => body

def Member.body? : Member → Option Body
  | .method _ _ _ _ _ body => body
  | .property .. | .hookedProperty .. | .constant .. | .enumCase .. | .traitUse .. => none

/-- The bodies of a class-like's methods. -/
def ClassDecl.bodies : ClassDecl → List Body
  | .mk _ _ _ _ _ _ _ members => members.filterMap Member.body?

end Php

inductive Node where
  | expr (e : Expr)
  | element (e : Element)
  | stmt (t : Stmt)
  /-- The targets of a loop over `subject`, and its body. -/
  | iteration (subject : Expr) (key : Option Expr) (value : Expr) (body : Body)
  | elseIf (e : ElseIf)
  | catch_ (c : Catch)
  | ensure (e : Ensure)
  | case_ (c : Case)
  | body (b : Body)

namespace Node

/-- The bytes of a node, for those that the tree keeps; a loop over targets has those of
its body. -/
def span? : Node → Option Span
  | .expr e => some e.span
  | .stmt t => some t.span
  | .catch_ c => some c.span
  | .ensure e => some e.span
  | .iteration _ _ _ b | .body b => some b.span
  | .element _ | .elseIf _ | .case_ _ => none

def ofExpr : Expr → List Node
  | .assign _ _ _ value => [.expr value]
  | .paren _ inner => [.expr inner]
  | .closure _ _ _ b => [.body b]
  | .arrow _ _ value => [.expr value]
  | .call _ target args => .expr target :: args.map .expr
  | .new _ _ args => args.map .expr
  | .array _ es | .longArray _ es => es.map .element
  | .binary _ left right => [.expr left, .expr right]
  | .conditional _ c yes no => .expr c :: (yes.toList.map .expr ++ [.expr no])
  | .unary _ operand => [.expr operand]
  | .throw _ exception => [.expr exception]
  | .var .. | .name .. | .classWord .. | .literal .. | .template _ | .listing ..
  | .anonymousClass .. | .construct .. => []

def ofElement : Element → List Node
  | .pair key value => [.expr key, .expr value]
  | .value value | .spread value => [.expr value]
  | .missing => []

def ofStmt : Stmt → List Node
  | .expression _ e => [.expr e]
  | .block _ ss => ss.map .stmt
  | .ifElse _ c ss elseIfs otherwise =>
    .expr c :: (ss.map .stmt ++ (elseIfs.map .elseIf ++ otherwise.map .stmt))
  | .foreach _ subject key value bodySpan ss =>
    [.expr subject, .iteration subject key value (.mk bodySpan ss)]
  | .forLoop _ inits _ _ ss => inits.map .expr ++ ss.map .stmt
  | .whileLoop _ _ ss | .doWhile _ ss _ => ss.map .stmt
  | .tryCatch _ ss catches last =>
    ss.map .stmt ++ (catches.map .catch_ ++ last.toList.map .ensure)
  | .ret _ value => value.toList.map .expr
  | .echo _ values => values.map .expr
  | .switch _ subject cases => .expr subject :: cases.map .case_
  | .classLike d => d.bodies.map .body
  | .function d => [.body d.body]
  | .ns _ _ ss => ss.map .stmt
  | .markup _ | .global .. | .staticVars .. | .declare .. | .use .. | .other .. => []

/-- The parts of a node that a walk may go through, in source order. -/
def parts : Node → List Node
  | .expr e => ofExpr e
  | .element e => ofElement e
  | .stmt t => ofStmt t
  | .iteration _ _ _ b => [.body b]
  | .elseIf (.mk c ss) => .expr c :: ss.map .stmt
  | .catch_ (.mk _ _ _ ss) => ss.map .stmt
  | .ensure (.mk _ ss) => ss.map .stmt
  | .case_ (.mk _ ss) => ss.map .stmt
  | .body (.mk _ ss) => ss.map .stmt

end Node

/-- The nodes stand between two places in this order, each with its parts placed inside it. -/
inductive Placed : Nat → Nat → List Node → Prop where
  | nil {lo hi : Nat} : lo ≤ hi → Placed lo hi []
  | spanned {lo hi : Nat} {n : Node} {ns : List Node} {span : Span} : n.span? = some span →
      lo ≤ span.start → Placed span.start span.stop n.parts → Placed span.stop hi ns →
      Placed lo hi (n :: ns)
  | bare {lo mid hi : Nat} {n : Node} {ns : List Node} : n.span? = none →
      Placed lo mid n.parts → Placed mid hi ns → Placed lo hi (n :: ns)

namespace Placed

theorem le {lo hi : Nat} {ns : List Node} (h : Placed lo hi ns) : lo ≤ hi := by
  induction h with
  | nil le => exact le
  | spanned _ start _ _ inside rest => omega
  | bare _ _ _ inside rest => omega

theorem of_append {lo hi : Nat} {ms ns : List Node} (h : Placed lo hi (ms ++ ns)) :
    ∃ mid, Placed lo mid ms ∧ Placed mid hi ns := by
  induction ms generalizing lo with
  | nil => exact ⟨lo, .nil (Nat.le_refl lo), h⟩
  | cons m ms ih =>
    cases h with
    | spanned span start inside rest =>
      obtain ⟨mid, hm, hn⟩ := ih rest
      exact ⟨mid, .spanned span start inside hm, hn⟩
    | bare span inside rest =>
      obtain ⟨mid, hm, hn⟩ := ih rest
      exact ⟨mid, .bare span inside hm, hn⟩

theorem of_cons {lo hi : Nat} {n : Node} {ns : List Node} (h : Placed lo hi (n :: ns)) :
    ∃ mid, Placed lo mid [n] ∧ Placed mid hi ns :=
  of_append (show Placed lo hi ([n] ++ ns) from h)

theorem weaken {lo lo' hi hi' : Nat} {ns : List Node} (h : Placed lo hi ns) (start : lo' ≤ lo)
    (stop : hi ≤ hi') : Placed lo' hi' ns := by
  induction h generalizing lo' hi' with
  | nil le => exact .nil (Nat.le_trans start (Nat.le_trans le stop))
  | spanned span lower inside rest _ ih =>
    exact .spanned span (Nat.le_trans start lower) inside (ih (Nat.le_refl _) stop)
  | bare span inside rest ih_inside ih_rest =>
    exact .bare span (ih_inside start (Nat.le_refl _)) (ih_rest (Nat.le_refl _) stop)

theorem sublist {lo hi : Nat} {ms ns : List Node} (h : Placed lo hi ns) (sub : ms.Sublist ns) :
    Placed lo hi ms := by
  induction h generalizing ms with
  | nil le =>
    obtain rfl := List.sublist_nil.1 sub
    exact .nil le
  | spanned span start inside rest _ ih =>
    cases sub with
    | cons _ sub =>
      have le := inside.le
      exact (ih sub).weaken (by omega) (Nat.le_refl _)
    | cons_cons _ sub => exact .spanned span start inside (ih sub)
  | bare span inside rest _ ih =>
    cases sub with
    | cons _ sub => exact (ih sub).weaken inside.le (Nat.le_refl _)
    | cons_cons _ sub => exact .bare span inside (ih sub)

theorem of_mem {lo hi : Nat} {n : Node} {ns : List Node} (h : Placed lo hi ns) (member : n ∈ ns) :
    Placed lo hi [n] := h.sublist (List.singleton_sublist.2 member)

theorem span_le {lo hi : Nat} {n : Node} {ns : List Node} {span : Span} (h : Placed lo hi ns)
    (member : n ∈ ns) (same : n.span? = some span) :
    lo ≤ span.start ∧ span.start ≤ span.stop ∧ span.stop ≤ hi := by
  cases h.of_mem member with
  | bare other => cases other.symm.trans same
  | spanned other start inside rest =>
    obtain rfl := Option.some.inj (other.symm.trans same)
    exact ⟨start, inside.le, rest.le⟩

theorem start_le {lo hi : Nat} {n : Node} {ns : List Node} {span : Span} (h : Placed lo hi ns)
    (member : n ∈ ns) (same : n.span? = some span) : lo ≤ span.start := (h.span_le member same).1

/-- A node stands in its own bytes. -/
theorem own {lo hi : Nat} {n : Node} {ns : List Node} {span : Span} (h : Placed lo hi ns)
    (member : n ∈ ns) (same : n.span? = some span) : Placed span.start span.stop [n] := by
  cases h.of_mem member with
  | bare other => cases other.symm.trans same
  | spanned other start inside rest =>
    obtain rfl := Option.some.inj (other.symm.trans same)
    exact .spanned same (Nat.le_refl _) inside (.nil (Nat.le_refl _))

/-- The parts of a node stand inside it. -/
theorem parts {lo hi : Nat} {n : Node} (h : Placed lo hi [n]) : Placed lo hi n.parts := by
  cases h with
  | spanned span start inside rest => exact inside.weaken start rest.le
  | bare span inside rest => exact inside.weaken (Nat.le_refl _) rest.le

end Placed

/-- The node `m` stands in a node, at any depth. -/
inductive Node.Within (m : Node) : Node → Prop where
  | here : Within m m
  | part {n k : Node} : k ∈ n.parts → Within m k → Within m n

theorem Node.Within.placed {lo hi : Nat} {m n : Node} (h : Within m n) (placed : Placed lo hi [n]) :
    Placed lo hi [m] := by
  induction h with
  | here => exact placed
  | part member _ ih => exact ih (placed.parts.of_mem member)

/-- Where nodes end that start behind `lo`, if they are in their places. The fuel bounds how
many stand in one another and next to each other. -/
def Node.end? : (fuel lo : Nat) → List Node → Option Nat
  | _, lo, [] => some lo
  | 0, _, _ :: _ => none
  | fuel + 1, lo, n :: ns =>
    match n.span? with
    | some span =>
      (end? fuel span.start n.parts).bind fun stop =>
        if lo ≤ span.start ∧ stop ≤ span.stop then end? fuel span.stop ns else none
    | none => (end? fuel lo n.parts).bind fun stop => end? fuel stop ns

theorem placed_of_end? {fuel lo hi : Nat} {ns : List Node} (h : Node.end? fuel lo ns = some hi) :
    Placed lo hi ns := by
  induction fuel generalizing lo hi ns with
  | zero =>
    cases ns with
    | nil =>
      obtain rfl := Option.some.inj h
      exact .nil (Nat.le_refl _)
    | cons => cases h
  | succ fuel ih =>
    cases ns with
    | nil =>
      obtain rfl := Option.some.inj h
      exact .nil (Nat.le_refl _)
    | cons n ns =>
      rw [Node.end?] at h
      split at h
      · rename_i span same
        obtain ⟨stop, inside, rest⟩ := Option.bind_eq_some_iff.1 h
        split at rest
        · rename_i bounds
          exact .spanned same bounds.1 ((ih inside).weaken (Nat.le_refl _) bounds.2) (ih rest)
        · cases rest
      · rename_i same
        obtain ⟨stop, inside, rest⟩ := Option.bind_eq_some_iff.1 h
        exact .bare same (ih inside) (ih rest)

end PhpSymbols
