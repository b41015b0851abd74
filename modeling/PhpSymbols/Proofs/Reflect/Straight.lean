import PhpSymbols.Proofs.Php.Evaluation
import PhpSymbols.Proofs.Reflect.Resolution
import PhpSymbols.Proofs.Ty.RoundTrip

/-!
# Types in straight-line code

* `Expr.isStraight`: literals, variables, arrays, new instances, closures and assignments to
  variables, in one another;
* `expr_ahead`: a walk does nothing at an expression in front of which its offset is;
* `expr_follows`: behind an expression the scope has the variables that evaluation assigns, and
  the type that the expression has in this scope is that of its value;
* `locals_straight`: so at the end of a statement the variables are those that are assigned so
  far, each with the type of what it holds.
-/

namespace PhpSymbols
open Php

/-! ### Straight-line code -/

namespace Php

mutual

/-- Whether an expression is made of literals, variables, arrays, instances of named classes
without arguments, closures, parentheses and plain assignments to variables alone, and `leaf`
holds of each literal and each instance in it. An assignment covers some bytes. -/
def Expr.isStraight (leaf : Expr → Bool) : Expr → Bool
  | .var .. | .closure .. => true
  | .literal span kind => leaf (.literal span kind)
  | .new span (.name place written) [] => leaf (.new span (.name place written) [])
  | .array _ es | .longArray _ es => Element.areStraight leaf es
  | .paren _ inner => inner.isStraight leaf
  | .assign span operator (.var _ _) value =>
    operator == "=" && decide (span.start < span.stop) && value.isStraight leaf
  | _ => false

def Element.areStraight (leaf : Expr → Bool) : List Element → Bool
  | [] => true
  | e :: es => e.isStraight leaf && Element.areStraight leaf es

def Element.isStraight (leaf : Expr → Bool) : Element → Bool
  | .pair key value => key.isStraight leaf && value.isStraight leaf
  | .value value | .spread value => value.isStraight leaf
  | .missing => false

end

/-- Whether a statement is such an expression. A tag does nothing. -/
def Stmt.isStraight (leaf : Expr → Bool) : Stmt → Bool
  | .markup _ => true
  | .expression _ e => e.isStraight leaf
  | _ => false

/-- The values of the literals of a source. -/
def Reading.literal (r : Reading) (span : Span) (kind : LiteralKind) : Value :=
  literalValue (r.textAt span) kind

/-- Whether a literal has a value of the kind that it looks like, and a class is not named as one
of the current namespace. -/
def Expr.isOrdinary (literal : Span → LiteralKind → Value) : Expr → Bool
  | .literal span kind => decide (literal span kind = kind.value)
  | .new _ (.name _ written) _ => !isRelativeName written
  | _ => true

end Php

/-! ### Scopes that follow an evaluation -/

/-- The scope has the variables of a log in the order of their first assignments, each with the
type of what it holds. Nothing is imported in it. -/
structure Scope.Follows (s : Scope) (log : Log) : Prop where
  isOpen : s.isClosed = false
  imports : s.imports = {}
  names : s.names = log.assigned
  types : ∀ x, s.locals.get? x = (log.held x).map Value.ty

namespace Scope

theorem follows_nil {s : Scope} (isOpen : s.isClosed = false) (imports : s.imports = {})
    (blank : s.locals = {}) : s.Follows [] where
  isOpen := isOpen
  imports := imports
  names := by rw [names, blank]; rfl
  types x := by rw [blank]; rfl

/-- An assignment is followed by binding the variable to the type of the value. -/
theorem Follows.bind {s : Scope} {log : Log} (h : s.Follows log) (x : String) (v : Value) :
    (s.bind x v.ty).Follows (log ++ [(x, v)]) where
  isOpen := h.isOpen
  imports := h.imports
  names := by
    rw [log.assigned_concat, ← h.names]
    exact s.locals.names_bind x v.ty
  types y := by
    rw [Scope.bind, Bindings.get?_bind, log.held_concat, h.types y]
    split <;> rfl

/-- Without imports and outside of a namespace a name stands for itself. -/
theorem resolveClass_plain {written : String} (incomplete : written.toList.head? ≠ some '\\') :
    ({} : Imports).resolveClass written = written := by
  rw [Imports.resolveClass]
  split
  · rename_i complete
    rw [complete] at incomplete
    exact absurd rfl incomplete
  · rfl

/-- A class has the name that the code gives it, whether or not this is complete. -/
theorem newTy_name {s : Scope} (imports : s.imports = {}) (span : Span) {written : String}
    (ordinary : isRelativeName written = false) :
    s.newTy (.name span written) = .classRef (globalClass written) := by
  have named : globalClass written = String.ofList (Imports.path written) := by
    rw [globalClass, ordinary]
    rfl
  rw [newTy, named]
  split
  · rfl
  · rename_i incomplete
    have first : written.toList.head? ≠ some '\\' := fun led =>
      incomplete _ (List.head?_eq_some_iff.1 led).choose_spec
    have whole : Imports.path written = written.toList := by
      rw [Imports.path]
      cases chars : written.toList with
      | nil => rfl
      | cons c cs =>
        rw [chars] at first
        exact List.dropWhile_cons_of_neg (by simpa using first)
    rw [imports, resolveClass_plain first, Resolver.ofClass_complete first, whole,
      String.ofList_toList]

end Scope

namespace Walk
variable {w : Walk} {literal : Span → LiteralKind → Value} {lo hi : Nat}

/-! ### Expressions behind the offset -/

/-- A closure that the offset is not in does nothing. -/
theorem expr_closure {s : Scope} {span : Span} {ps : List Param} {captured : List String} {b : Body}
    (placed : Placed lo hi [.expr (.closure span ps captured b)])
    (apart : w.offset ≤ lo ∨ hi ≤ w.offset) : w.expr s (.closure span ps captured b) = s := by
  obtain ⟨braces, ss⟩ := b
  have place := placed.parts.span_le List.mem_cons_self rfl
  have outside : ¬ braces.insideBraces w.offset = true := by
    rw [Span.insideBraces_iff]
    simp only [Body.span] at place
    omega
  rw [expr, if_neg outside]
  exact ite_self s

mutual

/-- No assignment of an expression ends in front of it, so a walk whose offset is there does
nothing. -/
theorem expr_ahead {s : Scope} {leaf : Expr → Bool} : (e : Expr) → {lo hi : Nat} →
    e.isStraight leaf = true → Placed lo hi [.expr e] → w.offset ≤ lo → w.expr s e = s
  -- No other expression is straight-line code.
  | .var .., _, _, _, _, _ | .literal .., _, _, _, _, _ => by
    rw [expr.eq_def]
    exact ite_self s
  | .new _ (.name ..) [], _, _, _, _, _ => by
    rw [expr.eq_def]
    simp only [exprs.eq_def, ite_self]
  | .closure .., _, _, _, placed, ahead => expr_closure placed (.inl ahead)
  | .array _ es, _, _, straight, placed, ahead
  | .longArray _ es, _, _, straight, placed, ahead => by
    rw [expr, elements_ahead es straight placed.parts ahead]
    exact ite_self s
  | .paren _ inner, _, _, straight, placed, ahead => by
    rw [expr, expr_ahead inner straight placed.parts ahead]
    exact ite_self s
  | .assign span operator (.var _ x) value, _, _, straight, placed, ahead => by
    have start := placed.start_le List.mem_cons_self rfl
    simp only [Expr.isStraight, Bool.and_eq_true, decide_eq_true_eq] at straight
    have open_ : w.offset < span.stop := by
      simp only [Expr.span] at start
      omega
    rw [expr, expr_ahead value straight.2 placed.parts ahead]
    simp [open_]

theorem elements_ahead {s : Scope} {leaf : Expr → Bool} : (es : List Element) → {lo hi : Nat} →
    Element.areStraight leaf es = true → Placed lo hi (es.map .element) → w.offset ≤ lo →
    w.elements s es = s
  | [], _, _, _, _, _ => by rw [elements]
  | e :: es, _, _, straight, placed, ahead => by
    obtain ⟨mid, first, others⟩ := placed.of_cons
    have := first.le
    simp only [Element.areStraight, Bool.and_eq_true] at straight
    rw [elements, element_ahead e straight.1 first ahead,
      elements_ahead es straight.2 others (by omega)]

theorem element_ahead {s : Scope} {leaf : Expr → Bool} : (e : Element) → {lo hi : Nat} →
    e.isStraight leaf = true → Placed lo hi [.element e] → w.offset ≤ lo → w.element s e = s
  | .pair key value, _, _, straight, placed, ahead => by
    obtain ⟨mid, first, second⟩ := placed.parts.of_cons
    have := first.le
    simp only [Element.isStraight, Bool.and_eq_true] at straight
    rw [element, expr_ahead key straight.1 first ahead,
      expr_ahead value straight.2 second (by omega)]
  | .value value, _, _, straight, placed, ahead | .spread value, _, _, straight, placed, ahead => by
    rw [element]
    exact expr_ahead value straight placed.parts ahead

end

/-! ### Expressions in front of the offset -/

section
variable (literal)

mutual

/-- Behind an expression the scope follows its evaluation, and there the expression has the type
of its value: the assignments in it are recorded before its own type is read. -/
theorem expr_follows {s : Scope} {log : Log} : (e : Expr) → {lo hi : Nat} →
    e.isStraight (Expr.isOrdinary literal) = true → Placed lo hi [.expr e] → hi ≤ w.offset →
    s.Follows log → (w.expr s e).Follows (e.eval literal log).2 ∧
      (w.expr s e).valueTy e = (e.eval literal log).1.ty
  | .literal span kind, _, _, straight, _, _, follows => by
    have same : literal span kind = kind.value := of_decide_eq_true straight
    rw [expr.eq_def, Expr.eval, same]
    simp only [ite_self]
    refine ⟨follows, ?_⟩
    cases kind <;> rfl
  | .var _ x, _, _, _, _, _, follows => by
    rw [expr.eq_def, Expr.eval]
    simp only [ite_self]
    refine ⟨follows, ?_⟩
    simp only [Scope.valueTy, Expr.valueTy, follows.types x]
    cases log.held x <;> rfl
  | .new _ (.name place written) [], _, _, straight, _, _, follows => by
    have ordinary : isRelativeName written = false := by
      simpa [Expr.isStraight, Expr.isOrdinary] using straight
    rw [expr.eq_def, Expr.eval]
    simp only [exprs.eq_def, ite_self]
    exact ⟨follows, Scope.newTy_name follows.imports place ordinary⟩
  | .closure .., _, _, _, placed, behind, follows => by
    rw [expr_closure placed (.inr behind), Expr.eval]
    exact ⟨follows, rfl⟩
  | .array _ es, _, _, straight, placed, behind, follows
  | .longArray _ es, _, _, straight, placed, behind, follows => by
    rw [expr, if_neg (Bool.eq_false_iff.1 follows.isOpen), Expr.eval]
    exact ⟨elements_follow es straight placed.parts behind follows, rfl⟩
  | .paren _ inner, _, _, straight, placed, behind, follows => by
    rw [expr, if_neg (Bool.eq_false_iff.1 follows.isOpen), Expr.eval]
    exact expr_follows inner straight placed.parts behind follows
  | .assign span operator (.var _ x) value, _, _, straight, placed, behind, follows => by
    simp only [Expr.isStraight, Bool.and_eq_true] at straight
    obtain ⟨before, type⟩ := expr_follows value straight.2 placed.parts behind follows
    have place := placed.span_le List.mem_cons_self rfl
    have ended : ¬ ((w.expr s value).isClosed || w.offset < span.stop) = true := by
      simp only [Expr.span] at place
      simp [before.isOpen]
      omega
    rw [expr, if_neg (Bool.eq_false_iff.1 follows.isOpen)]
    simp only [if_neg ended, Scope.bindTarget, Expr.eval]
    refine ⟨?_, ?_⟩
    · rw [type]
      exact before.bind x _
    · rw [← type]
      exact (w.expr s value).valueTy_bind x value

theorem elements_follow {s : Scope} {log : Log} : (es : List Element) → {lo hi : Nat} →
    Element.areStraight (Expr.isOrdinary literal) es = true → Placed lo hi (es.map .element) →
    hi ≤ w.offset → s.Follows log → (w.elements s es).Follows (Element.evalAll literal log es)
  | [], _, _, _, _, _, follows => by
    rw [elements, Element.evalAll]
    exact follows
  | e :: es, _, _, straight, placed, behind, follows => by
    obtain ⟨mid, first, others⟩ := placed.of_cons
    have := others.le
    simp only [Element.areStraight, Bool.and_eq_true] at straight
    rw [elements, Element.evalAll]
    apply elements_follow es straight.2 others behind
    exact element_follows e straight.1 first (by omega) follows

theorem element_follows {s : Scope} {log : Log} : (e : Element) → {lo hi : Nat} →
    e.isStraight (Expr.isOrdinary literal) = true → Placed lo hi [.element e] → hi ≤ w.offset →
    s.Follows log → (w.element s e).Follows (e.eval literal log)
  | .pair key value, _, _, straight, placed, behind, follows => by
    obtain ⟨mid, first, second⟩ := placed.parts.of_cons
    have := second.le
    simp only [Element.isStraight, Bool.and_eq_true] at straight
    rw [element, Element.eval]
    have middle := (expr_follows key straight.1 first (by omega) follows).1
    exact (expr_follows value straight.2 second behind middle).1
  | .value value, _, _, straight, placed, behind, follows
  | .spread value, _, _, straight, placed, behind, follows => by
    rw [element, Element.eval]
    exact (expr_follows value straight placed.parts behind follows).1

end

end

/-! ### Statements -/

/-- Statements that the offset is in front of, if only just, are not walked or change nothing. -/
theorem stmts_ahead {s : Scope} {leaf : Expr → Bool} {ss : List Stmt}
    (straight : ∀ t ∈ ss, t.isStraight leaf = true) (placed : Placed lo hi (ss.map .stmt))
    (ahead : ∀ t ∈ ss, w.offset ≤ t.span.start) : w.stmts s ss = s := by
  induction ss generalizing lo with
  | nil => rw [stmts]
  | cons t ss ih =>
    obtain ⟨first, others⟩ := List.forall_mem_cons.1 straight
    obtain ⟨front, ahead⟩ := List.forall_mem_cons.1 ahead
    obtain ⟨mid, -, rest⟩ := placed.of_cons
    have place := placed.own List.mem_cons_self rfl
    have still : w.stmt s t = s := by
      cases t with
      | expression span e =>
        rw [stmt]
        exact expr_ahead e first place.parts front
      | markup => rw [stmt.eq_def]
      | _ => cases first
    rw [stmts, still, ih others rest ahead]
    exact ite_self s

/-- Behind one statement the scope follows its evaluation. -/
theorem stmt_follows {s : Scope} {log : Log} {t : Stmt}
    (straight : t.isStraight (Expr.isOrdinary literal) = true) (placed : Placed lo hi [.stmt t])
    (behind : hi ≤ w.offset) (follows : s.Follows log) :
    (w.stmt s t).Follows (t.eval literal log) := by
  cases t with
  | expression span e =>
    rw [stmt, Stmt.eval]
    exact (expr_follows literal e straight placed.parts behind follows).1
  | markup =>
    rw [stmt.eq_def, Stmt.eval.eq_def]
    exact follows
  | _ => cases straight

/-- Behind the statements in front of the offset the scope follows their evaluation, whatever
straight-line code comes then. -/
theorem stmts_follow {done rest : List Stmt}
    (straight : ∀ t ∈ done ++ rest, t.isStraight (Expr.isOrdinary literal) = true)
    (placed : Placed lo hi ((done ++ rest).map .stmt))
    (behind : ∀ t ∈ done, t.span.stop ≤ w.offset) (ahead : ∀ t ∈ rest, w.offset ≤ t.span.start)
    {s : Scope} {log : Log} (follows : s.Follows log) :
    (w.stmts s (done ++ rest)).Follows (done.foldl (Stmt.eval literal) log) := by
  induction done generalizing s log lo with
  | nil =>
    have still : w.stmts s ([] ++ rest) = s := stmts_ahead straight placed ahead
    rw [still]
    exact follows
  | cons t done ih =>
    obtain ⟨ended, behind⟩ := List.forall_mem_cons.1 behind
    obtain ⟨first, others⟩ := List.forall_mem_cons.1 straight
    have place := placed.own List.mem_cons_self rfl
    have later : ¬ (s.isClosed || w.offset < t.span.start) = true := by
      have := place.le
      simp [follows.isOpen]
      omega
    obtain ⟨mid, -, rest_placed⟩ := placed.of_cons
    rw [List.cons_append, stmts, if_neg later]
    exact ih others rest_placed behind (stmt_follows first place ended follows)

/-- In straight-line code no declaration is around the offset. -/
theorem scopeAmong_straight {leaf : Expr → Bool} {all rest : List Stmt}
    (straight : ∀ t ∈ rest, t.isStraight leaf = true) :
    w.scopeAmong none all rest = w.stmts { imports := .of none all } all := by
  induction rest with
  | nil => rw [scopeAmong]
  | cons t rest ih =>
    obtain ⟨first, others⟩ := List.forall_mem_cons.1 straight
    cases t with
    | expression | markup =>
      rw [scopeAmong.eq_def]
      exact ih others
    | _ => cases first

theorem imports_straight {leaf : Expr → Bool} {ss : List Stmt}
    (straight : ∀ t ∈ ss, t.isStraight leaf = true) : Imports.of none ss = {} := by
  refine congrArg (Imports.mk none) (List.flatMap_eq_nil_iff.2 fun t member => ?_)
  have here := straight t member
  cases t with
  | use => cases here
  | _ => rfl

end Walk

namespace Reflector
open ReflectorBy

/-- In straight-line code the variables known behind some of its statements, up to the start of
the next, are those that these assign, in the order of their first assignments, each with the
type of the value that it holds. Literals may have any values of their kinds: whether an integer
fits a machine word is not looked at. -/
theorem locals_straight [Frontend] [Walker] (r : Reflector) (session : Session) (source : String)
    (offset : Nat) {lo hi : Nat} (place : Text.isOffset offset source.toList = true)
    (placed : Placed lo hi ((Reading.of source).program.statements.map .stmt))
    (literal : Span → LiteralKind → Value) {done rest : List Stmt}
    (split : (Reading.of source).program.statements = done ++ rest)
    (straight : ∀ t ∈ done ++ rest, t.isStraight (Expr.isOrdinary literal) = true)
    (behind : ∀ t ∈ done, t.span.stop ≤ (Reading.of source).shifted offset)
    (ahead : ∀ t ∈ rest, (Reading.of source).shifted offset ≤ t.span.start) :
    ∃ found, ((r.resolutionAt source offset).run session).1 = .ok found ∧
      found.locals.names = (Stmt.run literal done).assigned ∧
      ∀ x, found.locals.get? x = ((Stmt.run literal done).held x).map Value.ty := by
  rw [split] at placed
  have scope : (Scope.at r.resolver source offset).Follows (Stmt.run literal done) := by
    rw [Scope.at, split, Walk.scopeAmong_straight straight, Walk.imports_straight straight]
    exact Walk.stmts_follow straight placed behind ahead (Scope.follows_nil rfl rfl rfl)
  exact ⟨_, r.run_resolutionAt session source place, scope.names, scope.types⟩

/-! ### A chain of assignments -/

def chained : String := "<?php $a=$b=[$c=1,'k'=>$c='x'];$c=$d;$b=new \\A;"

/-- `$a=$b=[$c=1,'k'=>$c='x'];` and `$c=$d;` -/
def chainedDone : List Stmt := [
  .markup ⟨0, 5⟩,
  .expression ⟨6, 31⟩ (.assign ⟨6, 30⟩ "=" (.var ⟨6, 8⟩ "a")
    (.assign ⟨9, 30⟩ "=" (.var ⟨9, 11⟩ "b") (.array ⟨12, 30⟩ [
      .value (.assign ⟨13, 17⟩ "=" (.var ⟨13, 15⟩ "c") (.literal ⟨16, 17⟩ .integer)),
      .pair (.literal ⟨18, 21⟩ .string)
        (.assign ⟨23, 29⟩ "=" (.var ⟨23, 25⟩ "c") (.literal ⟨26, 29⟩ .string))]))),
  .expression ⟨31, 37⟩ (.assign ⟨31, 36⟩ "=" (.var ⟨31, 33⟩ "c") (.var ⟨34, 36⟩ "d"))]

def chainedRest : List Stmt := [
  .expression ⟨37, 47⟩ (.assign ⟨37, 46⟩ "=" (.var ⟨37, 39⟩ "b")
    (.new ⟨40, 46⟩ (.name ⟨44, 46⟩ "\\A") []))]

set_option maxRecDepth 100000 in
theorem reading_chained : Reading.of chained =
    { text := chained.toList, program := { statements := chainedDone ++ chainedRest } } := by
  cbv

/-- Of `$c`, `$b` and `$a`, in this order, the first holds what was never assigned at last. -/
theorem locals_straight_chained :
    Text.isOffset 37 chained.toList = true ∧
    Placed 0 47 ((Reading.of chained).program.statements.map .stmt) ∧
    (Reading.of chained).program.statements = chainedDone ++ chainedRest ∧
    (∀ t ∈ chainedDone ++ chainedRest,
      t.isStraight (Expr.isOrdinary (Reading.of chained).literal) = true) ∧
    (∀ t ∈ chainedDone, t.span.stop ≤ (Reading.of chained).shifted 37) ∧
    (∀ t ∈ chainedRest, (Reading.of chained).shifted 37 ≤ t.span.start) ∧
    Stmt.run (Reading.of chained).literal chainedDone =
      [("c", .int), ("c", .string), ("b", .array), ("a", .array), ("c", .unset)] ∧
    ∃ found, ((({} : Reflector).resolutionAt chained 37).run {}).1 = .ok found ∧
      found.locals.names = (Stmt.run (Reading.of chained).literal chainedDone).assigned ∧
      ∀ x, found.locals.get? x =
        ((Stmt.run (Reading.of chained).literal chainedDone).held x).map Value.ty := by
  have place : Text.isOffset 37 chained.toList = true := by decide
  have split : (Reading.of chained).program.statements = chainedDone ++ chainedRest := by
    rw [reading_chained]
  have placed : Placed 0 47 ((Reading.of chained).program.statements.map .stmt) := by
    rw [split]
    exact placed_of_end? (show Node.end? 20 0 _ = some 47 by decide)
  have straight : ∀ t ∈ chainedDone ++ chainedRest,
      t.isStraight (Expr.isOrdinary (Reading.of chained).literal) = true := by
    rw [reading_chained]
    decide
  have behind : ∀ t ∈ chainedDone, t.span.stop ≤ (Reading.of chained).shifted 37 := by
    rw [reading_chained]
    decide
  have ahead : ∀ t ∈ chainedRest, (Reading.of chained).shifted 37 ≤ t.span.start := by
    rw [reading_chained]
    decide
  refine ⟨place, placed, split, straight, behind, ahead, ?_, ?_⟩
  · rw [reading_chained]
    decide
  · exact locals_straight {} {} chained 37 place placed _ split straight behind ahead

/-! ### Other literals and names -/

def outOfBounds : String := "<?php $a=9223372036854775808;"

def outOfBoundsStatements : List Stmt := [
  .markup ⟨0, 5⟩,
  .expression ⟨6, 29⟩ (.assign ⟨6, 28⟩ "=" (.var ⟨6, 8⟩ "a") (.literal ⟨9, 28⟩ .integer))]

set_option maxRecDepth 100000 in
theorem reading_outOfBounds : Reading.of outOfBounds =
    { text := outOfBounds.toList, program := { statements := outOfBoundsStatements } } := by
  cbv

def relative : String := "<?php $a=new namespace\\A;"

def relativeStatements : List Stmt := [
  .markup ⟨0, 5⟩,
  .expression ⟨6, 25⟩ (.assign ⟨6, 24⟩ "=" (.var ⟨6, 8⟩ "a")
    (.new ⟨9, 24⟩ (.name ⟨13, 24⟩ "namespace\\A") []))]

set_option maxRecDepth 100000 in
theorem reading_relative : Reading.of relative =
    { text := relative.toList, program := { statements := relativeStatements } } := by
  cbv

def nowdoc : String := "<?php $a=<<<'X'\nq\nX;"

def nowdocStatements : List Stmt := [
  .markup ⟨0, 5⟩,
  .expression ⟨6, 20⟩ (.assign ⟨6, 19⟩ "=" (.var ⟨6, 8⟩ "a") (.template ⟨9, 19⟩))]

set_option maxRecDepth 100000 in
theorem reading_nowdoc : Reading.of nowdoc =
    { text := nowdoc.toList, program := { statements := nowdocStatements } } := by
  cbv

/-- An integer literal that does not fit a machine word is recorded as an integer, and a class of
the current namespace by the name that the code gives it; the values are a float and an instance
of `A`. A nowdoc is no literal but a string whose text is computed, so no type is known for it. -/
theorem locals_straight_unordinary :
    ((∀ t ∈ (Reading.of outOfBounds).program.statements, t.isStraight (fun _ => true) = true) ∧
      (Stmt.run (Reading.of outOfBounds).literal
        (Reading.of outOfBounds).program.statements).held "a" = some .float ∧
      ((({} : Reflector).resolutionAt outOfBounds 29).run {}).1.map (·.locals.get? "a") =
        .ok (some (.scalar "int"))) ∧
    ((∀ t ∈ (Reading.of relative).program.statements, t.isStraight (fun _ => true) = true) ∧
      (Stmt.run (Reading.of relative).literal
        (Reading.of relative).program.statements).held "a" = some (.object "A") ∧
      ((({} : Reflector).resolutionAt relative 25).run {}).1.map (·.locals.get? "a") =
        .ok (some (.classRef "namespace\\A"))) ∧
    (Reading.of nowdoc).program.statements = nowdocStatements ∧
      ((({} : Reflector).resolutionAt nowdoc 20).run {}).1.map (·.locals.get? "a") =
        .ok (some .unknown) := by
  rw [resolutionAt, resolutionAt, resolutionAt, Scope.at, Scope.at, Scope.at, reading_outOfBounds,
    reading_relative, reading_nowdoc]
  refine ⟨⟨by decide, by decide, ?_⟩, ⟨by decide, by decide, ?_⟩, rfl, ?_⟩
  · cbv
  · cbv
  · cbv

end Reflector
end PhpSymbols
