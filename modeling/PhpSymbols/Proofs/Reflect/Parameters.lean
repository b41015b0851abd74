import PhpSymbols.Proofs.Reflect.Finished
import PhpSymbols.Proofs.Reflect.Isolation

/-!
# Parameters stay first

* `names_enter_functionLike`: a function starts with `$this` or what it captures, and then its
  parameters as they are declared;
* `Comes.names_nodes`: a walk that comes to a scope of its own ends with the names of that scope;
* `locals_begin`: and whatever its body does, the variables in a function begin with those that
  it binds at its start.
-/

namespace PhpSymbols
open Php

namespace Walk
variable {w : Walk} {lo hi : Nat}

/-! ### The start of a function -/

theorem names_bindParameters_fresh {s : Scope} (doc : Option Docblock) {ps : List Param}
    (fresh : (s.names ++ ps.map Param.local_).Nodup) :
    (s.bindParameters (w.reader.parameters doc ps)).names = s.names ++ ps.map Param.local_ := by
  rw [← names_parameters w.reader doc] at fresh ⊢
  rw [Scope.bindParameters, Scope.names_bindAll] <;> rw [List.map_map]
  · rfl
  · exact fresh

theorem names_captured {s : Scope} {captured : List String} (fresh : captured.Nodup) :
    (s.captured captured).names = captured := by
  have names : (captured.map fun x => (x, (s.locals.get? x).getD .unknown)).map (·.1) =
      captured := by
    rw [List.map_map]
    exact List.map_id _
  have blank : ({ s with locals := {} } : Scope).names = [] := rfl
  rw [Scope.captured, Scope.names_bindAll] <;> rw [names, blank, List.nil_append]
  exact fresh

/-- A function around the offset starts with what it binds at its start, in this order. -/
theorem names_enter_functionLike {n : Node} {own : List String} {b : Body}
    (function : FunctionLike n own b) (arranged : n.IsArranged) (placed : Placed lo hi [n])
    (inside : b.span.insideBraces w.offset = true) (distinct : own.Nodup) (s : Scope) :
    (w.enter s n).names = own := by
  have bounds : ∀ span, n.span? = some span → span.start < w.offset ∧ w.offset < span.stop :=
    fun _ => (inside_of_functionLike function inside).span placed
  cases function with
  | closure =>
    have captured := names_captured (s := s) (List.nodup_append.1 distinct).1
    rw [enter, if_pos inside, names_bindParameters_fresh, captured]
    rw [captured]
    exact distinct
  | @function d =>
    have := bounds _ rfl
    have encloses : d.span.encloses w.offset = true :=
      Span.encloses_iff.2 ⟨Nat.le_of_lt this.1, this.2⟩
    rw [enter_function encloses]
    obtain ⟨span, name, ps, hint, b⟩ := d
    have braces : b.span.insideBraces w.offset = true := inside
    rw [enterFunction, if_pos braces, names_bindParameters_fresh]
    · rfl
    · exact distinct
  | @method d span modifiers name ps hint b member =>
    have := bounds _ rfl
    have encloses : d.span.encloses w.offset = true :=
      Span.encloses_iff.2 ⟨Nat.le_of_lt this.1, this.2⟩
    have found := find?_of_insideBraces (w := w) arranged member inside
    rw [enter_classLike encloses]
    obtain ⟨_, _, _, _, _, _, _, members⟩ := d
    rw [ClassDecl.members] at found
    simp only [enterClass, found, Option.elim, enterMethod, if_pos inside]
    cases static : modifiers.contains .static with
    | true =>
      rw [static] at distinct
      rw [if_pos rfl, names_bindParameters_fresh]
      · rfl
      · exact distinct
    | false =>
      rw [static] at distinct
      rw [if_neg Bool.false_ne_true, names_bindParameters_fresh]
      · rfl
      · exact distinct

/-! ### The rest of its body -/

/-- A walk that comes to a scope of its own ends with the names of that scope. -/
theorem Comes.names_nodes {n : Node} {ns : List Node} {s moment : Scope}
    (h : w.Comes n moment s ns) (placed : Placed lo hi ns) (isOpen : s.isClosed = false)
    (resets : (w.view n).resets = true) (place : Placed lo hi [n]) :
    (w.nodes s ns).names = (w.nodes (w.enter moment n) (w.view n).parts).names := by
  have plain : n.IsPlain := by
    cases n with
    | expr e =>
      cases e with
      | assign => cases resets
      | _ => trivial
    | iteration => cases resets
    | _ => trivial
  have here : w.node moment n = (w.nodes (w.enter moment n) (w.view n).parts).close := by
    rw [node_eq place.parts (h.isOpen isOpen), leave_plain plain]
    exact if_pos (ends_of_resets resets)
  rw [h.nodes_eq placed isOpen (congrArg Scope.isClosed here), here, Scope.names_close]

/-- What a function binds at its start comes first among the names at an offset in its body, if
no other scope starts around that. -/
theorem prefix_names_scopeAmong {ss : List Stmt} {s : Stmt} {n : Node} {own : List String}
    {b : Body} (placed : Placed lo hi (ss.map .stmt)) (arranged : Arranged (ss.map .stmt))
    (member : s ∈ ss) (stands : Node.Within n (.stmt s)) (function : FunctionLike n own b)
    (inside : b.span.insideBraces w.offset = true) (distinct : own.Nodup)
    (passes : w.Passes [.body b]) : own <+: (w.scopeAmong none ss ss).names := by
  have part : .stmt s ∈ ss.map Node.stmt := List.mem_map_of_mem member
  have place : Placed lo hi [n] := stands.placed (placed.of_mem part)
  have here : n.IsArranged := (arranged.of_within part stands).1
  have viewed := view_of_functionLike function here place inside
  have resets : (w.view n).resets = true := by rw [viewed]
  have home := placed_around (w := w) (List.nil_append ss).symm placed
  obtain ⟨t, around, reached⟩ := exists_reaches member stands placed arranged
    function.isNamespace_eq (inside_of_functionLike function inside)
  obtain ⟨moment, comes⟩ := reached.exists_comes (List.mem_map_of_mem around) home
    (.resets resets) (show (w.start none ss ss).isClosed = false from rfl)
  have entered : (w.enter moment n).isClosed = false :=
    (isClosed_enter moment n).trans (comes.isOpen rfl)
  have start : (w.enter moment n).names = own :=
    names_enter_functionLike function here place inside distinct moment
  have body : (w.nodes (w.enter moment n) [.body b]).Extends (w.enter moment n) :=
    extends_nodes (place.parts.of_mem function.mem_parts) passes entered
  have scope : (w.scopeAmong none ss ss).names =
      (w.nodes (w.start none ss ss) ((w.around ss ss).map .stmt)).names := by
    rw [← Scope.names_close, scopeAmong_eq none (List.nil_append ss).symm placed, Scope.names_close]
  rw [scope, comes.names_nodes home rfl resets place, viewed, ← start]
  exact body

end Walk

namespace Reflector
open ReflectorBy

/-- At a place in the body of a function or method, wherever that stands among the parts of the
source that walks go through, and in no closure or declaration inside it, the variables begin
with `$this`, in a method that is not static, and with the parameters as they are declared; in a
closure, with what it captures and its parameters. What the body does with them changes neither
that nor their order, and any other variable, `$this` in a static method among them, is bound in
the body. -/
theorem locals_begin [Frontend] [Walker] (r : Reflector) (session : Session) (source : String)
    (offset : Nat) {lo hi : Nat} (place : Text.isOffset offset source.toList = true)
    (placed : Placed lo hi ((Reading.of source).program.statements.map .stmt))
    (arranged : Arranged ((Reading.of source).program.statements.map .stmt)) {s : Stmt} {n : Node}
    {own : List String} {b : Body} (member : s ∈ (Reading.of source).program.statements)
    (stands : Node.Within n (.stmt s)) (function : FunctionLike n own b)
    (inside : b.span.insideBraces ((Reading.of source).shifted offset) = true)
    (distinct : own.Nodup) (passes : (r.walk source offset).Passes [.body b]) :
    ∃ found, ((r.resolutionAt source offset).run session).1 = .ok found ∧
      own <+: found.locals.names ∧
      ∀ x ∈ found.locals.names,
        x ∈ own ∨ ∃ m, Node.Within m (.body b) ∧ (r.walk source offset).Binds x m := by
  refine ⟨_, r.run_resolutionAt session source place, ?_, ?_⟩
  · exact Walk.prefix_names_scopeAmong (w := r.walk source offset) placed arranged member stands
      function inside distinct passes
  · intro x known
    rw [r.names_resolutionAt offset placed] at known
    rcases (Walk.introducesIn_of_functionLike placed arranged member stands function inside).1
      known with ⟨bound, -⟩ | introduced
    · exact .inl bound
    · obtain ⟨m, part, found⟩ := introduced.exists_binds
      obtain rfl := List.mem_singleton.1 part
      exact .inr found

/-! ### A loop over a parameter -/

def overParameter : String := "<?php class A{function m($p,$q){foreach($q as $p){$r=1;}}}"

def overParameterBody : Body :=
  .mk ⟨31, 57⟩ [.foreach ⟨32, 56⟩ (.var ⟨40, 42⟩ "q") none (.var ⟨46, 48⟩ "p") ⟨49, 56⟩
    [.block ⟨49, 56⟩ [.expression ⟨50, 55⟩
      (.assign ⟨50, 54⟩ "=" (.var ⟨50, 52⟩ "r") (.literal ⟨53, 54⟩ .integer))]]]

def overParameterMethod : Member :=
  .method ⟨14, 57⟩ [] "m"
    [.mk [] none false false "$p" none false, .mk [] none false false "$q" none false] none
    (some overParameterBody)

def overParameterClass : ClassDecl :=
  .mk ⟨6, 58⟩ .classDecl [] "A" [] [] ⟨13, 58⟩ [overParameterMethod]

def overParameterStatements : List Stmt := [.markup ⟨0, 5⟩, .classLike overParameterClass]

set_option maxRecDepth 100000 in
theorem reading_overParameter : Reading.of overParameter =
    { text := overParameter.toList, program := { statements := overParameterStatements } } := by
  cbv

/-- Behind the loop `$p` is still the first parameter, and `$r` comes behind both. -/
theorem locals_begin_overParameter :
    Text.isOffset 56 overParameter.toList = true ∧
    Placed 0 58 ((Reading.of overParameter).program.statements.map .stmt) ∧
    Arranged ((Reading.of overParameter).program.statements.map .stmt) ∧
    ["this", "p", "q"].Nodup ∧
    (({} : Reflector).walk overParameter 56).Passes [.body overParameterBody] ∧
    ∃ found, ((({} : Reflector).resolutionAt overParameter 56).run {}).1 = .ok found ∧
      ["this", "p", "q"] <+: found.locals.names ∧
      ∀ x ∈ found.locals.names, x ∈ ["this", "p", "q"] ∨
        ∃ m, Node.Within m (.body overParameterBody) ∧
          (({} : Reflector).walk overParameter 56).Binds x m := by
  have place : Text.isOffset 56 overParameter.toList = true := by decide
  have placed : Placed 0 58 ((Reading.of overParameter).program.statements.map .stmt) := by
    rw [reading_overParameter]
    exact placed_of_end? (show Node.end? 20 0 _ = some 58 by decide)
  have arranged : Arranged ((Reading.of overParameter).program.statements.map .stmt) := by
    rw [reading_overParameter]
    exact arranged_of_areArranged (show Node.areArranged 20 _ = true by decide)
  have member : .classLike overParameterClass ∈ (Reading.of overParameter).program.statements := by
    rw [reading_overParameter]
    simp [overParameterStatements]
  have inside : overParameterBody.span.insideBraces ((Reading.of overParameter).shifted 56) =
      true := by
    rw [reading_overParameter]
    decide
  have offset : (({} : Reflector).walk overParameter 56).offset = 56 := by
    rw [walk, reading_overParameter]
    rfl
  have passes : (({} : Reflector).walk overParameter 56).Passes [.body overParameterBody] := by
    simp [overParameterBody, Walk.passes_cons, Walk.passes_nil, Walk.enters_iff, Walk.view,
      Walk.viewStmt, Walk.viewExpr, offset, Node.ofStmt, Node.ofExpr, Node.parts, Stmt.span]
  have method : overParameterMethod ∈ overParameterClass.members := List.mem_cons_self
  have distinct : ["this", "p", "q"].Nodup := by decide
  refine ⟨place, placed, arranged, distinct, passes, ?_⟩
  exact locals_begin {} {} overParameter 56 place placed arranged member .here
    (.method method) inside distinct passes

/-! ### A function in the block of a directive -/

def directive : String := "<?php declare(ticks=1){function f($p){}}"

def directiveFunction : FunctionDecl :=
  .mk ⟨23, 39⟩ "f" [.mk [] none false false "$p" none false] none (.mk ⟨37, 39⟩ [])

def directiveStatements : List Stmt := [
  .markup ⟨0, 5⟩,
  .declare ⟨6, 40⟩ [.block ⟨22, 40⟩ [.function directiveFunction]]]

set_option maxRecDepth 100000 in
theorem reading_directive : Reading.of directive =
    { text := directive.toList, program := { statements := directiveStatements } } := by
  cbv

/-- The offset is in the body of a function with the parameter `$p`, but no walk goes through the
block of a directive, so that no variable is known there. -/
theorem locals_begin_directive :
    (Reading.of directive).program.statements = directiveStatements ∧
    directiveFunction.parameters.map Param.local_ = ["p"] ∧
    directiveFunction.body.span.insideBraces ((Reading.of directive).shifted 38) = true ∧
    ((({} : Reflector).resolutionAt directive 38).run {}).1.map (·.locals.names) = .ok [] := by
  rw [resolutionAt, Scope.at, reading_directive]
  refine ⟨rfl, by decide, by decide, ?_⟩
  cbv

end Reflector
end PhpSymbols
