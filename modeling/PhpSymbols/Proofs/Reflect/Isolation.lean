import PhpSymbols.Proofs.Reflect.Arranged
import PhpSymbols.Proofs.Reflect.Origin
import PhpSymbols.Proofs.Reflect.Resolution

/-!
# Isolated scopes

* `FunctionLike`: functions, methods and closures, with what each binds at its start;
* `reaches_of_within`: a walk comes to the one whose body holds the offset, wherever it
  stands among the parts that walks go through;
* `introducesIn_of_functionLike`: so the names in scope are what it binds at its start and
  what its body introduces;
* `locals_isolated`: no variable of an enclosing scope is among them.
-/

namespace PhpSymbols
open Php

/-- A function, a closure, or a method of the class-like that the node is: the names that it
binds at its start, and its body. -/
inductive FunctionLike : Node → List String → Body → Prop where
  | closure {span : Span} {ps : List Param} {captured : List String} {b : Body} :
      FunctionLike (.expr (.closure span ps captured b)) (captured ++ ps.map Param.local_) b
  | function {d : FunctionDecl} :
      FunctionLike (.stmt (.function d)) (d.parameters.map Param.local_) d.body
  | method {d : ClassDecl} {span : Span} {modifiers : List Modifier} {name : String}
      {ps : List Param} {hint : Option Span} {b : Body} :
      .method span modifiers name ps hint (some b) ∈ d.members →
      FunctionLike (.stmt (.classLike d))
        ((if modifiers.contains .static then [] else ["this"]) ++ ps.map Param.local_) b

theorem FunctionLike.mem_parts {n : Node} {own : List String} {b : Body}
    (h : FunctionLike n own b) : .body b ∈ n.parts := by
  cases h with
  | closure | function => exact List.mem_cons_self
  | method member => exact Walk.body_of_method member

theorem FunctionLike.isNamespace_eq {n : Node} {own : List String} {b : Body}
    (h : FunctionLike n own b) : n.isNamespace = false := by
  cases h <;> rfl

/-- The parts of a node that are not walked in its own scope. -/
theorem Node.mem_parts_cases {n k : Node} (part : k ∈ n.parts) :
    k ∈ n.inner ∨ n.isNamespace = true ∨ (∃ own b, FunctionLike n own b ∧ k = .body b) ∨
      ∃ span ps value, n = .expr (.arrow span ps value) := by
  cases n with
  | expr e =>
    cases e with
    | closure =>
      obtain rfl := List.mem_singleton.1 part
      exact .inr (.inr (.inl ⟨_, _, .closure, rfl⟩))
    | arrow => exact .inr (.inr (.inr ⟨_, _, _, rfl⟩))
    | _ => exact .inl part
  | stmt t =>
    cases t with
    | ns => exact .inr (.inl rfl)
    | function d =>
      obtain rfl := List.mem_singleton.1 part
      exact .inr (.inr (.inl ⟨_, _, .function, rfl⟩))
    | classLike d =>
      obtain ⟨b, found, rfl⟩ := List.mem_map.1 part
      obtain ⟨_, _, _, _, _, _, _, members⟩ := d
      obtain ⟨m, member, body⟩ := List.mem_filterMap.1 found
      cases m with
      | method span modifiers name ps hint body_ =>
        obtain rfl : body_ = some b := body
        exact .inr (.inr (.inl ⟨_, _, .method member, rfl⟩))
      | property | hookedProperty | constant | enumCase | traitUse => cases body
    | _ => exact .inl part
  | element | iteration | elseIf | catch_ | ensure | case_ | body => exact .inl part

namespace Walk
variable {w : Walk} {lo hi : Nat} {x : String}

/-! ### Coming to a function -/

/-- The offset is in the node, and at neither end of it. -/
def Inside (w : Walk) (n : Node) : Prop :=
  ∀ lo hi, Placed lo hi [n] → lo < w.offset ∧ w.offset < hi

theorem Inside.of_within {m n : Node} (h : w.Inside m) (stands : Node.Within m n) : w.Inside n :=
  fun lo hi placed => h lo hi (stands.placed placed)

theorem Inside.at {n : Node} (h : w.Inside n) : w.At n := by
  intro lo hi placed
  have := h lo hi placed
  omega

theorem Inside.span {n : Node} {span : Span} (h : w.Inside n) (placed : Placed lo hi [n])
    (same : n.span? = some span) : span.start < w.offset ∧ w.offset < span.stop :=
  h _ _ (placed.own List.mem_cons_self same)

theorem inside_of_functionLike {n : Node} {own : List String} {b : Body}
    (function : FunctionLike n own b) (inside : b.span.insideBraces w.offset = true) :
    w.Inside n := by
  intro lo hi placed
  have := placed.parts.span_le function.mem_parts rfl
  have := Span.insideBraces_iff.1 inside
  omega

theorem find?_of_insideBraces {d : ClassDecl} {span : Span} {modifiers : List Modifier}
    {name : String} {ps : List Param} {hint : Option Span} {b : Body} (arranged : d.Arranged)
    (member : .method span modifiers name ps hint (some b) ∈ d.members)
    (inside : b.span.insideBraces w.offset = true) :
    d.members.find? (Member.isMethodAround w.offset) =
      some (.method span modifiers name ps hint (some b)) := by
  have around : span.start ≤ b.span.start ∧ b.span.stop ≤ span.stop := arranged.bodies _ member
  have braces := Span.insideBraces_iff.1 inside
  exact find?_isMethodAround arranged.ordered member
    (show span.encloses w.offset = true from Span.encloses_iff.2 (by omega))

theorem methodAround?_of_mem {d : ClassDecl} {span : Span} {modifiers : List Modifier}
    {name : String} {ps : List Param} {hint : Option Span} {b : Body} (arranged : d.Arranged)
    (member : .method span modifiers name ps hint (some b) ∈ d.members)
    (inside : b.span.insideBraces w.offset = true) :
    d.methodAround? w.offset = some (modifiers.contains .static, ps, b) := by
  have found := find?_of_insideBraces arranged member inside
  obtain ⟨_, _, _, _, _, _, _, members⟩ := d
  rw [ClassDecl.methodAround?]
  rw [ClassDecl.members] at found
  rw [found]

/-- A function whose body holds the offset starts a scope of its own with what it binds. -/
theorem view_of_functionLike {n : Node} {own : List String} {b : Body}
    (function : FunctionLike n own b) (arranged : n.IsArranged) (placed : Placed lo hi [n])
    (inside : b.span.insideBraces w.offset = true) : w.view n = ⟨true, own, [.body b]⟩ := by
  have bounds : ∀ span, n.span? = some span → span.start < w.offset ∧ w.offset < span.stop :=
    fun _ => (inside_of_functionLike function inside).span placed
  cases function with
  | closure => rw [view, viewExpr, if_pos inside]
  | @function d =>
    have := bounds _ rfl
    have encloses : d.span.encloses w.offset = true :=
      Span.encloses_iff.2 ⟨Nat.le_of_lt this.1, this.2⟩
    rw [view_function encloses, viewBody, if_pos inside]
  | @method d span modifiers name ps hint b member =>
    have := bounds _ rfl
    have encloses : d.span.encloses w.offset = true :=
      Span.encloses_iff.2 ⟨Nat.le_of_lt this.1, this.2⟩
    rw [view_classLike encloses, viewClass,
      methodAround?_of_mem arranged member inside]
    exact if_pos inside

/-- A walk goes through the part of a node that holds the offset. -/
theorem mem_view_of_inside {n k : Node} (arranged : n.IsArranged) (other : n.isNamespace = false)
    (placed : Placed lo hi [n]) (part : k ∈ n.parts) (inside : w.Inside k) :
    k ∈ (w.view n).parts := by
  have bounds : ∀ span, n.span? = some span → span.start < w.offset ∧ w.offset < span.stop :=
    fun _ => (inside.of_within (.part part .here)).span placed
  rcases Node.mem_parts_cases part with inner | namespace_ | ⟨own, b, function, rfl⟩ |
    ⟨span, ps, value, rfl⟩
  · apply mem_view_of_mem_inner inner
    intro span same
    exact Nat.le_of_lt (bounds span same).1
  · cases other.symm.trans namespace_
  · have braces := inside.span (placed.parts.of_mem part) rfl
    rw [view_of_functionLike function arranged placed (Span.insideBraces_iff.2 braces)]
    exact List.mem_cons_self
  · have := bounds _ rfl
    have encloses : span.encloses w.offset = true :=
      Span.encloses_iff.2 ⟨Nat.le_of_lt this.1, this.2⟩
    rw [view, viewExpr, if_pos encloses]
    exact part

/-- A walk comes to what holds the offset, wherever it stands. -/
theorem reaches_of_within {m n : Node} (stands : Node.Within m n) (placed : Placed lo hi [n])
    (here : n.IsArranged) (parts : Arranged n.parts) (other : n.isNamespace = false)
    (inside : w.Inside m) : w.Reaches m n := by
  induction stands with
  | here => exact .here
  | part part within ih =>
    have walked := mem_view_of_inside here other placed part (inside.of_within within)
    obtain ⟨part_here, part_parts⟩ := parts.of_mem part
    exact .part walked
      (ih (placed.parts.of_mem part) part_here part_parts (here.part other part))

/-- A walk through the code around the offset comes to what holds it. -/
theorem exists_reaches {ss : List Stmt} {s : Stmt} {m : Node} (member : s ∈ ss)
    (stands : Node.Within m (.stmt s)) (placed : Placed lo hi (ss.map .stmt))
    (arranged : Arranged (ss.map .stmt)) (other : m.isNamespace = false) (inside : w.Inside m) :
    ∃ t ∈ w.around ss ss, w.Reaches m (.stmt t) := by
  obtain ⟨ns, code, spaces, t, part, within, plain⟩ :=
    exists_spaces none member stands rfl other
  obtain ⟨around_eq, -⟩ :=
    around_of_spaces spaces placed part (inside.of_within within).at plain
  obtain ⟨outer, outer_member, t_stands⟩ := spaces.within part
  have outer_part : .stmt outer ∈ ss.map Node.stmt := List.mem_map_of_mem outer_member
  obtain ⟨here, parts⟩ := arranged.of_within outer_part t_stands
  have place := t_stands.placed (placed.of_mem outer_part)
  exact ⟨t, around_eq ▸ part, reaches_of_within within place here parts plain inside⟩

/-! ### What is in scope there -/

/-- In the body of a function the names in scope are those that it binds at its start, unless
another scope starts inside, and those that its body introduces. -/
theorem introducesIn_of_functionLike {ss : List Stmt} {s : Stmt} {n : Node} {own : List String}
    {b : Body} (placed : Placed lo hi (ss.map .stmt)) (arranged : Arranged (ss.map .stmt))
    (member : s ∈ ss) (stands : Node.Within n (.stmt s)) (function : FunctionLike n own b)
    (inside : b.span.insideBraces w.offset = true) :
    w.IntroducesIn x ((w.around ss ss).map .stmt) ↔
      x ∈ own ∧ w.Passes [.body b] ∨ w.IntroducesIn x [.body b] := by
  have part : .stmt s ∈ ss.map Node.stmt := List.mem_map_of_mem member
  obtain ⟨here, -⟩ := arranged.of_within part stands
  have viewed := view_of_functionLike function here (stands.placed (placed.of_mem part)) inside
  have entered : w.Enters n := .resets (by rw [viewed])
  obtain ⟨t, around_part, reached⟩ := exists_reaches member stands placed arranged
    function.isNamespace_eq (inside_of_functionLike function inside)
  have home := placed_around (w := w) (List.nil_append ss).symm placed
  have home_part : .stmt t ∈ (w.around ss ss).map Node.stmt := List.mem_map_of_mem around_part
  have shown : x ∉ w.finished n := by
    cases function <;> exact List.not_mem_nil
  rw [introducesIn_iff_of_enters home home_part (reached.enters entered),
    introduces_iff_of_reaches reached (home.of_mem home_part) entered, introduces_iff, viewed,
    and_iff_right shown]

end Walk
namespace Reflector
open ReflectorBy

/-- At a place in the body of a function, a method or a closure, wherever that stands among
the parts of the source that walks go through, there is an answer. Its variables are those
that the function binds at its start, unless another scope starts inside, and those that its
body introduces. So each is a parameter, captured, `$this` or bound in the body; none is
bound only around the function. -/
theorem locals_isolated [Frontend] [Walker] (r : Reflector) (session : Session) (source : String)
    (offset : Nat) {lo hi : Nat} (place : Text.isOffset offset source.toList = true)
    (placed : Placed lo hi ((Reading.of source).program.statements.map .stmt))
    (arranged : Arranged ((Reading.of source).program.statements.map .stmt)) {s : Stmt} {n : Node}
    {own : List String} {b : Body} (member : s ∈ (Reading.of source).program.statements)
    (stands : Node.Within n (.stmt s)) (function : FunctionLike n own b)
    (inside : b.span.insideBraces ((Reading.of source).shifted offset) = true) :
    ∃ found, ((r.resolutionAt source offset).run session).1 = .ok found ∧
      (∀ x, x ∈ found.locals.names ↔ x ∈ own ∧ (r.walk source offset).Passes [.body b] ∨
        (r.walk source offset).IntroducesIn x [.body b]) ∧
      ∀ x ∈ found.locals.names,
        x ∈ own ∨ ∃ m, Node.Within m (.body b) ∧ (r.walk source offset).Binds x m := by
  have names : ∀ x, x ∈ (Scope.at r.resolver source offset).locals.names ↔
      x ∈ own ∧ (r.walk source offset).Passes [.body b] ∨
        (r.walk source offset).IntroducesIn x [.body b] := by
    intro x
    rw [r.names_resolutionAt offset placed]
    exact Walk.introducesIn_of_functionLike placed arranged member stands function inside
  refine ⟨_, r.run_resolutionAt session source place, names, ?_⟩
  intro x known
  rcases (names x).1 known with ⟨bound, -⟩ | introduced
  · exact .inl bound
  · obtain ⟨n, part, found⟩ := introduced.exists_binds
    obtain rfl := List.mem_singleton.1 part
    exact .inr found

/-! ### A closure as an argument -/

def argument : String := "<?php $a=1;f(function($b){});"

def argumentClosure : Expr :=
  .closure ⟨13, 27⟩ [.mk [] none false false "$b" none false] [] (.mk ⟨25, 27⟩ [])

def argumentStatements : List Stmt := [
  .markup ⟨0, 5⟩,
  .expression ⟨6, 11⟩ (.assign ⟨6, 10⟩ "=" (.var ⟨6, 8⟩ "a") (.literal ⟨9, 10⟩ .integer)),
  .expression ⟨11, 29⟩ (.call ⟨11, 28⟩ (.name ⟨11, 12⟩ "f") [argumentClosure])]

set_option maxRecDepth 100000 in
theorem reading_argument : Reading.of argument =
    { text := argument.toList, program := { statements := argumentStatements } } := by
  cbv

theorem placed_argument : Placed 0 29 (argumentStatements.map .stmt) :=
  placed_of_end? (show Node.end? 9 0 _ = some 29 by decide)

theorem arranged_argument : Arranged (argumentStatements.map .stmt) :=
  arranged_of_areArranged (show Node.areArranged 9 _ = true by decide)

theorem locals_isolated_argument :
    Text.isOffset 26 argument.toList = true ∧
    Placed 0 29 ((Reading.of argument).program.statements.map .stmt) ∧
    Arranged ((Reading.of argument).program.statements.map .stmt) ∧
    ∃ found, ((({} : Reflector).resolutionAt argument 26).run {}).1 = .ok found ∧
      ∀ x ∈ found.locals.names, x ∈ ["b"] ∨ ∃ m, Node.Within m (.body (.mk ⟨25, 27⟩ [])) ∧
        (({} : Reflector).walk argument 26).Binds x m := by
  have place : Text.isOffset 26 argument.toList = true := by decide
  have placed : Placed 0 29 ((Reading.of argument).program.statements.map .stmt) := by
    rw [reading_argument]
    exact placed_argument
  have arranged : Arranged ((Reading.of argument).program.statements.map .stmt) := by
    rw [reading_argument]
    exact arranged_argument
  have inside : (⟨25, 27⟩ : Span).insideBraces ((Reading.of argument).shifted 26) = true := by
    rw [reading_argument]
    decide
  have member : .expression ⟨11, 29⟩ (.call ⟨11, 28⟩ (.name ⟨11, 12⟩ "f") [argumentClosure]) ∈
      (Reading.of argument).program.statements := by
    rw [reading_argument]
    simp [argumentStatements]
  have stands : Node.Within (.expr argumentClosure) (.stmt (.expression ⟨11, 29⟩
      (.call ⟨11, 28⟩ (.name ⟨11, 12⟩ "f") [argumentClosure]))) := by
    -- from the statement to the call, and to its argument
    refine .part List.mem_cons_self (.part ?_ .here)
    exact List.mem_cons_of_mem _ List.mem_cons_self
  have own : ["b"] = [] ++ [Param.mk [] none false false "$b" none false].map Param.local_ := by
    decide
  obtain ⟨found, ok, -, isolated⟩ :=
    locals_isolated {} {} argument 26 place placed arranged member stands .closure inside
  exact ⟨place, placed, arranged, found, ok, own ▸ isolated⟩

/-! ### A closure in the condition of a loop -/

def condition : String := "<?php $a=1;while(function(){}){}"

def conditionStatements : List Stmt := [
  .markup ⟨0, 5⟩,
  .expression ⟨6, 11⟩ (.assign ⟨6, 10⟩ "=" (.var ⟨6, 8⟩ "a") (.literal ⟨9, 10⟩ .integer)),
  .whileLoop ⟨11, 32⟩ (.closure ⟨17, 29⟩ [] [] (.mk ⟨27, 29⟩ [])) [.block ⟨30, 32⟩ []]]

set_option maxRecDepth 100000 in
theorem reading_condition : Reading.of condition =
    { text := condition.toList, program := { statements := conditionStatements } } := by
  cbv

/-- The offset is in the body of the closure, but no walk goes through the condition, so `$a`
is not hidden there. -/
theorem locals_isolated_condition :
    (Reading.of condition).program.statements = conditionStatements ∧
    (⟨27, 29⟩ : Span).insideBraces ((Reading.of condition).shifted 28) = true ∧
    ((({} : Reflector).resolutionAt condition 28).run {}).1.map (·.locals.names) = .ok ["a"] := by
  rw [resolutionAt, Scope.at, reading_condition]
  refine ⟨rfl, by decide, ?_⟩
  cbv

end Reflector

end PhpSymbols
