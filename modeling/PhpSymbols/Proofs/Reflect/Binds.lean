import PhpSymbols.Proofs.Reflect.Step

/-!
# What binds a name

* `Walk.Binds`: a node binds a name for the code at the offset, said by where the node
  stands and not by how it is walked;
* `binds_of_own`: what a view binds is bound by its node in this sense;
* `Binds.le`: nothing behind the offset binds a name.
-/

namespace PhpSymbols
open Php

namespace Php

def ClassDecl.members : ClassDecl → List Member
  | .mk _ _ _ _ _ _ _ members => members

end Php

namespace Walk

/-- The node binds the name for the code at the offset. -/
inductive Binds (w : Walk) (x : String) : Node → Prop where
  /-- An assignment, behind its end. -/
  | assigned {span : Span} {operator : String} {target value : Expr} :
      x ∈ Scope.targetNames target → span.stop ≤ w.offset →
      Binds w x (.expr (.assign span operator target value))
  /-- A loop over targets, in its body and at both ends of it. -/
  | iterated {subject : Expr} {key : Option Expr} {value : Expr} {b : Body} :
      x ∈ targetsOf key value → b.span.touches w.offset = true →
      Binds w x (.iteration subject key value b)
  | caught {span hint : Span} {ss : List Stmt} : span.start ≤ w.offset →
      Binds w x (.catch_ (.mk span hint (some x) ss))
  | global {span : Span} {names : List String} : x ∈ names → span.start ≤ w.offset →
      Binds w x (.stmt (.global span names))
  | static {span : Span} {names : List String} {initials : List Expr} : x ∈ names →
      span.start ≤ w.offset → Binds w x (.stmt (.staticVars span names initials))
  /-- A closure, in its body: what it captures and its parameters. -/
  | closure {span : Span} {ps : List Param} {captured : List String} {b : Body} :
      x ∈ captured ++ ps.map Param.local_ → b.span.insideBraces w.offset = true →
      Binds w x (.expr (.closure span ps captured b))
  /-- An arrow function, in all of it. -/
  | arrow {span : Span} {ps : List Param} {value : Expr} : x ∈ ps.map Param.local_ →
      span.encloses w.offset = true → Binds w x (.expr (.arrow span ps value))
  | function {d : FunctionDecl} : x ∈ d.parameters.map Param.local_ →
      d.body.span.insideBraces w.offset = true → Binds w x (.stmt (.function d))
  /-- A method, in its body. -/
  | method {d : ClassDecl} {span : Span} {modifiers : List Modifier} {name : String}
      {ps : List Param} {hint : Option Span} {b : Body} :
      .method span modifiers name ps hint (some b) ∈ d.members → x ∈ ps.map Param.local_ →
      b.span.insideBraces w.offset = true → Binds w x (.stmt (.classLike d))
  | this {d : ClassDecl} {span : Span} {modifiers : List Modifier} {name : String}
      {ps : List Param} {hint : Option Span} {b : Body} :
      .method span modifiers name ps hint (some b) ∈ d.members → x = "this" →
      modifiers.contains .static = false → b.span.insideBraces w.offset = true →
      Binds w x (.stmt (.classLike d))

variable {w : Walk} {lo hi : Nat} {x : String}

theorem mem_of_methodAround? {d : ClassDecl} {isStatic : Bool} {ps : List Param} {b : Body}
    (found : d.methodAround? w.offset = some (isStatic, ps, b)) :
    ∃ span modifiers name hint, .method span modifiers name ps hint (some b) ∈ d.members ∧
      modifiers.contains .static = isStatic := by
  obtain ⟨_, _, _, _, _, _, _, members⟩ := d
  rw [ClassDecl.methodAround?] at found
  split at found
  · rename_i method
    cases found
    exact ⟨_, _, _, _, List.mem_of_find?_eq_some method, rfl⟩
  · cases found

theorem mem_own_viewBody {names : List String} {b : Body} (bound : x ∈ (w.viewBody names b).own) :
    x ∈ names ∧ b.span.insideBraces w.offset = true := by
  rw [viewBody] at bound
  split at bound
  · exact ⟨bound, ‹_›⟩
  · cases bound

theorem binds_of_viewClass {d : ClassDecl} (bound : x ∈ (w.viewClass d).own) :
    w.Binds x (.stmt (.classLike d)) := by
  rw [viewClass] at bound
  split at bound
  · rename_i isStatic ps b found
    obtain ⟨span, modifiers, name, hint, member, static⟩ := mem_of_methodAround? found
    obtain ⟨bound, inside⟩ := mem_own_viewBody bound
    rcases List.mem_append.1 bound with this | parameter
    · cases isStatic with
      | true => cases this
      | false => exact .this member (List.mem_singleton.1 this) static inside
    · exact .method member parameter inside
  · cases bound

theorem binds_of_viewStmt {t : Stmt} (started : t.span.start ≤ w.offset)
    (bound : x ∈ (w.viewStmt t).own) : w.Binds x (.stmt t) := by
  cases t with
  | global => exact .global bound started
  | staticVars => exact .static bound started
  | classLike d =>
    rw [viewStmt] at bound
    split at bound
    · exact binds_of_viewClass bound
    · cases bound
  | function d =>
    rw [viewStmt] at bound
    split at bound
    · obtain ⟨parameter, inside⟩ := mem_own_viewBody bound
      exact .function parameter inside
    · cases bound
  | _ => cases bound

/-- What a view binds is bound by its node. -/
theorem binds_of_own {n : Node} (bound : x ∈ (w.view n).own) : w.Binds x n := by
  cases n with
  | expr e =>
    cases e with
    | assign =>
      rw [view, viewExpr] at bound
      split at bound
      · exact .assigned bound ‹_›
      · cases bound
    | closure =>
      rw [view, viewExpr] at bound
      split at bound
      · exact .closure bound ‹_›
      · cases bound
    | arrow =>
      rw [view, viewExpr] at bound
      split at bound
      · exact .arrow bound ‹_›
      · cases bound
    | _ => cases bound
  | stmt t =>
    rw [view] at bound
    split at bound
    · exact binds_of_viewStmt ‹_› bound
    · cases bound
  | iteration =>
    rw [view] at bound
    split at bound
    · exact .iterated bound ‹_›
    · cases bound
  | catch_ c =>
    obtain ⟨span, hint, name, ss⟩ := c
    rw [view] at bound
    split at bound
    · cases name with
      | none => cases bound
      | some n =>
        obtain rfl := List.mem_singleton.1 bound
        exact .caught ‹_›
    · cases bound
  | ensure e =>
    obtain ⟨span, ss⟩ := e
    rw [view] at bound
    split at bound <;> cases bound
  | element | elseIf | case_ | body => cases bound

theorem body_of_method {d : ClassDecl} {span : Span} {modifiers : List Modifier} {name : String}
    {ps : List Param} {hint : Option Span} {b : Body}
    (member : .method span modifiers name ps hint (some b) ∈ d.members) :
    .body b ∈ (Node.stmt (.classLike d)).parts := by
  obtain ⟨_, _, _, _, _, _, _, members⟩ := d
  exact List.mem_map_of_mem (List.mem_filterMap.2 ⟨_, member, rfl⟩)

/-- Nothing behind the offset binds a name. -/
theorem Binds.le {n : Node} (h : w.Binds x n) (placed : Placed lo hi [n]) : lo ≤ w.offset := by
  have spanned : ∀ span, n.span? = some span →
      lo ≤ span.start ∧ span.start ≤ span.stop ∧ span.stop ≤ hi :=
    fun _ => placed.span_le List.mem_cons_self
  have part : ∀ b : Body, .body b ∈ n.parts → b.span.insideBraces w.offset = true →
      lo ≤ w.offset := by
    intro b member inside
    have := placed.parts.start_le member rfl
    have := Span.insideBraces_iff.1 inside
    omega
  cases h with
  | @assigned span _ _ _ _ ended =>
    have := spanned span rfl
    omega
  | iterated _ touched =>
    have := spanned _ rfl
    have := Span.touches_iff.1 touched
    omega
  | @caught span _ _ started =>
    have := spanned span rfl
    omega
  | @global span _ _ started =>
    have := spanned span rfl
    omega
  | @static span _ _ _ started =>
    have := spanned span rfl
    omega
  | @arrow span _ _ _ inside =>
    have := spanned span rfl
    have := Span.encloses_iff.1 inside
    omega
  | closure _ inside => exact part _ List.mem_cons_self inside
  | function _ inside => exact part _ List.mem_cons_self inside
  | method member _ inside => exact part _ (body_of_method member) inside
  | this member _ _ inside => exact part _ (body_of_method member) inside

end Walk
end PhpSymbols
