import PhpSymbols.Proofs.Php.Mended
import PhpSymbols.Proofs.Reflect.Run

/-!
# The scope at an offset

* `Walk.around`, `Walk.space`: the statements of the namespace around the offset, and its
  name;
* `scopeAmong_eq`: the scope at the offset is what a walk through these statements comes to;
* `names_scopeAmong`: the names in it are those that the walk introduces.
-/

namespace PhpSymbols
open Php

namespace Walk
variable (w : Walk)

/-- The statements of the innermost namespace around the offset. The text behind the last
statement of a namespace without braces belongs to it. -/
def around (all : List Stmt) : (rest : List Stmt) → List Stmt
  | [] => all
  | .ns span _ ss :: rest =>
    if span.encloses w.offset || (rest.isEmpty && span.stop ≤ w.offset) then around ss ss
    else around all rest
  | _ :: rest => around all rest

/-- The name of that namespace. -/
def space (ns : Option String) (all : List Stmt) : (rest : List Stmt) → Option String
  | [] => ns
  | .ns span name ss :: rest =>
    if span.encloses w.offset || (rest.isEmpty && span.stop ≤ w.offset) then
      space (innerNamespace ns name) ss ss
    else space ns all rest
  | _ :: rest => space ns all rest

/-- The scope in which the code of that namespace starts. -/
def start (ns : Option String) (all rest : List Stmt) : Scope :=
  { imports := .of (w.space ns all rest) (w.around all rest) }

variable {w} {lo hi : Nat} {x : String}

/-- No namespace behind the offset is around it. -/
theorem around_of_behind (ns : Option String) {all rest : List Stmt}
    (placed : Placed lo hi (rest.map .stmt)) (behind : w.offset < lo) :
    w.around all rest = all ∧ w.space ns all rest = ns := by
  induction rest generalizing lo with
  | nil => exact ⟨by rw [around], by rw [space]⟩
  | cons t rest ih =>
    have place := placed.span_le List.mem_cons_self rfl
    obtain ⟨mid, head, others⟩ := placed.of_cons
    have le := head.le
    have rest_eq := ih others (by omega)
    cases t with
    | ns span name ss =>
      simp only [Stmt.span] at place
      have apart : ¬ (span.encloses w.offset || (rest.isEmpty && span.stop ≤ w.offset)) = true := by
        rw [Bool.or_eq_true, Span.encloses_iff, Bool.and_eq_true, decide_eq_true_eq]
        omega
      rw [around, if_neg apart, space, if_neg apart]
      exact rest_eq
    | _ =>
      rw [around.eq_def, space.eq_def]
      exact rest_eq

/-! ### The scan as a walk -/

theorem view_classLike {d : ClassDecl} (inside : d.span.encloses w.offset = true) :
    w.view (.stmt (.classLike d)) = w.viewClass d := by
  have started : (Stmt.classLike d).span.start ≤ w.offset := (Span.encloses_iff.1 inside).1
  rw [view, if_pos started, viewStmt, if_pos inside]

theorem view_function {d : FunctionDecl} (inside : d.span.encloses w.offset = true) :
    w.view (.stmt (.function d)) = w.viewBody (d.parameters.map Param.local_) d.body := by
  have started : (Stmt.function d).span.start ≤ w.offset := (Span.encloses_iff.1 inside).1
  rw [view, if_pos started, viewStmt, if_pos inside]

/-- A declaration around the offset forgets what is bound in front of it. -/
theorem enter_declaration {n : Node} {space : Option String} {key : Enclosing}
    (declared : w.declares space n = some key) {s before : Scope}
    (same : before = { s with locals := before.locals }) : w.enter before n = w.enter s n := by
  rcases declares_eq_some declared with ⟨d, rfl, inside, -⟩ | ⟨d, rfl, inside, -⟩
  · rw [enter_classLike inside, enter_classLike inside, same]
  · rw [enter_function inside, enter_function inside, same]

theorem leave_declaration {n : Node} {space : Option String} {key : Enclosing}
    (declared : w.declares space n = some key) (s after : Scope) :
    w.leave s after n = after.close := by
  rcases declares_eq_some declared with ⟨d, rfl, inside, -⟩ | ⟨d, rfl, inside, -⟩
  · exact if_pos inside
  · exact if_pos inside

/-- A walk through statements with a declaration around the offset goes through this alone. -/
theorem nodes_declaration {ns : List Node} {n : Node} {s : Scope} (placed : Placed lo hi ns)
    (member : n ∈ ns) (isOpen : s.isClosed = false) {space : Option String} {key : Enclosing}
    (declared : w.declares space n = some key) :
    w.nodes s ns = (w.nodes (w.enter s n) (w.view n).parts).close := by
  obtain ⟨before, same, walk⟩ :=
    nodes_of_enters placed member (.resets (resets_of_declares declared)) isOpen
  have before_open : before.isClosed = false := by
    rw [same]
    exact isOpen
  rw [walk, node_eq (placed.of_mem member).parts before_open, enter_declaration declared same,
    leave_declaration declared]

theorem close_scope_of_declaration (ns : Option String) {all pre post : List Stmt} {t : Stmt}
    (split : all = pre ++ t :: post) (placed : Placed lo hi (all.map .stmt))
    {space : Option String} {key : Enclosing} (declared : w.declares space (.stmt t) = some key) :
    (w.nodes (w.enter { imports := .of ns all } (.stmt t)) (w.view (.stmt t)).parts).close =
      (w.nodes (w.start ns all post) ((w.around all post).map .stmt)).close := by
  have nodes : all.map Node.stmt = pre.map .stmt ++ ([.stmt t] ++ post.map .stmt) := by
    rw [split, List.map_append, List.map_cons, List.singleton_append]
  obtain ⟨start, -, rest⟩ := Placed.of_append (nodes ▸ placed)
  obtain ⟨stop, place, post_placed⟩ := rest.of_append
  have inside := (sound_of_placed place _ (.refl _)).enters fun passes =>
    (passes_cons.1 passes).1 (.resets (resets_of_declares declared))
  have behind : w.around all post = all ∧ w.space ns all post = ns :=
    around_of_behind ns post_placed inside.2
  obtain ⟨around_eq, space_eq⟩ := behind
  have member : .stmt t ∈ all.map Node.stmt := by
    rw [split]
    simp
  rw [Walk.start, around_eq, space_eq, nodes_declaration placed member rfl declared]
  rfl

/-- The scan for the scope at the offset comes to the same as a walk through the code of the
namespace around it. -/
theorem scopeAmong_eq (ns : Option String) {all pre rest : List Stmt} (split : all = pre ++ rest)
    (placed : Placed lo hi (all.map .stmt)) :
    (w.scopeAmong ns all rest).close =
      (w.nodes (w.start ns all rest) ((w.around all rest).map .stmt)).close := by
  fun_induction scopeAmong w ns all rest generalizing lo hi pre with
  | case1 ns all => rw [start, around, space, stmts_eq placed]
  | case2 ns all span name ss rest inside ih =>
    rw [start, around, if_pos inside, space, if_pos inside]
    have member : Node.stmt (.ns span name ss) ∈ all.map .stmt := by
      rw [split]
      simp
    exact ih (List.nil_append ss).symm (placed.of_mem member).parts
  | case3 ns all span name ss rest apart ih =>
    rw [start, around, if_neg apart, space, if_neg apart]
    exact ih (split.trans (List.append_cons _ _ _)) placed
  | case4 ns all d rest inside =>
    have declared : w.declares ns (.stmt (.classLike d)) = some (d.enclosing w.offset) :=
      if_pos inside
    have scope := close_scope_of_declaration ns split placed declared
    rw [view_classLike inside, enter_classLike inside] at scope
    rw [start, around.eq_def, space.eq_def, classLike_eq]
    exact scope
  | case6 ns all d rest inside =>
    have declared : w.declares ns (.stmt (.function d)) = some (.function ns d.name) :=
      if_pos inside
    have scope := close_scope_of_declaration ns split placed declared
    rw [view_function inside, enter_function inside] at scope
    rw [start, around.eq_def, space.eq_def, function_eq _ d (d.parameters.map Param.local_)]
    exact scope
  | case5 ns all d rest apart ih | case7 ns all d rest apart ih =>
    rw [start, around.eq_def, space.eq_def]
    exact ih (split.trans (List.append_cons _ _ _)) placed
  | case8 ns all t rest other _ _ ih =>
    rw [start, around, space]
    · exact ih (split.trans (List.append_cons _ _ _)) placed
    · exact other
    · exact other

theorem placed_around {all pre rest : List Stmt} (split : all = pre ++ rest)
    (placed : Placed lo hi (all.map .stmt)) : Placed lo hi ((w.around all rest).map .stmt) := by
  fun_induction around w all rest generalizing pre with
  | case1 => exact placed
  | case2 all span name ss rest inside ih =>
    have member : Node.stmt (.ns span name ss) ∈ all.map .stmt := by
      rw [split]
      simp
    exact ih (List.nil_append ss).symm (placed.of_mem member).parts
  | case3 all span name ss rest apart ih | case4 all t rest other ih =>
    exact ih (split.trans (List.append_cons _ _ _)) placed

theorem names_scopeAmong (ns : Option String) {all pre rest : List Stmt} (split : all = pre ++ rest)
    (placed : Placed lo hi (all.map .stmt)) :
    x ∈ (w.scopeAmong ns all rest).names ↔ w.IntroducesIn x ((w.around all rest).map .stmt) := by
  have sound : Sound w lo hi ((w.around all rest).map .stmt) :=
    sound_of_placed (placed_around split placed) _ (.refl _)
  have unbound : x ∉ (w.start ns all rest).names := List.not_mem_nil
  rw [← Scope.names_close, scopeAmong_eq ns split placed, Scope.names_close,
    sound.names _ rfl x, or_iff_right (fun known => unbound known.1)]

/-- The code of the namespace around the offset. -/
def home (w : Walk) : List Node :=
  (w.around w.reader.reading.program.statements w.reader.reading.program.statements).map .stmt

end Walk
end PhpSymbols
