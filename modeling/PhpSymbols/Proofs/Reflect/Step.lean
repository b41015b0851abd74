import PhpSymbols.Proofs.Reflect.Sound

/-!
# One step of a walk

* `Walk.enter`, `Walk.leave`: what a walk does in front of the parts of a node, and behind
  them;
* `node_eq`: a walk enters a node, goes through the parts of its view and leaves it;
* `node_closed`: a walk that has ended does nothing;
* `enter_frame`, `enter_outside`, `leave_frame`: entering a node changes the enclosing
  declaration only if the node is one around the offset, and leaving never does;
* `leave_enter_behind`: a node behind the offset is left as it was entered.
-/

namespace PhpSymbols
open Php

namespace Php

/-- How a class-like around an offset is known: by its method that holds the offset, or else
by itself. -/
def ClassDecl.enclosing (offset : Nat) : ClassDecl → Enclosing
  | .mk _ _ _ _ _ _ braces members =>
    match members.find? (Member.isMethodAround offset) with
    | some (.method _ _ name _ _ _) => .method braces.start name
    | _ => .classLike braces.start

end Php

/-- A node that binds nothing behind its parts and gives nothing back. -/
def Node.IsPlain : Node → Prop
  | .expr (.assign ..) | .iteration .. => False
  | _ => True

namespace Walk
variable (w : Walk)

/-! ### Entering -/

def enterFunction (s : Scope) (ns : Option String) : FunctionDecl → Scope
  | .mk span name ps _ b =>
    let s := { s with enclosing := some (.function ns name) }
    if b.span.insideBraces w.offset then
      s.bindParameters (w.reader.parameters (w.reader.docblock? span.start) ps)
    else s

def enterMethod (s : Scope) (start : Nat) (fqn : String) : Member → Scope
  | .method span ms name ps _ body =>
    let s := { s with enclosing := some (.method start name) }
    match body with
    | some b =>
      if b.span.insideBraces w.offset then
        let s := if ms.contains .static then s else s.bind "this" (Ty.ofClass fqn)
        s.bindParameters (w.reader.parameters (w.reader.docblock? span.start) ps)
      else s
    | none => s
  | _ => s

def enterClass (s : Scope) (ns : Option String) : ClassDecl → Scope
  | .mk _ _ _ name _ _ braces ms =>
    let s := { s with
      enclosing := some (.classLike braces.start)
      selfClass := some (qualify ns name) }
    (ms.find? (Member.isMethodAround w.offset)).elim s
      (w.enterMethod s braces.start (qualify ns name))

/-- The scope in which a walk goes through the parts of a statement that starts by the offset. -/
def enterStmt (s : Scope) : Stmt → Scope
  | .global _ names => s.bindAll (names.map fun name => (name, .mixed))
  | .staticVars _ names _ =>
    { s with locals := names.foldl (fun b name => b.bindIfAbsent name .mixed) s.locals }
  | .classLike d =>
    if d.span.encloses w.offset then w.enterClass { s with locals := {} } s.imports.ns d else s
  | .function d =>
    if d.span.encloses w.offset then w.enterFunction { s with locals := {} } s.imports.ns d else s
  | _ => s

/-- The scope in which a walk goes through the parts of a node. -/
def enter (s : Scope) : Node → Scope
  | .expr (.closure _ ps names b) =>
    if b.span.insideBraces w.offset then
      (s.captured names).bindParameters (w.reader.parameters none ps)
    else s
  | .expr (.arrow span ps _) =>
    if span.encloses w.offset then s.bindParameters (w.reader.parameters none ps) else s
  | .stmt t => if t.span.start ≤ w.offset then w.enterStmt s t else s
  | .iteration subject key value _ => iteration s subject key value
  | .catch_ (.mk span hint (some x) _) =>
    if span.start ≤ w.offset then
      s.bind x (w.reader.resolver.resolve (w.reader.reading.textAt hint).toList)
    else s
  | _ => s

/-- How the declaration that a node is is known, if the offset is in it. -/
def declares (ns : Option String) : Node → Option Enclosing
  | .stmt (.classLike d) => if d.span.encloses w.offset then some (d.enclosing w.offset) else none
  | .stmt (.function d) => if d.span.encloses w.offset then some (.function ns d.name) else none
  | _ => none

/-! ### Leaving -/

/-- Whether the offset is in the function or declaration that a node is, so that the walk ends
behind it. -/
def ends : Node → Bool
  | .expr (.closure _ _ _ b) => b.span.insideBraces w.offset
  | .expr (.arrow span _ _) => span.encloses w.offset
  | .stmt (.classLike d) => d.span.encloses w.offset
  | .stmt (.function d) => d.span.encloses w.offset
  | _ => false

/-- What becomes of the scope behind the parts of a node that was entered in the scope `s`. -/
def leave (s after : Scope) : Node → Scope
  | .expr (.assign span _ target value) =>
    if after.isClosed || w.offset < span.stop then after
    else after.bindTarget (after.valueTy value) target
  | .iteration _ key value b =>
    after.restore (if b.span.touches w.offset then [] else s.save (targetsOf key value))
  | n => if w.ends n then after.close else after

/-! ### Declarations -/

variable {w} {s : Scope}

theorem function_eq (ns : Option String) (d : FunctionDecl) (names : List String) :
    w.function s ns d = w.nodes (w.enterFunction s ns d) (w.viewBody names d.body).parts := by
  obtain ⟨span, name, ps, hint, braces, ss⟩ := d
  rw [function.eq_def, enterFunction, viewBody, FunctionDecl.body, Body.span]
  by_cases inside : braces.insideBraces w.offset = true
  · simp only [inside, if_true]
    rfl
  · simp only [inside]
    rfl

theorem members_eq (s : Scope) (start : Nat) (fqn : String) (ms : List Member) :
    w.members s start fqn ms =
      (ms.find? (Member.isMethodAround w.offset)).elim s (w.member s start fqn) := by
  induction ms with
  | nil => rw [members]; rfl
  | cons m ms ih =>
    rw [members]
    by_cases around : m.isMethodAround w.offset = true
    · rw [if_pos around, List.find?_cons_of_pos around]
      rfl
    · rw [if_neg around, List.find?_cons_of_neg around]
      exact ih

theorem classLike_eq (ns : Option String) (d : ClassDecl) :
    w.classLike s ns d = w.nodes (w.enterClass s ns d) (w.viewClass d).parts := by
  obtain ⟨span, kind, modifiers, name, parents, interfaces, braces, ms⟩ := d
  rw [classLike, members_eq, viewClass, ClassDecl.methodAround?, enterClass]
  cases found : ms.find? (Member.isMethodAround w.offset) with
  | none => rfl
  | some m =>
    cases m with
    | method span modifiers method ps hint body =>
      cases body with
      | none =>
        simp only [Option.elim, member, methodBody, enterMethod]
        rfl
      | some b =>
        obtain ⟨span, ss⟩ := b
        simp only [Option.elim, member, enterMethod, viewBody, Body.span]
        rw [methodBody.eq_def]
        by_cases inside : span.insideBraces w.offset = true
        · simp only [inside, if_true]
          rfl
        · simp only [inside]
          rfl
    | property | hookedProperty | constant | enumCase | traitUse =>
      exact absurd (List.find?_some found) Bool.false_ne_true

/-! ### The step -/

variable {lo hi : Nat}

theorem expr_step (e : Expr) (isOpen : s.isClosed = false) :
    w.expr s e = w.leave s (w.nodes (w.enter s (.expr e)) (w.viewExpr e).parts) (.expr e) := by
  rw [expr.eq_def, if_neg (Bool.eq_false_iff.1 isOpen)]
  cases e with
  | call span target args => exact w.exprs_eq _ args
  | new span target args => exact w.exprs_eq s args
  | array span es | longArray span es => exact w.elements_eq s es
  | conditional span c yes no =>
    have parts : (w.viewExpr (.conditional span c yes no)).parts =
      .expr c :: (yes.toList.map .expr ++ [.expr no]) := rfl
    rw [parts, nodes_cons, nodes_append, ← exprIfAny_eq]
    rfl
  | closure span ps names b =>
    obtain ⟨braces, ss⟩ := b
    simp only [viewExpr, enter, leave, ends, Body.span]
    by_cases inside : braces.insideBraces w.offset = true
    · simp only [inside, if_true]
      rfl
    · simp only [inside]
      rfl
  | arrow span ps value =>
    simp only [viewExpr, enter, leave, ends]
    by_cases inside : span.encloses w.offset = true
    · simp only [inside, if_true]
      rfl
    · simp only [inside]
      rfl
  | _ => rfl

theorem stmt_step {t : Stmt} (placed : Placed lo hi (Node.ofStmt t)) :
    w.stmt s t = w.leave s (w.nodes (w.enterStmt s t) (w.viewStmt t).parts) (.stmt t) := by
  cases t with
  | expression | markup | declare | use | other | ns | foreach | global | staticVars =>
    rw [stmt.eq_def]
    rfl
  | block | whileLoop | doWhile =>
    rw [stmt]
    exact stmts_eq placed
  | ret span value =>
    rw [stmt]
    exact w.exprIfAny_eq s value
  | echo span values =>
    rw [stmt]
    exact w.exprs_eq s values
  | ifElse span c body elseIfs otherwise =>
    have segments : Placed lo hi ([.expr c] ++ (body.map .stmt ++
      (elseIfs.map .elseIf ++ otherwise.map .stmt))) := placed
    obtain ⟨_, -, rest⟩ := segments.of_append
    obtain ⟨_, body_placed, rest⟩ := rest.of_append
    obtain ⟨_, -, otherwise_placed⟩ := rest.of_append
    rw [stmt, stmts_eq body_placed, elseIfs_eq, stmts_eq otherwise_placed, ← nodes_append,
      ← nodes_append]
    rfl
  | forLoop span inits conditions steps body =>
    obtain ⟨_, -, body_placed⟩ := Placed.of_append placed
    rw [stmt, exprs_eq, stmts_eq body_placed, ← nodes_append]
    rfl
  | tryCatch span body catches last =>
    obtain ⟨_, body_placed, rest⟩ := Placed.of_append placed
    obtain ⟨_, catches_placed, -⟩ := rest.of_append
    rw [stmt, stmts_eq body_placed, catches_eq catches_placed, ensureIfAny_eq, ← nodes_append,
      ← nodes_append]
    rfl
  | switch span subject cases =>
    rw [stmt, cases_eq]
    rfl
  | classLike d =>
    simp only [stmt, viewStmt, enterStmt, leave, ends]
    by_cases inside : d.span.encloses w.offset = true
    · simp only [inside, if_true, classLike_eq]
    · simp only [inside]
      rfl
  | function d =>
    simp only [stmt, viewStmt, enterStmt, leave, ends]
    by_cases inside : d.span.encloses w.offset = true
    · simp only [inside, if_true, function_eq _ d (d.parameters.map Param.local_)]
    · simp only [inside]
      rfl

/-- A walk does not end behind a statement that starts behind the offset. -/
theorem leave_stmt_behind (s after : Scope) {t : Stmt} (behind : w.offset < t.span.start) :
    w.leave s after (.stmt t) = after := by
  have apart : ∀ span : Span, w.offset < span.start → span.encloses w.offset ≠ true := by
    intro span behind
    simp only [Span.encloses, ne_eq, Bool.and_eq_true, decide_eq_true_eq]
    omega
  cases t with
  | classLike d => exact if_neg (apart d.span behind)
  | function d => exact if_neg (apart d.span behind)
  | _ => rfl

/-- A walk that has not ended enters a node, goes through the parts of its view and leaves it. -/
theorem node_eq {n : Node} (placed : Placed lo hi n.parts) (isOpen : s.isClosed = false) :
    w.node s n = w.leave s (w.nodes (w.enter s n) (w.view n).parts) n := by
  cases n with
  | expr e => exact expr_step e isOpen
  | stmt t =>
    rw [node, isOpen, view, enter]
    by_cases started : t.span.start ≤ w.offset
    · rw [if_pos started, if_pos started, if_neg (by simpa using started)]
      exact stmt_step placed
    · rw [if_neg started, if_neg started, if_pos (by simpa using started),
        leave_stmt_behind s _ (Nat.lt_of_not_le started)]
      rfl
  | element e => exact element_eq s e
  | elseIf e =>
    obtain ⟨c, ss⟩ := e
    obtain ⟨_, -, body⟩ := placed.of_cons
    rw [node, elseIf, stmts_eq body]
    rfl
  | case_ c =>
    obtain ⟨label, ss⟩ := c
    rw [node, case_]
    exact stmts_eq placed
  | body b =>
    obtain ⟨span, ss⟩ := b
    exact stmts_eq placed
  | ensure e =>
    obtain ⟨span, ss⟩ := e
    rw [node, ensure, view]
    split
    · exact stmts_eq placed
    · rfl
  | catch_ c =>
    obtain ⟨span, hint, name, ss⟩ := c
    by_cases started : span.start ≤ w.offset
    · cases name <;>
        simp only [node, view, enter, Catch.span, catch_, started, if_true, stmts_eq placed] <;> rfl
    · cases name <;> simp only [node, view, enter, Catch.span, started, if_false] <;> rfl
  | iteration subject key value b =>
    obtain ⟨span, ss⟩ := b
    rw [node, if_neg (Bool.eq_false_iff.1 isOpen)]
    rfl

/-! ### Walks that have ended -/

/-- A walk that has ended does nothing at what stands behind the offset. -/
theorem node_closed {n : Node} (placed : Placed lo hi [n]) (closed : s.isClosed = true)
    (behind : w.offset < lo) (parts : w.nodes s n.parts = s) : w.node s n = s := by
  cases n with
  | expr e => exact expr_closed closed e
  | stmt t =>
    rw [node, closed]
    rfl
  | iteration subject key value b =>
    obtain ⟨span, ss⟩ := b
    rw [node, if_pos closed]
  | catch_ c =>
    have start : lo ≤ c.span.start := placed.start_le List.mem_cons_self rfl
    rw [node, if_neg (by omega)]
  | ensure e =>
    obtain ⟨span, ss⟩ := e
    have start : lo ≤ span.start := placed.start_le List.mem_cons_self rfl
    rw [node, ensure, if_neg (by omega)]
  | element e => rw [node, element_eq]; exact parts
  | elseIf e =>
    obtain ⟨c, ss⟩ := e
    obtain ⟨_, -, body⟩ := placed.parts.of_cons
    rw [node, elseIf, stmts_eq body]
    exact parts
  | case_ c =>
    obtain ⟨label, ss⟩ := c
    rw [node, case_, stmts_eq placed.parts]
    exact parts
  | body b =>
    obtain ⟨span, ss⟩ := b
    rw [node, stmts_eq placed.parts]
    exact parts

/-! ### What entering and leaving change -/

theorem enterFunction_frame (s : Scope) (ns : Option String) (d : FunctionDecl) :
    w.enterFunction s ns d =
      { s with
        locals := (w.enterFunction s ns d).locals
        enclosing := some (.function ns d.name) } := by
  obtain ⟨span, name, ps, hint, b⟩ := d
  rw [enterFunction]
  split
  · rw [Scope.frame_bindParameters]
    rfl
  · rfl

theorem enterMethod_frame (s : Scope) (start : Nat) (fqn : String) {span : Span}
    {modifiers : List Modifier} {name : String} {ps : List Param} {hint : Option Span}
    {body : Option Body} : let m := Member.method span modifiers name ps hint body
    w.enterMethod s start fqn m =
      { s with
        locals := (w.enterMethod s start fqn m).locals
        enclosing := some (.method start name) } := by
  intro m
  cases body with
  | none => rfl
  | some b =>
    simp only [m, enterMethod]
    split
    · rw [Scope.frame_bindParameters]
      split <;> rfl
    · rfl

theorem enterClass_frame (s : Scope) (ns : Option String) (d : ClassDecl) :
    w.enterClass s ns d =
      { s with
        locals := (w.enterClass s ns d).locals
        enclosing := some (d.enclosing w.offset)
        selfClass := (w.enterClass s ns d).selfClass } := by
  obtain ⟨span, kind, modifiers, name, parents, interfaces, braces, ms⟩ := d
  rw [enterClass, ClassDecl.enclosing]
  cases found : ms.find? (Member.isMethodAround w.offset) with
  | none => rfl
  | some m =>
    cases m with
    | method =>
      rw [Option.elim, enterMethod_frame]
    | property | hookedProperty | constant | enumCase | traitUse =>
      exact absurd (List.find?_some found) Bool.false_ne_true

/-- Entering a node that is no declaration around the offset changes the variables alone. -/
theorem enter_outside {n : Node} {ns : Option String} (outside : w.declares ns n = none) :
    w.enter s n = { s with locals := (w.enter s n).locals } := by
  cases n with
  | expr e =>
    cases e with
    | closure span ps names b =>
      rw [enter]
      split
      · rw [Scope.frame_bindParameters, Scope.frame_captured]
      · rfl
    | arrow span ps value =>
      rw [enter]
      split
      · exact Scope.frame_bindParameters _ _
      · rfl
    | _ => rfl
  | stmt t =>
    rw [enter]
    split
    · cases t with
      | global span names => exact Scope.frame_bindAll _ _
      | classLike d | function d =>
        rw [declares] at outside
        rw [enterStmt]
        split at outside
        · cases outside
        · rename_i apart
          simp only [apart, Bool.false_eq_true, if_false]
      | _ => rfl
    · rfl
  | iteration subject key value b => exact frame_iteration s subject key value
  | catch_ c =>
    obtain ⟨span, hint, name, ss⟩ := c
    cases name with
    | none => rfl
    | some x =>
      rw [enter]
      split <;> rfl
  | _ => rfl

theorem enter_classLike {d : ClassDecl} (inside : d.span.encloses w.offset = true) (s : Scope) :
    w.enter s (.stmt (.classLike d)) = w.enterClass { s with locals := {} } s.imports.ns d := by
  have started : (Stmt.classLike d).span.start ≤ w.offset := (Span.encloses_iff.1 inside).1
  rw [enter, if_pos started, enterStmt]
  exact if_pos inside

theorem enter_function {d : FunctionDecl} (inside : d.span.encloses w.offset = true) (s : Scope) :
    w.enter s (.stmt (.function d)) = w.enterFunction { s with locals := {} } s.imports.ns d := by
  have started : (Stmt.function d).span.start ≤ w.offset := (Span.encloses_iff.1 inside).1
  rw [enter, if_pos started, enterStmt]
  exact if_pos inside

theorem declares_eq_some {n : Node} {ns : Option String} {key : Enclosing}
    (declared : w.declares ns n = some key) :
    (∃ d, n = .stmt (.classLike d) ∧ d.span.encloses w.offset = true ∧
      key = d.enclosing w.offset) ∨
    ∃ d, n = .stmt (.function d) ∧ d.span.encloses w.offset = true ∧
      key = .function ns d.name := by
  unfold declares at declared
  split at declared
  · split at declared
    · rename_i d inside
      exact .inl ⟨d, rfl, inside, (Option.some.inj declared).symm⟩
    · cases declared
  · split at declared
    · rename_i d inside
      exact .inr ⟨d, rfl, inside, (Option.some.inj declared).symm⟩
    · cases declared
  · cases declared

/-- Entering a declaration around the offset makes it the enclosing one. -/
theorem enter_frame (s : Scope) (n : Node) :
    w.enter s n =
      { s with
        locals := (w.enter s n).locals
        enclosing := (w.declares s.imports.ns n).or s.enclosing
        selfClass := (w.enter s n).selfClass } := by
  cases declared : w.declares s.imports.ns n with
  | none =>
    rw [enter_outside declared]
    rfl
  | some key =>
    rcases declares_eq_some declared with ⟨d, rfl, inside, rfl⟩ | ⟨d, rfl, inside, rfl⟩
    · rw [enter_classLike inside, enterClass_frame]
      rfl
    · rw [enter_function inside, enterFunction_frame]
      rfl

/-! ### What leaving changes -/

theorem leave_plain {n : Node} (plain : n.IsPlain) (s after : Scope) :
    w.leave s after n = if w.ends n then after.close else after := by
  cases n with
  | expr e =>
    cases e with
    | assign => exact plain.elim
    | _ => rfl
  | iteration => exact plain.elim
  | _ => rfl

theorem leave_frame (s after : Scope) (n : Node) :
    w.leave s after n =
      { after with
        locals := (w.leave s after n).locals
        isClosed := (w.leave s after n).isClosed } := by
  by_cases plain : n.IsPlain
  · rw [leave_plain plain]
    split <;> rfl
  · cases n with
    | expr e =>
      cases e with
      | assign span operator target value =>
        rw [leave]
        split
        · rfl
        · rw [Scope.frame_bindTarget]
      | _ => exact absurd trivial plain
    | iteration subject key value b => rw [leave, Scope.frame_restore]
    | _ => exact absurd trivial plain

/-! ### Behind the offset -/

/-- A walk ends only at a node that the offset is in. -/
theorem around_of_ends {n : Node} (placed : Placed lo hi [n]) (ended : w.ends n = true) :
    lo ≤ w.offset ∧ w.offset < hi := by
  have around : ∀ {n : Node} {span : Span}, Placed lo hi [n] → n.span? = some span →
      span.start ≤ w.offset ∧ w.offset < span.stop → lo ≤ w.offset ∧ w.offset < hi := by
    intro n span placed same inside
    have := placed.span_le List.mem_cons_self same
    omega
  unfold ends at ended
  split at ended
  · have := Span.insideBraces_iff.1 ended
    exact around placed.parts rfl (by omega)
  · exact around placed rfl (Span.encloses_iff.1 ended)
  · exact around placed rfl (Span.encloses_iff.1 ended)
  · exact around placed rfl (Span.encloses_iff.1 ended)
  · cases ended

theorem enter_behind {n : Node} (plain : n.IsPlain) (placed : Placed lo hi [n])
    (behind : w.offset < lo) (s : Scope) : w.enter s n = s := by
  have apart : w.ends n ≠ true := fun ended => by
    have := around_of_ends placed ended
    omega
  cases n with
  | expr e =>
    cases e with
    | closure | arrow =>
      rw [enter]
      exact if_neg apart
    | _ => rfl
  | stmt t =>
    have start : lo ≤ t.span.start := placed.start_le List.mem_cons_self rfl
    rw [enter, if_neg (by omega)]
  | catch_ c =>
    obtain ⟨span, hint, name, ss⟩ := c
    have start : lo ≤ span.start := placed.start_le List.mem_cons_self rfl
    cases name with
    | none => rfl
    | some x => rw [enter, if_neg (by omega)]
  | iteration => exact plain.elim
  | _ => rfl

/-- A node behind the offset is left as it was entered: what a loop there binds to its
targets it takes back. -/
theorem leave_enter_behind {n : Node} (placed : Placed lo hi [n]) (behind : w.offset < lo)
    (s : Scope) : w.leave s (w.enter s n) n = s := by
  by_cases plain : n.IsPlain
  · have apart : w.ends n ≠ true := fun ended => by
      have := around_of_ends placed ended
      omega
    rw [leave_plain plain, if_neg apart, enter_behind plain placed behind]
  · cases n with
    | expr e =>
      cases e with
      | assign span operator target value =>
        have := placed.span_le List.mem_cons_self rfl
        simp only [Expr.span] at this
        rw [leave]
        refine if_pos ?_
        rw [Bool.or_eq_true, decide_eq_true_eq]
        right
        omega
      | _ => exact absurd trivial plain
    | iteration subject key value b =>
      have start : lo ≤ b.span.start := placed.start_le List.mem_cons_self rfl
      have apart : b.span.touches w.offset ≠ true := fun touched => by
        have := Span.touches_iff.1 touched
        omega
      rw [leave, if_neg apart]
      exact restore_iteration s subject key value
    | _ => exact absurd trivial plain

end Walk
end PhpSymbols
