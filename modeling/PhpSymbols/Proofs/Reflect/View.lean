import PhpSymbols.Proofs.Reflect.Placed

/-!
# What a walk finds

* `Walk.view`: what a walk towards an offset does at a node: which names it binds
  there, which parts it goes through, and whether a scope of its own starts there;
* `view_sublist`: these are parts of the node, in their order;
* `Walk.finished`: the names that a finished loop gives back;
* `Walk.Enters`: a scope of its own starts in the node and holds the offset;
* `Walk.Introduces`: the walk through the node leaves a name in scope.
-/

namespace PhpSymbols
open Php

namespace Php

/-- The local name of a parameter. -/
def Param.local_ : Param → String
  | .mk _ _ _ _ name _ _ => plainName name

def FunctionDecl.parameters : FunctionDecl → List Param
  | .mk _ _ ps _ _ => ps

/-- The method around an offset: whether it is static, its parameters and its body. -/
def ClassDecl.methodAround? (offset : Nat) : ClassDecl → Option (Bool × List Param × Body)
  | .mk _ _ _ _ _ _ _ members =>
    match members.find? (Member.isMethodAround offset) with
    | some (.method _ ms _ ps _ (some b)) => some (ms.contains .static, ps, b)
    | _ => none

end Php

/-- The parts of a node that are walked in the scope of the node itself. -/
def Node.inner : Node → List Node
  | .expr (.closure ..) | .expr (.arrow ..) => []
  | .stmt (.classLike _) | .stmt (.function _) | .stmt (.ns ..) => []
  | n => n.parts

theorem Node.inner_sublist (n : Node) : n.inner.Sublist n.parts := by
  unfold Node.inner
  split
  all_goals first | exact List.nil_sublist _ | exact List.Sublist.refl _

/-- What a walk does at a node. -/
structure View where
  /-- A scope of its own holds the offset: no name from outside is in it. -/
  resets : Bool := false
  /-- The names bound here. -/
  own : List String := []
  /-- The nodes gone through. -/
  parts : List Node := []

namespace Walk
variable (w : Walk)

/-- The view of a function around the offset: nothing is bound outside its braces. -/
def viewBody (names : List String) (b : Body) : View :=
  if b.span.insideBraces w.offset then ⟨true, names, [.body b]⟩ else { resets := true }

def viewExpr : Expr → View
  | .assign span _ target value =>
    { own := if span.stop ≤ w.offset then Scope.targetNames target else [], parts := [.expr value] }
  | .closure _ ps captured b =>
    if b.span.insideBraces w.offset then ⟨true, captured ++ ps.map Param.local_, [.body b]⟩
    else {}
  | .arrow span ps value =>
    if span.encloses w.offset then { own := ps.map Param.local_, parts := [.expr value] } else {}
  | e => { parts := Node.ofExpr e }

/-- The names that a class-like binds around the offset, in the method that holds it. -/
def viewClass (d : ClassDecl) : View :=
  match d.methodAround? w.offset with
  | some (isStatic, ps, b) =>
    w.viewBody ((if isStatic then [] else ["this"]) ++ ps.map Param.local_) b
  | none => { resets := true }

def viewStmt : Stmt → View
  | .global _ names | .staticVars _ names _ => { own := names }
  | .classLike d => if d.span.encloses w.offset then w.viewClass d else {}
  | .function d =>
    if d.span.encloses w.offset then w.viewBody (d.parameters.map Param.local_) d.body else {}
  | .ns .. => {}
  | t => { parts := Node.ofStmt t }

/-- The names that a loop over targets binds. -/
def targetsOf (key : Option Expr) (value : Expr) : List String :=
  (key.map Scope.targetNames).getD [] ++ Scope.targetNames value

def view : Node → View
  | .expr e => w.viewExpr e
  | .stmt t => if t.span.start ≤ w.offset then w.viewStmt t else {}
  | .iteration _ key value b =>
    { own := if b.span.touches w.offset then targetsOf key value else [], parts := [.body b] }
  | .catch_ (.mk span _ name ss) =>
    if span.start ≤ w.offset then { own := name.toList, parts := ss.map .stmt } else {}
  | .ensure (.mk span ss) => if span.start ≤ w.offset then { parts := ss.map .stmt } else {}
  | n => { parts := n.parts }

/-- The names that the loop of a node gives back what they were, once it is finished. -/
def finished : Node → List String
  | .iteration _ key value b => if b.span.touches w.offset then [] else targetsOf key value
  | _ => []

/-- The offset is in a scope of its own that starts in the node. -/
inductive Enters : Node → Prop where
  | resets {n : Node} : (w.view n).resets = true → Enters n
  | part {n m : Node} : m ∈ (w.view n).parts → Enters m → Enters n

/-- None of the nodes has a scope of its own around the offset. -/
def Passes (ns : List Node) : Prop := ∀ n ∈ ns, ¬ w.Enters n

mutual

/-- The walk through the node leaves the name in scope. -/
inductive Introduces (x : String) : Node → Prop where
  | own {n : Node} : x ∈ (w.view n).own → w.Passes (w.view n).parts → Introduces x n
  | part {n : Node} : x ∉ w.finished n → IntroducesIn x (w.view n).parts → Introduces x n

/-- One of the nodes leaves the name in scope, and no scope of its own starts behind it. -/
inductive IntroducesIn (x : String) : List Node → Prop where
  | here {n : Node} {ns : List Node} : Introduces x n → w.Passes ns → IntroducesIn x (n :: ns)
  | later {n : Node} {ns : List Node} : IntroducesIn x ns → IntroducesIn x (n :: ns)

end

variable {w} {x : String}

/-! ### Parts -/

theorem viewBody_frame (names : List String) (b : Body) : (w.viewBody names b).resets = true ∧
    (w.viewBody names b).parts.Sublist [.body b] := by
  rw [viewBody]
  split
  · exact ⟨rfl, .refl _⟩
  · exact ⟨rfl, List.nil_sublist _⟩

theorem viewClass_frame (d : ClassDecl) : (w.viewClass d).resets = true ∧
    (w.viewClass d).parts.Sublist (d.bodies.map .body) := by
  obtain ⟨span, kind, modifiers, name, parents, interfaces, braces, ms⟩ := d
  rw [viewClass, ClassDecl.methodAround?]
  cases found : ms.find? (Member.isMethodAround w.offset) with
  | none => exact ⟨rfl, List.nil_sublist _⟩
  | some m =>
    have member := List.mem_of_find?_eq_some found
    cases m with
    | method span modifiers method ps hint body =>
      cases body with
      | none => exact ⟨rfl, List.nil_sublist _⟩
      | some b =>
        obtain ⟨resets, parts⟩ := viewBody_frame (w := w)
          ((if modifiers.contains .static then [] else ["this"]) ++ ps.map Param.local_) b
        refine ⟨resets, parts.trans (List.singleton_sublist.2 ?_)⟩
        exact List.mem_map_of_mem (List.mem_filterMap.2 ⟨_, member, rfl⟩)
    | property | hookedProperty | constant | enumCase | traitUse =>
      exact ⟨rfl, List.nil_sublist _⟩

theorem viewStmt_sublist (t : Stmt) : (w.viewStmt t).parts.Sublist (Node.ofStmt t) := by
  cases t with
  | classLike d =>
    rw [viewStmt]
    split
    · exact (viewClass_frame d).2
    · exact List.nil_sublist _
  | function d =>
    rw [viewStmt]
    split
    · exact (viewBody_frame _ d.body).2
    · exact List.nil_sublist _
  | ns | global | staticVars => exact List.nil_sublist _
  | _ => exact .refl _

/-- A walk goes through parts of the node, in their order. -/
theorem view_sublist (n : Node) : (w.view n).parts.Sublist n.parts := by
  cases n with
  | expr e =>
    cases e with
    | closure | arrow =>
      rw [view, viewExpr]
      split
      · exact .refl _
      · exact List.nil_sublist _
    | _ => exact .refl _
  | stmt t =>
    rw [view]
    split
    · exact viewStmt_sublist t
    · exact List.nil_sublist _
  | catch_ c =>
    obtain ⟨span, hint, name, ss⟩ := c
    rw [view]
    split
    · exact .refl _
    · exact List.nil_sublist _
  | ensure e =>
    obtain ⟨span, ss⟩ := e
    rw [view]
    split
    · exact .refl _
    · exact List.nil_sublist _
  | element | iteration | elseIf | case_ | body => exact .refl _

/-- A walk goes through all parts of a node that starts by the offset, other than those in a
scope of their own. -/
theorem mem_view_of_mem_inner {n k : Node} (member : k ∈ n.inner)
    (started : ∀ span, n.span? = some span → span.start ≤ w.offset) : k ∈ (w.view n).parts := by
  cases n with
  | expr e =>
    cases e with
    | closure | arrow => cases member
    | _ => exact member
  | stmt t =>
    rw [view, if_pos (started _ rfl)]
    cases t with
    | classLike | function | ns | global | staticVars => cases member
    | _ => exact member
  | catch_ c =>
    obtain ⟨span, hint, name, ss⟩ := c
    rw [view, if_pos (started span rfl)]
    exact member
  | ensure e =>
    obtain ⟨span, ss⟩ := e
    rw [view, if_pos (started span rfl)]
    exact member
  | element | iteration | elseIf | case_ | body => exact member

/-! ### Names and scopes -/

theorem enters_iff {n : Node} :
    w.Enters n ↔ (w.view n).resets = true ∨ ¬ w.Passes (w.view n).parts := by
  simp only [Passes, Classical.not_forall, Classical.not_not]
  constructor
  · intro h
    cases h with
    | resets h => exact .inl h
    | part member h => exact .inr ⟨_, member, h⟩
  · rintro (h | ⟨m, member, h⟩)
    · exact .resets h
    · exact .part member h

theorem introduces_iff {n : Node} :
    w.Introduces x n ↔ x ∈ (w.view n).own ∧ w.Passes (w.view n).parts ∨
      x ∉ w.finished n ∧ w.IntroducesIn x (w.view n).parts := by
  constructor
  · intro h
    cases h with
    | own h passes => exact .inl ⟨h, passes⟩
    | part shown h => exact .inr ⟨shown, h⟩
  · rintro (⟨h, passes⟩ | ⟨shown, h⟩)
    · exact .own h passes
    · exact .part shown h

theorem passes_nil : w.Passes [] := fun _ h => absurd h List.not_mem_nil

theorem passes_cons {n : Node} {ns : List Node} :
    w.Passes (n :: ns) ↔ ¬ w.Enters n ∧ w.Passes ns := List.forall_mem_cons

theorem passes_append {ms ns : List Node} :
    w.Passes (ms ++ ns) ↔ w.Passes ms ∧ w.Passes ns := List.forall_mem_append

theorem not_introducesIn_nil : ¬ w.IntroducesIn x [] := by
  intro h
  cases h

theorem introducesIn_cons {n : Node} {ns : List Node} :
    w.IntroducesIn x (n :: ns) ↔ w.Introduces x n ∧ w.Passes ns ∨ w.IntroducesIn x ns := by
  constructor
  · intro h
    cases h with
    | here h passes => exact .inl ⟨h, passes⟩
    | later h => exact .inr h
  · rintro (⟨h, passes⟩ | h)
    · exact .here h passes
    · exact .later h

theorem introducesIn_append {ms ns : List Node} :
    w.IntroducesIn x (ms ++ ns) ↔
      w.IntroducesIn x ms ∧ w.Passes ns ∨ w.IntroducesIn x ns := by
  induction ms with
  | nil => simp [not_introducesIn_nil]
  | cons m ms ih =>
    rw [List.cons_append, introducesIn_cons, introducesIn_cons, ih, passes_append]
    constructor
    · rintro (⟨h, hm, hn⟩ | ⟨h, hn⟩ | h)
      · exact .inl ⟨.inl ⟨h, hm⟩, hn⟩
      · exact .inl ⟨.inr h, hn⟩
      · exact .inr h
    · rintro (⟨⟨h, hm⟩ | h, hn⟩ | h)
      · exact .inl ⟨h, hm, hn⟩
      · exact .inr (.inl ⟨h, hn⟩)
      · exact .inr (.inr h)

end Walk
end PhpSymbols
