import PhpSymbols.Proofs.Reflect.Binds

/-!
# The names that a walk leaves in scope

* `names_enter`: entering a node binds the names of its view, in a scope of its own if
  one starts there;
* `sound_assign`, `sound_iteration`, `sound_plain`: each kind of node keeps what holds of
  walks;
* `sound_node`, `sound_of_placed`: so every node does, and every placed tree has it.
-/

namespace PhpSymbols
open Php

namespace Walk
variable {w : Walk} {lo hi : Nat}

/-! ### What is bound on entering -/

theorem names_parameters (r : Reader) (doc : Option Docblock) (ps : List Param) :
    (r.parameters doc ps).map (·.name) = ps.map Param.local_ := by
  rw [Reader.parameters, List.map_map]
  apply List.map_congr_left
  rintro ⟨⟩ -
  rfl

theorem names_bindParameters (s : Scope) (doc : Option Docblock) (ps : List Param) (x : String) :
    x ∈ (s.bindParameters (w.reader.parameters doc ps)).names ↔
      x ∈ ps.map Param.local_ ∨ x ∈ s.names := by
  rw [s.mem_names_bindParameters, names_parameters]

theorem names_enterFunction {s : Scope} (ns : Option String) (d : FunctionDecl)
    (blank : s.names = []) (x : String) : x ∈ (w.enterFunction s ns d).names ↔
      x ∈ (w.viewBody (d.parameters.map Param.local_) d.body).own := by
  obtain ⟨span, name, ps, hint, b⟩ := d
  rw [enterFunction, FunctionDecl.body, FunctionDecl.parameters, viewBody]
  split
  · rw [names_bindParameters]
    exact or_iff_left (blank ▸ List.not_mem_nil)
  · exact iff_of_false (blank ▸ List.not_mem_nil) List.not_mem_nil

theorem names_enterClass {s : Scope} (ns : Option String) (d : ClassDecl)
    (blank : s.names = []) (x : String) :
    x ∈ (w.enterClass s ns d).names ↔ x ∈ (w.viewClass d).own := by
  have unbound : ∀ x, x ∉ s.names := fun x => blank ▸ List.not_mem_nil
  obtain ⟨span, kind, modifiers, name, parents, interfaces, braces, ms⟩ := d
  rw [enterClass, viewClass, ClassDecl.methodAround?]
  cases found : ms.find? (Member.isMethodAround w.offset) with
  | none => exact iff_of_false (unbound x) List.not_mem_nil
  | some m =>
    cases m with
    | method span modifiers method ps hint body =>
      cases body with
      | none => exact iff_of_false (unbound x) List.not_mem_nil
      | some b =>
        simp only [Option.elim, enterMethod, viewBody]
        split
        · rw [names_bindParameters, List.mem_append]
          split
          · exact or_comm.trans (or_congr_left (iff_of_false (unbound x) List.not_mem_nil))
          · rw [Scope.mem_names_bind, List.mem_singleton, or_comm]
            exact or_congr_left (or_iff_left (unbound x))
        · exact iff_of_false (unbound x) List.not_mem_nil
    | property | hookedProperty | constant | enumCase | traitUse =>
      exact absurd (List.find?_some found) Bool.false_ne_true

theorem names_enterStmt (s : Scope) (t : Stmt) (x : String) :
    x ∈ (w.enterStmt s t).names ↔
      x ∈ (w.viewStmt t).own ∨ (w.viewStmt t).resets = false ∧ x ∈ s.names := by
  have kept : x ∈ s.names ↔ x ∈ ([] : List String) ∨ false = false ∧ x ∈ s.names := by simp
  cases t with
  | global span names =>
    rw [enterStmt, viewStmt, Scope.mem_names_bindAll, List.map_map]
    simp [Function.comp_def]
  | staticVars span names initials =>
    rw [enterStmt, viewStmt]
    exact (Scope.mem_names_static s.locals names x).trans (or_congr_right (by simp [Scope.names]))
  | classLike d =>
    rw [enterStmt, viewStmt]
    split
    · have resets := (viewClass_frame (w := w) d).1
      rw [names_enterClass _ d rfl]
      simp [resets]
    · exact kept
  | function d =>
    rw [enterStmt, viewStmt]
    split
    · have resets := (viewBody_frame (w := w) (d.parameters.map Param.local_) d.body).1
      rw [names_enterFunction _ d rfl]
      simp [resets]
    · exact kept
  | _ => exact kept

theorem names_enter {n : Node} (plain : n.IsPlain) (s : Scope) (x : String) :
    x ∈ (w.enter s n).names ↔ x ∈ (w.view n).own ∨ (w.view n).resets = false ∧ x ∈ s.names := by
  have kept : x ∈ s.names ↔ x ∈ ([] : List String) ∨ false = false ∧ x ∈ s.names := by simp
  cases n with
  | expr e =>
    cases e with
    | assign => exact plain.elim
    | closure span ps captured b =>
      rw [enter, view, viewExpr]
      split
      · rw [names_bindParameters, Scope.mem_names_captured]
        simp [or_comm]
      · exact kept
    | arrow span ps value =>
      rw [enter, view, viewExpr]
      split
      · rw [names_bindParameters]
        simp
      · exact kept
    | _ => exact kept
  | stmt t =>
    rw [enter, view]
    split
    · exact names_enterStmt s t x
    · exact kept
  | catch_ c =>
    obtain ⟨span, hint, name, ss⟩ := c
    cases name with
    | none =>
      have entered : w.enter s (.catch_ (.mk span hint none ss)) = s := rfl
      rw [entered, view]
      split <;> exact kept
    | some n =>
      rw [enter, view]
      split
      · rw [Scope.mem_names_bind]
        simp
      · exact kept
  | ensure e =>
    obtain ⟨span, ss⟩ := e
    rw [view]
    split <;> exact kept
  | iteration => exact plain.elim
  | element | elseIf | case_ | body => exact kept

/-! ### Each kind of node -/

theorem ends_of_resets {n : Node} (resets : (w.view n).resets = true) : w.ends n = true := by
  cases n with
  | expr e =>
    cases e with
    | closure span ps captured b =>
      rw [view, viewExpr] at resets
      split at resets
      · assumption
      · cases resets
    | assign | arrow =>
      rw [view, viewExpr] at resets
      split at resets <;> cases resets
    | _ => cases resets
  | stmt t =>
    rw [view] at resets
    split at resets
    · cases t with
      | classLike | function =>
        rw [viewStmt] at resets
        split at resets
        · assumption
        · cases resets
      | _ => cases resets
    · cases resets
  | catch_ c =>
    obtain ⟨span, hint, name, ss⟩ := c
    rw [view] at resets
    split at resets <;> cases resets
  | ensure e =>
    obtain ⟨span, ss⟩ := e
    rw [view] at resets
    split at resets <;> cases resets
  | element | iteration | elseIf | case_ | body => cases resets

/-- What a node may end and what it may bind leave no trace if the offset is not there. -/
theorem Sound.of_names {n : Node} (placed : Placed lo hi [n])
    (parts : ∀ ms, ms.Sublist n.parts → Sound w lo hi ms)
    (within : ∀ s : Scope, s.isClosed = false → (w.node s n).isClosed = true →
      lo ≤ w.offset ∧ w.offset < hi)
    (names : ∀ s : Scope, s.isClosed = false → ∀ x, (x ∈ (w.node s n).names ↔
      (x ∈ (w.view n).own ∨ (w.view n).resets = false ∧ x ∈ s.names) ∧
          w.Passes (w.view n).parts ∨
        x ∉ w.finished n ∧ w.IntroducesIn x (w.view n).parts)) :
    Sound w lo hi [n] := by
  apply Sound.of_view rfl (parts _ (view_sublist n)) ?_ within names
  · intro resets
    exact around_of_ends placed (ends_of_resets resets)
  · intro x bound
    exact (binds_of_own bound).le placed
  · intro s closed behind
    exact node_closed placed closed behind ((parts _ (.refl _)).still s closed behind)

/-- A node is sound that binds what it does on entering. -/
theorem sound_plain {n : Node} (plain : n.IsPlain) (placed : Placed lo hi [n])
    (parts : ∀ ms, ms.Sublist n.parts → Sound w lo hi ms) : Sound w lo hi [n] := by
  have inner : Sound w lo hi (w.view n).parts := parts _ (view_sublist n)
  have entered : ∀ s : Scope, s.isClosed = false → (w.enter s n).isClosed = false := by
    intro s isOpen
    rw [enter_frame]
    exact isOpen
  have shown : w.finished n = [] := by
    cases n with
    | iteration => exact plain.elim
    | _ => rfl
  apply Sound.of_names placed parts
  · intro s isOpen closed
    rw [node_eq placed.parts isOpen, leave_plain plain] at closed
    split at closed
    · rename_i ended
      exact around_of_ends placed ended
    · exact inner.within _ (entered s isOpen) closed
  · intro s isOpen x
    have same : (w.node s n).names = (w.nodes (w.enter s n) (w.view n).parts).names := by
      rw [node_eq placed.parts isOpen, leave_plain plain]
      split <;> rfl
    rw [same, inner.names _ (entered s isOpen) x, names_enter plain, shown,
      and_iff_right List.not_mem_nil]

/-- An assignment binds its target behind its value, if it ends by the offset. -/
theorem sound_assign {span : Span} {operator : String} {target value : Expr}
    (placed : Placed span.start span.stop [.expr (.assign span operator target value)])
    (parts : ∀ ms, ms.Sublist [.expr value] → Sound w span.start span.stop ms) :
    Sound w span.start span.stop [.expr (.assign span operator target value)] := by
  have inner := parts _ (.refl _)
  have le := inner.le
  have step : ∀ s : Scope, s.isClosed = false →
      w.node s (.expr (.assign span operator target value)) =
        w.leave s (w.nodes s [.expr value]) (.expr (.assign span operator target value)) :=
    fun s isOpen => node_eq placed.parts isOpen
  have shown : ∀ x, x ∉ w.finished (.expr (.assign span operator target value)) :=
    fun x => List.not_mem_nil
  apply Sound.of_names placed parts
  · intro s isOpen closed
    apply inner.within s isOpen
    rw [step s isOpen, leave] at closed
    split at closed
    · exact closed
    · rwa [Scope.isClosed_bindTarget] at closed
  · intro s isOpen x
    have names := inner.names s isOpen x
    rw [step s isOpen, leave, view, viewExpr]
    by_cases ended : span.stop ≤ w.offset
    · have value_open := inner.isClosed_nodes (by omega) isOpen
      have passes := inner.passes (by omega)
      rw [value_open, if_pos ended, if_neg (by simpa using ended), Scope.mem_names_bindTarget,
        names]
      simp only [passes, shown, and_true, true_and, not_false_eq_true, or_assoc]
    · rw [if_neg ended, if_pos (by rw [Bool.or_eq_true, decide_eq_true_eq]; right; omega), names]
      simp [shown]

/-- A loop keeps its targets while the offset is in its body, and gives them back what they
were once it is finished. -/
theorem sound_iteration {subject : Expr} {key : Option Expr} {value : Expr} {b : Body}
    (placed : Placed b.span.start b.span.stop [.iteration subject key value b])
    (parts : ∀ ms, ms.Sublist [.body b] → Sound w b.span.start b.span.stop ms) :
    Sound w b.span.start b.span.stop [.iteration subject key value b] := by
  have inner := parts _ (.refl _)
  have entered : ∀ s : Scope, s.isClosed = false →
      (iteration s subject key value).isClosed = false := by
    intro s isOpen
    rw [frame_iteration]
    exact isOpen
  have step : ∀ s : Scope, s.isClosed = false → w.node s (.iteration subject key value b) =
      (w.nodes (iteration s subject key value) [.body b]).restore
        (if b.span.touches w.offset then [] else s.save (targetsOf key value)) :=
    fun s isOpen => node_eq placed.parts isOpen
  apply Sound.of_names placed parts
  · intro s isOpen closed
    rw [step s isOpen, Scope.isClosed_restore] at closed
    exact inner.within _ (entered s isOpen) closed
  · intro s isOpen x
    have names := inner.names _ (entered s isOpen) x
    rw [mem_names_iteration] at names
    rw [step s isOpen, view, finished]
    split
    · rw [Scope.restore, List.foldl_nil, names]
      simp
    · rename_i apart
      have outside := mt Span.touches_iff.2 apart
      have passes := inner.passes (by omega)
      rw [Scope.mem_names_restore, names]
      by_cases target : x ∈ targetsOf key value
      · simp [target, passes]
      · simp [target, passes]

/-- Every kind of node keeps what holds of walks. -/
theorem sound_node {n : Node}
    (span : ∀ span, n.span? = some span → lo = span.start ∧ hi = span.stop)
    (placed : Placed lo hi [n]) (parts : ∀ ms, ms.Sublist n.parts → Sound w lo hi ms) :
    Sound w lo hi [n] := by
  by_cases plain : n.IsPlain
  · exact sound_plain plain placed parts
  · cases n with
    | expr e =>
      obtain ⟨rfl, rfl⟩ := span _ rfl
      cases e with
      | assign => exact sound_assign placed parts
      | _ => exact absurd trivial plain
    | iteration subject key value b =>
      obtain ⟨rfl, rfl⟩ := span _ rfl
      exact sound_iteration placed parts
    | _ => exact absurd trivial plain

/-- Nodes in place are sound, and so is every choice among them. -/
theorem sound_of_placed {ns : List Node} (h : Placed lo hi ns) :
    ∀ ms, ms.Sublist ns → Sound w lo hi ms := by
  induction h with
  | nil le =>
    intro ms sub
    obtain rfl := List.sublist_nil.1 sub
    exact .nil le
  | spanned span start inside rest ih_inside ih_rest =>
    intro ms sub
    cases sub with
    | cons _ sub => exact (ih_rest ms sub).weaken (by have := inside.le; omega) (Nat.le_refl _)
    | cons_cons _ sub =>
      have place : Placed _ _ [_] := .spanned span (Nat.le_refl _) inside (.nil (Nat.le_refl _))
      have head := sound_node (fun _ same => by simp_all) place ih_inside
      exact (head.weaken start (Nat.le_refl _)).append (ih_rest _ sub)
  | bare span inside rest ih_inside ih_rest =>
    intro ms sub
    cases sub with
    | cons _ sub => exact (ih_rest ms sub).weaken inside.le (Nat.le_refl _)
    | cons_cons _ sub =>
      have place : Placed _ _ [_] := .bare span inside (.nil (Nat.le_refl _))
      have head := sound_node (fun _ same => by simp_all) place ih_inside
      exact head.append (ih_rest _ sub)

end Walk
end PhpSymbols
