import PhpSymbols.Proofs.Reflect.Finished

/-!
# What a target binds

* `BindsExactly`: some names are bound to a type, one after another, and nothing else happens;
* `eraseDups_of_bindAll_eq`: what several bindings do shows which names they bind, in which order;
* `exists_bindAll_iteration`: the targets of a loop bind the names that the loop saves;
* `targetNames_bound`: a target binds exactly its names, and no others would do.
-/

namespace PhpSymbols
open Php

namespace Scope

/-- On the way from `s` to `s'` each of `ns` is bound to `t`, and nothing else happens. -/
structure BindsExactly (ns : List String) (t : Ty) (s s' : Scope) : Prop where
  /-- One binding after another, in the order of `ns`. -/
  bindings : s' = s.bindAll (ns.map fun x => (x, t))
  /-- New variables join the others in the order of `ns`. -/
  names : s'.names = s.names ++ ns.eraseDups.filter (· ∉ s.names)
  types : ∀ x, s'.locals.get? x = if x ∈ ns then some t else s.locals.get? x
  others : s'.locals.toList.filter (·.1 ∉ ns) = s.locals.toList.filter (·.1 ∉ ns)

theorem bindsExactly_bindAll (s : Scope) (ns : List String) (t : Ty) :
    BindsExactly ns t s (s.bindAll (ns.map fun x => (x, t))) where
  bindings := rfl
  names := by
    rw [names_bindAll_eq]
    simp [Function.comp_def]
  types := s.get?_bindAll_const ns t
  others := filter_bindAll (· ∉ ns) s (by simp)

/-- Bindings that do the same in an empty scope bind the same names in the same order. -/
theorem eraseDups_of_bindAll_eq {bs cs : List (String × Ty)}
    (same : ({} : Scope).bindAll bs = ({} : Scope).bindAll cs) :
    (bs.map (·.1)).eraseDups = (cs.map (·.1)).eraseDups := by
  have bound (bs : List (String × Ty)) :
      (({} : Scope).bindAll bs).names = (bs.map (·.1)).eraseDups := by
    rw [names_bindAll_eq]
    have none : ({} : Scope).names = [] := rfl
    simp [none]
  rw [← bound, ← bound, same]

end Scope

namespace Walk

/-! ### Loops -/

/-- The targets of a loop bind the names that the loop saves. -/
theorem exists_bindAll_iteration (s : Scope) (subject : Expr) (key : Option Expr) (value : Expr) :
    ∃ bs, bs.map (·.1) = targetsOf key value ∧ iteration s subject key value = s.bindAll bs := by
  let ofValue := (Scope.targetNames value).map fun x =>
    (x, Scope.targetTy (Scope.elementTy (subject.valueTy s.locals)) value)
  have values : ofValue.map (·.1) = Scope.targetNames value := by
    simp [ofValue, Function.comp_def]
  cases key with
  | none => exact ⟨ofValue, values, Scope.bindTarget_eq value s _⟩
  | some k =>
    let ofKey := (Scope.targetNames k).map fun x => (x, Scope.targetTy .mixed k)
    refine ⟨ofKey ++ ofValue, ?_, ?_⟩
    · rw [List.map_append, values]
      simp [ofKey, targetsOf, Function.comp_def]
    · rw [Scope.bindAll_append, ← Scope.bindTarget_eq, ← Scope.bindTarget_eq]
      rfl

/-- A target binds its names, one after another, and nothing else. Bindings of other names, or in
another order, do not do the same. So a loop saves the names that its targets bind, in the order
in which they are bound, and giving these back takes back just what was bound. -/
theorem targetNames_bound :
    (∀ (e : Expr) (s : Scope) (t : Ty), Scope.BindsExactly (Scope.targetNames e)
      (Scope.targetTy t e) s (s.bindTarget t e)) ∧
    (∀ (e : Expr) (t : Ty) (bs : List (String × Ty)),
      (∀ s : Scope, s.bindTarget t e = s.bindAll bs) →
        (bs.map (·.1)).eraseDups = (Scope.targetNames e).eraseDups) ∧
    ∀ (w : Walk) (s : Scope) (span bodySpan : Span) (subject value : Expr) (key : Option Expr)
      (body : List Stmt), (w.expr s subject).isClosed = false →
      let before := w.expr s subject
      ∃ bs : List (String × Ty), bs.map (·.1) = targetsOf key value ∧
        w.stmt s (.foreach span subject key value bodySpan body) =
          (w.stmts (before.bindAll bs) body).restore
            (if bodySpan.touches w.offset then [] else before.save (bs.map (·.1))) ∧
        (before.bindAll bs).restore (before.save (bs.map (·.1))) = before := by
  refine ⟨?binds, ?only, ?loop⟩
  case binds =>
    intro e s t
    rw [Scope.bindTarget_eq]
    exact s.bindsExactly_bindAll _ _
  case only =>
    intro e t bs same
    have bound := same {}
    rw [Scope.bindTarget_eq] at bound
    rw [Scope.eraseDups_of_bindAll_eq bound.symm]
    simp [Function.comp_def]
  case loop =>
    intro w s span bodySpan subject value key body isOpen before
    obtain ⟨bs, names, bound⟩ := exists_bindAll_iteration before subject key value
    refine ⟨bs, names, ?_, ?_⟩
    · rw [stmt_foreach_eq, if_neg (Bool.eq_false_iff.1 isOpen), iterate, bound, names]
    · rw [names, ← bound, restore_iteration]

/-- `['k' => $a, list(, $b), ...$c, [$b, $d]]` -/
def nestedTarget : Expr :=
  .array ⟨14, 54⟩ [.pair (.literal ⟨15, 18⟩ .string) (.var ⟨22, 24⟩ "a"),
    .value (.listing ⟨26, 36⟩ [.missing, .value (.var ⟨33, 35⟩ "b")]),
    .spread (.var ⟨41, 43⟩ "c"),
    .value (.array ⟨45, 53⟩ [.value (.var ⟨46, 48⟩ "b"), .value (.var ⟨50, 52⟩ "d")])]

/-- `$b` and `$c` are bound before. -/
def boundBefore : Scope := { locals := ⟨[("b", .scalar "int"), ("c", .scalar "string")]⟩ }

theorem targetNames_bound_nestedTarget : let w : Walk := ⟨⟨{}, {}⟩, 60⟩
    let after := boundBefore.bindTarget (.scalar "array") nestedTarget
    let subject := Expr.var ⟨8, 10⟩ "r"
    (Scope.targetNames nestedTarget = ["a", "b", "b", "d"] ∧ after.names = ["b", "c", "a", "d"] ∧
      after.locals.get? "b" = some .mixed ∧ after.locals.get? "c" = some (.scalar "string")) ∧
    ((∀ s : Scope, s.bindTarget .null (.array ⟨0, 8⟩ [.value (.var ⟨1, 3⟩ "x"),
        .value (.var ⟨5, 7⟩ "x")]) = s.bindAll [("x", .mixed)]) ∧
      ["x"].eraseDups = ["x", "x"].eraseDups) ∧
    (w.expr boundBefore subject).isClosed = false ∧
    ∃ bs : List (String × Ty), bs.map (·.1) = ["k", "a", "b", "b", "d"] ∧
      w.stmt boundBefore
          (.foreach ⟨0, 58⟩ subject (some (.var ⟨11, 13⟩ "k")) nestedTarget ⟨56, 58⟩ []) =
        (boundBefore.bindAll bs).restore (boundBefore.save (bs.map (·.1))) ∧
      (boundBefore.bindAll bs).restore (boundBefore.save (bs.map (·.1))) = boundBefore := by
  intro w after subject
  obtain ⟨binds, only, loop⟩ := targetNames_bound
  have bound := binds nestedTarget boundBefore (.scalar "array")
  have twice : ∀ s : Scope, s.bindTarget .null (.array ⟨0, 8⟩ [.value (.var ⟨1, 3⟩ "x"),
      .value (.var ⟨5, 7⟩ "x")]) = s.bindAll [("x", .mixed)] := by
    intro s
    have again := s.locals.bind_bind "x" .mixed .mixed
    exact congrArg (fun b => ({ s with locals := b } : Scope)) again
  refine ⟨⟨by decide, ?_, ?_, ?_⟩, ⟨twice, only _ _ _ twice⟩, by decide, ?_⟩
  · exact bound.names.trans (by decide)
  · exact (bound.types "b").trans (by decide)
  · exact (bound.types "c").trans (by decide)
  · obtain ⟨bs, names, walked, restored⟩ :=
      loop w boundBefore ⟨0, 58⟩ ⟨56, 58⟩ subject nestedTarget (some (.var ⟨11, 13⟩ "k")) []
        (by decide)
    exact ⟨bs, names.trans (by decide), walked, restored⟩

end Walk
end PhpSymbols
