import PhpSymbols.Proofs.Distinct
import PhpSymbols.Proofs.Symbol.Bindings
import PhpSymbols.Reflect.Scope

/-!
# Names in scope

What each binding step of a walk does to the names in scope.

* `frame_bindAll`, `frame_bindTarget`, `frame_restore`: binding changes the local variables
  and nothing else in the scope;
* `names_bindAll_eq`, `get?_bindAll_const`, `filter_bindAll`: what bindings one after another do to
  the order of the variables, to their types, and to the variables that they do not name;
* `valueTy_bind`: binding a variable to the type of a value leaves this type as it is;
* `bindTarget_eq`: a target binds its names one after another, so what holds of several
  bindings holds of it;
* `mem_names_bindAll`, `mem_names_bindTarget`, `mem_names_bindParameters`: what is
  bound joins the names;
* `mem_names_captured`: a closure starts with what it captures;
* `get?_restore`, `mem_names_restore`: restored names have the types that they had when saved,
  and are bound exactly if they were;
* `restore_save`, `restore_bindTarget`: restoring what was just saved changes nothing, and
  takes back a target of saved names;
* `Extends`, `extends_bindAll`, `extends_bindTarget`, `Extends.restore`: binding moves no name,
  and restoring none that was bound when the names were saved.
-/

namespace PhpSymbols.Scope
open Php

def names (s : Scope) : List String := s.locals.names

theorem names_close (s : Scope) : s.close.names = s.names := rfl

theorem mem_names_bind (s : Scope) (n : String) (t : Ty) (x : String) :
    x ∈ (s.bind n t).names ↔ x = n ∨ x ∈ s.names := s.locals.mem_names_bind n t x

theorem bindAll_cons (s : Scope) (b : String × Ty) (bs : List (String × Ty)) :
    s.bindAll (b :: bs) = (s.bind b.1 b.2).bindAll bs := rfl

theorem bindAll_append (s : Scope) (bs cs : List (String × Ty)) :
    s.bindAll (bs ++ cs) = (s.bindAll bs).bindAll cs := List.foldl_append

theorem frame_bindAll (s : Scope) (bs : List (String × Ty)) :
    s.bindAll bs = { s with locals := (s.bindAll bs).locals } := by
  induction bs generalizing s with
  | nil => rfl
  | cons b bs ih =>
    rw [bindAll_cons]
    exact ih _

theorem mem_names_bindAll (s : Scope) (bs : List (String × Ty)) (x : String) :
    x ∈ (s.bindAll bs).names ↔ x ∈ bs.map (·.1) ∨ x ∈ s.names := by
  induction bs generalizing s with
  | nil => simp [bindAll]
  | cons b bs ih =>
    rw [bindAll_cons, ih, mem_names_bind, List.map_cons, List.mem_cons]
    exact or_left_comm.trans or_assoc.symm

/-- Names that are bound for the first time join the others in the order of these first bindings. -/
theorem names_bindAll_eq (s : Scope) (bs : List (String × Ty)) :
    (s.bindAll bs).names = s.names ++ (bs.map (·.1)).eraseDups.filter (· ∉ s.names) := by
  induction bs using List.reverseRecOn with
  | nil => simp [bindAll]
  | append_singleton bs b ih =>
    have step : (s.bindAll (bs ++ [b])).names =
        if b.1 ∈ (s.bindAll bs).names then (s.bindAll bs).names
        else (s.bindAll bs).names ++ [b.1] := by
      rw [bindAll_append]
      exact (s.bindAll bs).locals.names_bind b.1 b.2
    have bound := s.mem_names_bindAll bs b.1
    rw [step, List.map_append, List.map_singleton, Distinct.eraseDups_concat]
    by_cases again : b.1 ∈ bs.map (·.1)
    · rw [if_pos (bound.2 (.inl again)), if_pos again, ih]
    · rw [if_neg again, List.filter_append]
      by_cases known : b.1 ∈ s.names
      · rw [if_pos (bound.2 (.inr known)), ih]
        simp [known]
      · rw [if_neg fun mem => (bound.1 mem).elim again known, ih]
        simp [known]

theorem names_bindAll {s : Scope} {bs : List (String × Ty)}
    (fresh : (s.names ++ bs.map (·.1)).Nodup) : (s.bindAll bs).names = s.names ++ bs.map (·.1) := by
  obtain ⟨-, distinct, apart⟩ := List.nodup_append.1 fresh
  have once : (bs.map (·.1)).eraseDups = bs.map (·.1) :=
    Distinct.eraseDupsBy_of_pairwise (distinct.imp fun h => by simpa using Ne.symm h)
  have new : (bs.map (·.1)).filter (· ∉ s.names) = bs.map (·.1) := by
    refine List.filter_eq_self.2 fun x mem => ?_
    rw [decide_eq_true_eq]
    exact fun known => apart x known x mem rfl
  rw [names_bindAll_eq, once, new]

/-- Names that are all bound to one type have it afterwards. -/
theorem get?_bindAll_const (s : Scope) (ns : List String) (t : Ty) (x : String) :
    (s.bindAll (ns.map fun n => (n, t))).locals.get? x =
      if x ∈ ns then some t else s.locals.get? x := by
  induction ns generalizing s with
  | nil => rfl
  | cons n ns ih =>
    rw [List.map_cons, bindAll_cons, ih, bind, Bindings.get?_bind]
    by_cases same : x = n <;> by_cases later : x ∈ ns <;> simp [same, later]

/-- The variables that are not named stay as they are. -/
theorem filter_bindAll (test : String → Bool) (s : Scope) {bs : List (String × Ty)}
    (other : ∀ b ∈ bs, test b.1 = false) :
    (s.bindAll bs).locals.toList.filter (test ·.1) = s.locals.toList.filter (test ·.1) := by
  induction bs generalizing s with
  | nil => rfl
  | cons b bs ih =>
    obtain ⟨first, rest⟩ := List.forall_mem_cons.1 other
    rw [bindAll_cons, ih _ rest]
    exact Bindings.filter_bindIn test first b.2 s.locals.toList

/-- A value has the same type behind its assignment to a variable, also if this stands in it. -/
theorem valueTy_bind (s : Scope) (x : String) :
    (e : Expr) → (s.bind x (s.valueTy e)).valueTy e = s.valueTy e
  | .paren _ inner => valueTy_bind s x inner
  | .assign _ _ _ value => valueTy_bind s x value
  | .var _ y => by
    simp only [valueTy, Expr.valueTy, Scope.bind, Bindings.get?_bind]
    split
    · rename_i same
      rw [same]
      rfl
    · rfl
  | .literal _ kind => by cases kind <;> rfl
  | .new .. | .name .. | .classWord .. | .template .. | .array .. | .longArray ..
  | .listing .. | .closure .. | .arrow .. | .call .. | .anonymousClass .. | .binary ..
  | .conditional .. | .unary .. | .throw .. | .construct .. => rfl

/-! ### Targets -/

/-- The type of what a target binds: that of the value for a variable, and none that is known for
the elements of a destructured value. -/
def targetTy (t : Ty) : Expr → Ty
  | .var .. => t
  | _ => .mixed

theorem targetTy_mixed (e : Expr) : targetTy .mixed e = .mixed := by
  cases e <;> rfl

mutual

/-- A target binds the names that it is made of, one after another. -/
theorem bindTarget_eq : (e : Expr) → (s : Scope) → (t : Ty) →
    s.bindTarget t e = s.bindAll ((targetNames e).map fun x => (x, targetTy t e))
  | .var _ x, s, t => by
    rw [bindTarget, targetNames]
    rfl
  | .listing _ es, s, t | .array _ es, s, t => by
    rw [bindTarget, targetNames]
    exact bindElements_eq es s
  | .name .., _, _ | .classWord .., _, _ | .literal .., _, _ | .template .., _, _
  | .longArray .., _, _ | .assign .., _, _ | .paren .., _, _ | .closure .., _, _
  | .arrow .., _, _ | .call .., _, _ | .new .., _, _ | .anonymousClass .., _, _
  | .binary .., _, _ | .conditional .., _, _ | .unary .., _, _ | .throw .., _, _
  | .construct .., _, _ => by rw [bindTarget, targetNames] <;> simp [bindAll]

theorem bindElements_eq : (es : List Element) → (s : Scope) →
    s.bindElements es = s.bindAll ((elementsNames es).map fun x => (x, .mixed))
  | [], s => by
    rw [bindElements, elementsNames]
    rfl
  | e :: es, s => by
    rw [bindElements, elementsNames, bindElements_eq es, bindElement_eq e, List.map_append,
      bindAll_append]

theorem bindElement_eq : (e : Element) → (s : Scope) →
    s.bindElement e = s.bindAll ((elementNames e).map fun x => (x, .mixed))
  | .pair _ value, s | .value value, s => by
    rw [bindElement, elementNames, bindTarget_eq value s .mixed, targetTy_mixed]
  | .spread _, s | .missing, s => by
    rw [bindElement, elementNames]
    rfl

end

theorem frame_bindTarget (e : Expr) (s : Scope) (t : Ty) :
    s.bindTarget t e = { s with locals := (s.bindTarget t e).locals } := by
  rw [bindTarget_eq]
  exact frame_bindAll s _

theorem isClosed_bindTarget (e : Expr) (s : Scope) (t : Ty) :
    (s.bindTarget t e).isClosed = s.isClosed := by rw [frame_bindTarget]

theorem mem_names_bindTarget (e : Expr) (s : Scope) (t : Ty) (x : String) :
    x ∈ (s.bindTarget t e).names ↔ x ∈ targetNames e ∨ x ∈ s.names := by
  rw [bindTarget_eq, mem_names_bindAll, List.map_map]
  simp [Function.comp_def]

/-! ### Parameters and captured variables -/

theorem frame_bindParameters (s : Scope) (ps : List Parameter) :
    s.bindParameters ps = { s with locals := (s.bindParameters ps).locals } := frame_bindAll s _

theorem mem_names_bindParameters (s : Scope) (ps : List Parameter) (x : String) :
    x ∈ (s.bindParameters ps).names ↔ x ∈ ps.map (·.name) ∨ x ∈ s.names := by
  rw [bindParameters, mem_names_bindAll, List.map_map]
  rfl

theorem frame_captured (s : Scope) (ns : List String) :
    s.captured ns = { s with locals := (s.captured ns).locals } := frame_bindAll _ _

theorem mem_names_captured (s : Scope) (ns : List String) (x : String) :
    x ∈ (s.captured ns).names ↔ x ∈ ns := by
  rw [captured, mem_names_bindAll, List.map_map]
  have none : x ∉ ({ s with locals := {} } : Scope).names := List.not_mem_nil
  simp [none]

/-- A static variable keeps the type that it has. -/
theorem mem_names_static (b : Bindings) (ns : List String) (x : String) :
    x ∈ (ns.foldl (fun b n => b.bindIfAbsent n .mixed) b).names ↔ x ∈ ns ∨ x ∈ b.names := by
  induction ns generalizing b with
  | nil => simp
  | cons n ns ih =>
    rw [List.foldl_cons, ih, b.mem_names_bindIfAbsent, List.mem_cons]
    exact or_left_comm.trans or_assoc.symm

/-! ### Restored names -/

theorem restore_bound (s : Scope) (n : String) (t : Ty) (saved : List (String × Option Ty)) :
    s.restore ((n, some t) :: saved) = (s.bind n t).restore saved := rfl

theorem restore_unbound (s : Scope) (n : String) (saved : List (String × Option Ty)) :
    s.restore ((n, none) :: saved) =
      ({ s with locals := s.locals.remove n } : Scope).restore saved := rfl

theorem restore_save_bound {before : Scope} (s : Scope) {n : String} {t : Ty} (ns : List String)
    (found : before.locals.get? n = some t) :
    s.restore (before.save (n :: ns)) = (s.bind n t).restore (before.save ns) := by
  rw [save, List.map_cons, found]
  exact restore_bound s n t _

theorem restore_save_unbound {before : Scope} (s : Scope) {n : String} (ns : List String)
    (found : before.locals.get? n = none) : s.restore (before.save (n :: ns)) =
      ({ s with locals := s.locals.remove n } : Scope).restore (before.save ns) := by
  rw [save, List.map_cons, found]
  exact restore_unbound s n _

theorem frame_restore (s : Scope) (saved : List (String × Option Ty)) :
    s.restore saved = { s with locals := (s.restore saved).locals } := by
  induction saved generalizing s with
  | nil => rfl
  | cons entry saved ih =>
    obtain ⟨n, _ | t⟩ := entry
    · rw [restore_unbound]
      exact ih _
    · rw [restore_bound]
      exact ih _

theorem isClosed_restore (s : Scope) (saved : List (String × Option Ty)) :
    (s.restore saved).isClosed = s.isClosed := by rw [frame_restore]

theorem mem_names_remove (s : Scope) (n x : String) :
    x ∈ ({ s with locals := s.locals.remove n } : Scope).names ↔ x ≠ n ∧ x ∈ s.names :=
  s.locals.mem_names_remove n x

/-- Restoring what was saved at `before` gives each saved name the type that it had there, or
none, and leaves the types of all others alone. -/
theorem get?_restore (before s : Scope) (ns : List String) (x : String) :
    (s.restore (before.save ns)).locals.get? x =
      if x ∈ ns then before.locals.get? x else s.locals.get? x := by
  induction ns generalizing s with
  | nil => rfl
  | cons n ns ih =>
    cases found : before.locals.get? n with
    | some t =>
      rw [restore_save_bound s ns found, ih, bind, Bindings.get?_bind]
      by_cases same : x = n
      · subst same
        simp [found]
      · simp [same]
    | none =>
      rw [restore_save_unbound s ns found, ih, Bindings.get?_remove]
      by_cases same : x = n
      · subst same
        simp [found]
      · simp [same]

/-- So each saved name is bound exactly if it was bound at `before`. -/
theorem mem_names_restore (before s : Scope) (ns : List String) (x : String) :
    x ∈ (s.restore (before.save ns)).names ↔
      x ∈ ns ∧ x ∈ before.names ∨ x ∉ ns ∧ x ∈ s.names := by
  have bound : ∀ s : Scope, x ∈ s.names ↔ (s.locals.get? x).isSome = true :=
    fun s => (s.locals.isSome_get? x).symm
  rw [bound, bound, bound, get?_restore]
  by_cases saved : x ∈ ns <;> simp [saved]

/-- Restoring what was just saved changes nothing. -/
theorem restore_save (s : Scope) (ns : List String) : s.restore (s.save ns) = s := by
  induction ns with
  | nil => rfl
  | cons n ns ih =>
    cases found : s.locals.get? n with
    | some t =>
      have same : s.bind n t = s := by rw [bind, Bindings.bind_of_get? found]
      rw [restore_save_bound s ns found, same, ih]
    | none =>
      have unbound : n ∉ s.locals.names := (s.locals.get?_eq_none_iff n).1 found
      have same : ({ s with locals := s.locals.remove n } : Scope) = s := by
        rw [Bindings.remove_of_unbound unbound]
      rw [restore_save_unbound s ns found, same, ih]

/-- Restoring a saved name forgets what was bound to it since. All that was bound before is
bound still, so no name changes its place. -/
theorem restore_bind {before s : Scope} {ns : List String} {n : String} (t : Ty) (saved : n ∈ ns)
    (kept : before.names ⊆ s.names) :
    (s.bind n t).restore (before.save ns) = s.restore (before.save ns) := by
  induction ns generalizing s with
  | nil => cases saved
  | cons m ns ih =>
    cases found : before.locals.get? m with
    | some u =>
      have known : m ∈ s.names := kept (Bindings.mem_names_of_get? found)
      rw [restore_save_bound _ ns found, restore_save_bound s ns found]
      by_cases same : m = n
      · subst same
        rw [bind, bind, bind, Bindings.bind_bind]
      · have swap : (s.bind n t).bind m u = (s.bind m u).bind n t := by
          rw [bind, bind, bind, bind, Bindings.bind_comm same t u known]
        rw [swap]
        refine ih ((List.mem_cons.1 saved).resolve_left (Ne.symm same)) fun x member => ?_
        exact (s.mem_names_bind m u x).2 (.inr (kept member))
    | none =>
      have unknown : m ∉ before.names := (before.locals.get?_eq_none_iff m).1 found
      rw [restore_save_unbound _ ns found, restore_save_unbound s ns found]
      by_cases same : m = n
      · subst same
        rw [bind, Bindings.remove_bind]
      · have swap : ({ s.bind n t with locals := (s.bind n t).locals.remove m } : Scope) =
            ({ s with locals := s.locals.remove m } : Scope).bind n t := by
          rw [bind, bind, Bindings.remove_bind_comm _ same]
        rw [swap]
        refine ih ((List.mem_cons.1 saved).resolve_left (Ne.symm same)) fun x member => ?_
        refine (s.mem_names_remove m x).2 ⟨?_, kept member⟩
        rintro rfl
        exact unknown member

theorem restore_bindAll {before s : Scope} {ns : List String} {bs : List (String × Ty)}
    (saved : bs.map (·.1) ⊆ ns) (kept : before.names ⊆ s.names) :
    (s.bindAll bs).restore (before.save ns) = s.restore (before.save ns) := by
  induction bs generalizing s with
  | nil => rfl
  | cons b bs ih =>
    obtain ⟨first, rest⟩ := List.cons_subset.1 saved
    have still : before.names ⊆ (s.bind b.1 b.2).names := fun x member =>
      (s.mem_names_bind b.1 b.2 x).2 (.inr (kept member))
    rw [bindAll_cons, ih rest still, restore_bind b.2 first kept]

/-- Restoring takes back a target of saved names. -/
theorem restore_bindTarget {before : Scope} {ns : List String} (e : Expr) (s : Scope) (t : Ty)
    (saved : targetNames e ⊆ ns) (kept : before.names ⊆ s.names) :
    (s.bindTarget t e).restore (before.save ns) = s.restore (before.save ns) := by
  rw [bindTarget_eq]
  exact restore_bindAll (by simpa [Function.comp_def] using saved) kept

/-! ### Scopes that keep their names -/

/-- All names of `before` are bound in the scope as well, in their places. -/
def Extends (s before : Scope) : Prop := before.names <+: s.names

theorem Extends.refl (s : Scope) : s.Extends s := List.prefix_refl _

theorem Extends.trans {a b c : Scope} (h : c.Extends b) (h' : b.Extends a) : c.Extends a :=
  List.IsPrefix.trans h' h

theorem Extends.subset {s before : Scope} (h : s.Extends before) : before.names ⊆ s.names :=
  List.IsPrefix.subset h

theorem extends_bind (s : Scope) (n : String) (t : Ty) : (s.bind n t).Extends s := by
  have names : (s.bind n t).names = if n ∈ s.names then s.names else s.names ++ [n] :=
    s.locals.names_bind n t
  rw [Extends, names]
  split
  · exact List.prefix_refl _
  · exact List.prefix_append _ _

theorem extends_bindAll (s : Scope) (bs : List (String × Ty)) : (s.bindAll bs).Extends s := by
  induction bs generalizing s with
  | nil => exact .refl s
  | cons b bs ih =>
    rw [bindAll_cons]
    exact (ih _).trans (s.extends_bind b.1 b.2)

theorem extends_static (s : Scope) (ns : List String) :
    ({ s with locals := ns.foldl (fun b n => b.bindIfAbsent n .mixed) s.locals } : Scope).Extends
      s := by
  induction ns generalizing s with
  | nil => exact .refl s
  | cons n ns ih =>
    have head : ({ s with locals := s.locals.bindIfAbsent n .mixed } : Scope).Extends s := by
      unfold Bindings.bindIfAbsent
      split
      · exact .refl s
      · exact s.extends_bind n .mixed
    exact (ih _).trans head

theorem extends_bindTarget (e : Expr) (s : Scope) (t : Ty) : (s.bindTarget t e).Extends s := by
  rw [bindTarget_eq]
  exact s.extends_bindAll _

/-- Removing a name moves none of those that stand in front of it. -/
theorem Extends.remove {s before : Scope} (h : s.Extends before) {n : String}
    (unbound : n ∉ before.names) :
    ({ s with locals := s.locals.remove n } : Scope).Extends before := by
  obtain ⟨later, names⟩ := h
  have kept : before.names.filter (· != n) = before.names := by
    apply List.filter_eq_self.2
    intro x member
    rw [bne_iff_ne]
    rintro rfl
    exact unbound member
  have removed : ({ s with locals := s.locals.remove n } : Scope).names =
      s.names.filter (· != n) := s.locals.names_remove n
  rw [Extends, removed, ← names, List.filter_append, kept]
  exact List.prefix_append _ _

theorem Extends.restore {s before : Scope} (h : s.Extends before) (ns : List String) :
    (s.restore (before.save ns)).Extends before := by
  induction ns generalizing s with
  | nil => exact h
  | cons n ns ih =>
    cases found : before.locals.get? n with
    | some t =>
      rw [restore_save_bound s ns found]
      exact ih ((s.extends_bind n t).trans h)
    | none =>
      rw [restore_save_unbound s ns found]
      exact ih (h.remove ((before.locals.get?_eq_none_iff n).1 found))

end PhpSymbols.Scope
