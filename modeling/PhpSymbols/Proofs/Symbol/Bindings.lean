import PhpSymbols.Symbol.Bindings

/-!
# Changes to bindings

* `isSome_get?`, `get?_eq_none_iff`, `mem_names_of_get?`: a name has a type exactly if it is
  bound;
* `names_bind`, `names_remove`: which names are bound after a change, and in which order;
* `get?_bind`, `get?_remove`: and the type of each;
* `filter_bindIn`: what a change does not show in;
* `bind_of_get?`, `remove_of_unbound`: changes that change nothing;
* `bind_bind`, `remove_bind`, `bind_comm`, `remove_bind_comm`: a later change to a name
  undoes an earlier one, and changes to different names do not see each other.
-/

namespace PhpSymbols.Bindings

theorem isSome_get? (b : Bindings) (x : String) : (b.get? x).isSome = true ↔ x ∈ b.names := by
  rw [get?, List.lookup_isSome_iff]
  simp [names]

theorem get?_eq_none_iff (b : Bindings) (x : String) : b.get? x = none ↔ x ∉ b.names := by
  rw [← isSome_get?, Bool.not_eq_true, Option.isSome_eq_false_iff, Option.isNone_iff_eq_none]

theorem mem_names_of_get? {b : Bindings} {x : String} {t : Ty} (found : b.get? x = some t) :
    x ∈ b.names := by
  rw [← isSome_get?, found]
  rfl

/-! ### Names -/

theorem map_bindIn (n : String) (t : Ty) (l : List (String × Ty)) :
    (bindIn n t l).map (·.1) =
      if n ∈ l.map (·.1) then l.map (·.1) else l.map (·.1) ++ [n] := by
  induction l with
  | nil => simp [bindIn]
  | cons p l ih =>
    obtain ⟨m, u⟩ := p
    by_cases same : m = n
    · simp [bindIn, same]
    · by_cases known : n ∈ l.map (·.1)
      · rw [if_pos known] at ih
        rw [bindIn, if_neg same, List.map_cons, ih]
        exact (if_pos (List.mem_cons_of_mem m known)).symm
      · rw [if_neg known] at ih
        have unknown : n ∉ ((m, u) :: l).map (·.1) := by
          rw [List.map_cons, List.mem_cons, not_or]
          exact ⟨Ne.symm same, known⟩
        rw [bindIn, if_neg same, if_neg unknown, List.map_cons, ih]
        rfl

/-- A name that is bound for the first time joins the names behind all others. -/
theorem names_bind (b : Bindings) (n : String) (t : Ty) :
    (b.bind n t).names = if n ∈ b.names then b.names else b.names ++ [n] :=
  map_bindIn n t b.toList

theorem names_remove (b : Bindings) (n : String) :
    (b.remove n).names = b.names.filter (· != n) := by
  rw [names, remove, names, List.filter_map]
  rfl

theorem mem_names_bind (b : Bindings) (n : String) (t : Ty) (x : String) :
    x ∈ (b.bind n t).names ↔ x = n ∨ x ∈ b.names := by
  rw [names_bind]
  split
  · rename_i known
    exact (or_iff_right_of_imp fun same => same ▸ known).symm
  · rw [List.mem_append, List.mem_singleton, or_comm]

theorem mem_names_bindIfAbsent (b : Bindings) (n : String) (t : Ty) (x : String) :
    x ∈ (b.bindIfAbsent n t).names ↔ x = n ∨ x ∈ b.names := by
  unfold bindIfAbsent
  split
  · rename_i found
    have bound : n ∈ b.names := mem_names_of_get? found
    exact (or_iff_right_of_imp fun same => same ▸ bound).symm
  · exact b.mem_names_bind n t x

theorem mem_names_remove (b : Bindings) (n x : String) :
    x ∈ (b.remove n).names ↔ x ≠ n ∧ x ∈ b.names := by
  rw [names_remove, List.mem_filter, bne_iff_ne, and_comm]

/-! ### Types -/

theorem lookup_cons_eq (x m : String) (u : Ty) (l : List (String × Ty)) :
    ((m, u) :: l).lookup x = if x = m then some u else l.lookup x := by
  by_cases asked : x = m
  · rw [if_pos asked, asked, List.lookup_cons_self]
  · rw [if_neg asked, List.lookup_cons, beq_false_of_ne asked]

theorem lookup_bindIn (n : String) (t : Ty) (l : List (String × Ty)) (x : String) :
    (bindIn n t l).lookup x = if x = n then some t else l.lookup x := by
  induction l with
  | nil => exact lookup_cons_eq x n t []
  | cons p l ih =>
    obtain ⟨m, u⟩ := p
    by_cases same : m = n
    · rw [bindIn, if_pos same, lookup_cons_eq, lookup_cons_eq, same]
      split <;> rfl
    · rw [bindIn, if_neg same, lookup_cons_eq, lookup_cons_eq, ih]
      by_cases asked : x = m
      · rw [if_pos asked, if_neg (asked ▸ same), if_pos asked]
      · rw [if_neg asked, if_neg asked]

theorem lookup_filter (n : String) (l : List (String × Ty)) (x : String) :
    (l.filter (·.1 != n)).lookup x = if x = n then none else l.lookup x := by
  induction l with
  | nil => simp
  | cons p l ih =>
    obtain ⟨m, u⟩ := p
    by_cases same : m = n
    · rw [List.filter_cons_of_neg (by simpa using same), ih, lookup_cons_eq, same]
      split <;> rfl
    · rw [List.filter_cons_of_pos (by simpa using same), lookup_cons_eq, lookup_cons_eq, ih]
      by_cases asked : x = m
      · rw [if_pos asked, if_neg (asked ▸ same), if_pos asked]
      · rw [if_neg asked, if_neg asked]

theorem get?_bind (b : Bindings) (n : String) (t : Ty) (x : String) :
    (b.bind n t).get? x = if x = n then some t else b.get? x := lookup_bindIn n t b.toList x

theorem get?_remove (b : Bindings) (n x : String) :
    (b.remove n).get? x = if x = n then none else b.get? x := lookup_filter n b.toList x

/-! ### Changes one after another -/

theorem bindIn_of_lookup {n : String} {t : Ty} {l : List (String × Ty)}
    (known : l.lookup n = some t) : bindIn n t l = l := by
  induction l with
  | nil => cases known
  | cons p l ih =>
    obtain ⟨m, u⟩ := p
    by_cases same : m = n
    · subst same
      rw [List.lookup_cons_self] at known
      rw [bindIn, if_pos rfl, Option.some.inj known]
    · rw [List.lookup_cons, beq_false_of_ne (Ne.symm same)] at known
      rw [bindIn, if_neg same, ih known]

theorem bindIn_bindIn (n : String) (t u : Ty) (l : List (String × Ty)) :
    bindIn n u (bindIn n t l) = bindIn n u l := by
  induction l with
  | nil => simp [bindIn]
  | cons p l ih =>
    obtain ⟨m, v⟩ := p
    by_cases same : m = n
    · simp [bindIn, same]
    · rw [bindIn, if_neg same, bindIn, if_neg same, ih, bindIn, if_neg same]

/-- The variables that a test picks do not show what is bound to another. -/
theorem filter_bindIn (test : String → Bool) {n : String} (other : test n = false) (t : Ty)
    (l : List (String × Ty)) : (bindIn n t l).filter (test ·.1) = l.filter (test ·.1) := by
  induction l with
  | nil => simp [bindIn, other]
  | cons p l ih =>
    obtain ⟨m, v⟩ := p
    by_cases same : m = n
    · simp [bindIn, same, other]
    · simp [bindIn, same, List.filter_cons, ih]

/-- Names that are bound for the first time go to the end, so one of the two must be known. -/
theorem bindIn_comm {m n : String} (different : m ≠ n) (t u : Ty) {l : List (String × Ty)}
    (known : m ∈ l.map (·.1)) : bindIn m u (bindIn n t l) = bindIn n t (bindIn m u l) := by
  induction l with
  | nil => cases known
  | cons p l ih =>
    obtain ⟨k, v⟩ := p
    by_cases first : k = m
    · subst first
      simp [bindIn, different]
    · have rest : m ∈ l.map (·.1) := by
        rw [List.map_cons, List.mem_cons] at known
        exact known.resolve_left (Ne.symm first)
      by_cases second : k = n
      · subst second
        simp [bindIn, first]
      · simp [bindIn, first, second, ih rest]

theorem filter_bindIn_comm {m n : String} (different : m ≠ n) (t : Ty) (l : List (String × Ty)) :
    (bindIn n t l).filter (·.1 != m) = bindIn n t (l.filter (·.1 != m)) := by
  induction l with
  | nil => simp [bindIn, Ne.symm different]
  | cons p l ih =>
    obtain ⟨k, v⟩ := p
    by_cases second : k = n
    · subst second
      simp [bindIn, Ne.symm different]
    · by_cases first : k = m
      · subst first
        simp [bindIn, second, ih]
      · simp [bindIn, first, second, ih]

theorem bind_of_get? {b : Bindings} {n : String} {t : Ty} (known : b.get? n = some t) :
    b.bind n t = b := congrArg Bindings.mk (bindIn_of_lookup known)

theorem remove_of_unbound {b : Bindings} {n : String} (unbound : n ∉ b.names) :
    b.remove n = b := by
  apply congrArg Bindings.mk
  apply List.filter_eq_self.2
  intro p member
  rw [bne_iff_ne]
  rintro rfl
  exact unbound (List.mem_map_of_mem member)

theorem bind_bind (b : Bindings) (n : String) (t u : Ty) :
    (b.bind n t).bind n u = b.bind n u := congrArg Bindings.mk (bindIn_bindIn n t u b.toList)

theorem remove_bind (b : Bindings) (n : String) (t : Ty) : (b.bind n t).remove n = b.remove n :=
  congrArg Bindings.mk (filter_bindIn (· != n) (by simp) t b.toList)

theorem bind_comm {b : Bindings} {m n : String} (different : m ≠ n) (t u : Ty)
    (known : m ∈ b.names) : (b.bind n t).bind m u = (b.bind m u).bind n t :=
  congrArg Bindings.mk (bindIn_comm different t u known)

theorem remove_bind_comm (b : Bindings) {m n : String} (different : m ≠ n) (t : Ty) :
    (b.bind n t).remove m = (b.remove m).bind n t :=
  congrArg Bindings.mk (filter_bindIn_comm different t b.toList)

end PhpSymbols.Bindings
