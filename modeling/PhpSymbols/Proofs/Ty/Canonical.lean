import PhpSymbols.Proofs.Ty.Leaves
import PhpSymbols.Ty.Resolver

/-!
# Canonical types

A canonical type has one shape for what it says: a union has two or more
distinct members, each a name or an array; nullable stands around a type that
lacks null; unknown stands alone.

* `Known`, `Canonical`: that shape, with the names a type may hold;
* `known_orNull`, `known_join`, `canonical_join`: the constructors keep it.
-/

namespace PhpSymbols.Ty

/-- The names that built-ins are shown by. -/
def scalarNames : List String := scalarSpellings.map (·.2)

/-- A class name as a type holds it, without a leading backslash. -/
def IsClassPath (n : String) : Prop :=
  Expression.isClassName n.toList = true ∧ n.toList.head? ≠ some '\\'

/-- What may stand next to others in a union. -/
def IsAlternative : Ty → Prop
  | .scalar n => n ≠ "null"
  | .classRef _ | .arrayOf _ => True
  | .union _ | .nullable _ | .mixed | .unknown => False

/-- What nullable may stand around. -/
def LacksNull : Ty → Prop
  | .scalar n => n ≠ "null"
  | .classRef _ | .arrayOf _ | .union _ => True
  | .nullable _ | .mixed | .unknown => False

/-- Canonical and not unknown, with class names of which `P` holds. -/
inductive Known (P : String → Prop) : Ty → Prop where
  | scalar {n : String} : n ∈ scalarNames → Known P (.scalar n)
  | classRef {n : String} : P n → Known P (.classRef n)
  | arrayOf {t : Ty} : Known P t → Known P (.arrayOf t)
  | union {ts : List Ty} : 2 ≤ ts.length → ts.Nodup → (∀ t ∈ ts, t.IsAlternative) →
      (∀ t ∈ ts, Known P t) → Known P (.union ts)
  | nullable {t : Ty} : t.LacksNull → Known P t → Known P (.nullable t)
  | mixed : Known P .mixed

def Canonical (P : String → Prop) (t : Ty) : Prop := t = .unknown ∨ t.Known P

variable {P : String → Prop}

theorem Known.ne_unknown {t : Ty} (h : t.Known P) : t ≠ .unknown := by
  rintro rfl
  cases h

theorem known_null : null.Known P := .scalar (by decide)

theorem known_orNull {t : Ty} (h : t.Known P) : t.orNull.Known P := by
  cases h with
  | @scalar n hn =>
    by_cases null : n = "null"
    · simpa only [orNull, if_pos null] using .scalar hn
    · simpa only [orNull, if_neg null] using .nullable null (.scalar hn)
  | classRef hn => exact .nullable trivial (.classRef hn)
  | arrayOf ht => exact .nullable trivial (.arrayOf ht)
  | union two distinct alternatives known =>
    exact .nullable trivial (.union two distinct alternatives known)
  | nullable lacks ht => exact .nullable lacks ht
  | mixed => exact .mixed

/-! ### Unions -/

/-- The leaves of a known type are known, and beside null and `mixed` they are alternatives. -/
theorem Known.leaf {t : Ty} (h : t.Known P) :
    ∀ l ∈ t.leaves, l.Known P ∧ (l = null ∨ l = .mixed ∨ l.IsAlternative) := by
  induction h with
  | @scalar n hn =>
    intro l hl
    obtain rfl := List.mem_singleton.1 hl
    refine ⟨.scalar hn, ?_⟩
    by_cases h : n = "null"
    · exact .inl (congrArg Ty.scalar h)
    · exact .inr (.inr h)
  | classRef hn =>
    intro l hl
    obtain rfl := List.mem_singleton.1 hl
    exact ⟨.classRef hn, .inr (.inr trivial)⟩
  | arrayOf ht =>
    intro l hl
    obtain rfl := List.mem_singleton.1 hl
    exact ⟨.arrayOf ht, .inr (.inr trivial)⟩
  | union _ _ _ _ ih =>
    intro l hl
    rw [leaves, leavesAll_eq_flatMap] at hl
    obtain ⟨t, ht, hl⟩ := List.mem_flatMap.1 hl
    exact ih t ht l hl
  | nullable _ _ ih =>
    intro l hl
    rcases List.mem_cons.1 hl with rfl | hl
    · exact ⟨known_null, .inl rfl⟩
    · exact ih l hl
  | mixed =>
    intro l hl
    obtain rfl := List.mem_singleton.1 hl
    exact ⟨.mixed, .inr (.inl rfl)⟩

theorem Known.leaves_ne_nil {t : Ty} (h : t.Known P) : t.leaves ≠ [] := by
  induction h with
  | @union ts two _ _ _ ih =>
    obtain ⟨t, ts, rfl⟩ := List.exists_cons_of_length_pos (Nat.lt_of_lt_of_le Nat.two_pos two)
    intro h
    exact ih t List.mem_cons_self (List.append_eq_nil_iff.1 h).1
  | nullable => exact List.cons_ne_nil _ _
  | scalar | classRef | arrayOf | mixed => exact List.cons_ne_nil _ _

/-- A union under construction whose members are known, if it has any, is a known type. -/
theorem known_toTy {a : Alternatives} (distinct : a.members.Nodup)
    (known : ∀ t ∈ a.members, t.Known P ∧ (t = .mixed ∨ t.IsAlternative))
    (some : a.members ≠ [] ∨ a.admitsNull = true) : a.toTy.Known P := by
  unfold Alternatives.toTy
  split
  · exact .mixed
  · rename_i noMixed
    have alternative : ∀ t ∈ a.members, t.IsAlternative := by
      intro t ht
      exact (known t ht).2.resolve_left fun h => noMixed (h ▸ ht)
    split
    · rename_i empty
      rw [if_pos (some.resolve_left (absurd empty))]
      exact known_null
    · rename_i t one
      have ht := (known t (one ▸ List.mem_singleton_self t)).1
      split
      · exact known_orNull ht
      · exact ht
    · rename_i notNil notOne
      have two : 2 ≤ a.members.length := by
        match h : a.members with
        | [] => exact absurd h notNil
        | [t] => exact absurd h (notOne t)
        | _ :: _ :: _ => exact Nat.le_add_left 2 _
      have union : (Ty.union a.members).Known P :=
        .union two distinct alternative fun t ht => (known t ht).1
      split
      · exact known_orNull union
      · exact union

theorem Canonical.leaf {ts : List Ty} (h : ∀ t ∈ ts, t.Canonical P) :
    ∀ l ∈ leavesAll ts, l ≠ .unknown →
      l.Known P ∧ (l = null ∨ l = .mixed ∨ l.IsAlternative) := by
  intro l hl known
  rw [leavesAll_eq_flatMap] at hl
  obtain ⟨t, ht, hl⟩ := List.mem_flatMap.1 hl
  rcases h t ht with rfl | ht
  · exact absurd (List.mem_singleton.1 hl) known
  · exact ht.leaf l hl

/-- A union with a leaf of which something is known is known. -/
theorem known_join_of_leaf {ts : List Ty} (h : ∀ t ∈ ts, t.Canonical P) {l : Ty}
    (hl : l ∈ leavesAll ts) (known : l ≠ .unknown) : (join ts).Known P := by
  rw [join_eq_toTy]
  apply known_toTy
  · exact Distinct.nodup_eraseDups _
  · intro t ht
    obtain ⟨ht, notNull, notUnknown⟩ := Alternatives.mem_members_ofLeaves.1 ht
    obtain ⟨hk, shape⟩ := Canonical.leaf h t ht notUnknown
    exact ⟨hk, shape.resolve_left notNull⟩
  · by_cases isNull : l = null
    · exact .inr (List.contains_iff_mem.2 (isNull ▸ hl))
    · exact .inl (List.ne_nil_of_mem (Alternatives.mem_members_ofLeaves.2 ⟨hl, isNull, known⟩))

theorem known_join {ts : List Ty} (some : ts ≠ []) (h : ∀ t ∈ ts, t.Known P) :
    (join ts).Known P := by
  obtain ⟨t, ts, rfl⟩ := List.exists_cons_of_ne_nil some
  have ht := h t List.mem_cons_self
  obtain ⟨l, ls, hl⟩ := List.exists_cons_of_ne_nil ht.leaves_ne_nil
  have first : l ∈ t.leaves := hl ▸ List.mem_cons_self
  exact known_join_of_leaf (fun u hu => .inr (h u hu)) (List.mem_append_left _ first)
    (ht.leaf l first).1.ne_unknown

/-- The union of canonical types is canonical, whatever is unknown among them. -/
theorem canonical_join {ts : List Ty} (h : ∀ t ∈ ts, t.Canonical P) : (join ts).Canonical P := by
  by_cases known : ∃ l ∈ leavesAll ts, l ≠ .unknown
  · obtain ⟨l, hl, known⟩ := known
    exact .inr (known_join_of_leaf h hl known)
  · have unknown : ∀ l ∈ leavesAll ts, l = .unknown := by
      intro l hl
      exact Classical.not_not.1 fun other => known ⟨l, hl, other⟩
    left
    have members : (Alternatives.ofLeaves (leavesAll ts)).members = [] := by
      apply List.eq_nil_iff_forall_not_mem.2
      intro t ht
      obtain ⟨ht, _, other⟩ := Alternatives.mem_members_ofLeaves.1 ht
      exact other (unknown t ht)
    have admitsNull : (Alternatives.ofLeaves (leavesAll ts)).admitsNull = false := by
      simp only [Alternatives.ofLeaves, List.contains_eq_mem, decide_eq_false_iff_not]
      intro hn
      exact absurd (unknown null hn) (by decide)
    rw [join_eq_toTy, Alternatives.toTy, members, admitsNull]
    rfl

end PhpSymbols.Ty
