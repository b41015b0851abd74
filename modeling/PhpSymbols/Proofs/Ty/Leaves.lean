import PhpSymbols.Proofs.Distinct
import PhpSymbols.Ty.Basic

/-!
# The leaves of a union

A union is built from the leaves of its members: what is left when unions and
nullables are taken apart, with a null for every nullable.

* `addAll_leavesAll`: adding types to a union is adding their leaves one by one;
* `addAll_eq_ofLeaves`: the members are the first of each leaf other than null
  and unknown, and the union admits null exactly when null is a leaf.
-/

namespace PhpSymbols.Ty

mutual

/-- What `t` stands for among the members of a union. -/
def leaves : Ty → List Ty
  | .scalar n => [.scalar n]
  | .classRef n => [.classRef n]
  | .arrayOf t => [.arrayOf t]
  | .union ts => leavesAll ts
  | .nullable t => null :: leaves t
  | .mixed => [.mixed]
  | .unknown => [.unknown]

def leavesAll : List Ty → List Ty
  | [] => []
  | t :: ts => leaves t ++ leavesAll ts

end

theorem leavesAll_eq_flatMap (ts : List Ty) : leavesAll ts = ts.flatMap leaves := by
  induction ts with
  | nil => rfl
  | cons t ts ih => simp only [leavesAll, List.flatMap_cons, ih]

/-- Not taken apart any further. -/
def IsLeaf : Ty → Prop
  | .union _ | .nullable _ => False
  | .scalar _ | .classRef _ | .arrayOf _ | .mixed | .unknown => True

mutual

theorem isLeaf_of_mem_leaves : (t : Ty) → ∀ l ∈ leaves t, l.IsLeaf
  | .scalar _ | .classRef _ | .arrayOf _ | .mixed | .unknown => by simp [leaves, IsLeaf]
  | .union ts => isLeaf_of_mem_leavesAll ts
  | .nullable t => by
    intro l hl
    rcases List.mem_cons.1 hl with rfl | hl
    · trivial
    · exact isLeaf_of_mem_leaves t l hl

theorem isLeaf_of_mem_leavesAll : (ts : List Ty) → ∀ l ∈ leavesAll ts, l.IsLeaf
  | [] => by simp [leavesAll]
  | t :: ts => by
    intro l hl
    rcases List.mem_append.1 hl with hl | hl
    · exact isLeaf_of_mem_leaves t l hl
    · exact isLeaf_of_mem_leavesAll ts l hl

end

namespace Alternatives

theorem addAll_append (a : Alternatives) (ts us : List Ty) :
    a.addAll (ts ++ us) = (a.addAll ts).addAll us := by
  induction ts generalizing a with
  | nil => rfl
  | cons t ts ih => exact ih (a.add t)

mutual

theorem addAll_leaves : (t : Ty) → (a : Alternatives) → a.addAll t.leaves = a.add t
  | .scalar _, _ | .classRef _, _ | .arrayOf _, _ | .mixed, _ | .unknown, _ => rfl
  | .union ts, a => addAll_leavesAll ts a
  | .nullable t, a => addAll_leaves t { a with admitsNull := true }

/-- Adding types is adding their leaves one by one. -/
theorem addAll_leavesAll : (ts : List Ty) → (a : Alternatives) →
    a.addAll (leavesAll ts) = a.addAll ts
  | [], _ => rfl
  | t :: ts, a => by
    simp only [leavesAll, addAll]
    rw [addAll_append, addAll_leaves t a, addAll_leavesAll ts (a.add t)]

end

/-- Whether a leaf becomes a member; null is only noted and unknown is left out. -/
def isMember (t : Ty) : Bool := t ≠ null ∧ t ≠ .unknown

/-- A union under construction, by the leaves added so far. -/
def ofLeaves (ls : List Ty) : Alternatives :=
  ⟨(ls.filter isMember).eraseDups, ls.contains null⟩

theorem mem_members_ofLeaves {ls : List Ty} {t : Ty} :
    t ∈ (ofLeaves ls).members ↔ t ∈ ls ∧ t ≠ null ∧ t ≠ .unknown := by
  simp [ofLeaves, isMember]

theorem insert_ofLeaves (ls : List Ty) {l : Ty} (member : isMember l = true) :
    (ofLeaves ls).insert l = ofLeaves (ls ++ [l]) := by
  have different : l ≠ null ∧ l ≠ .unknown := by simpa [isMember] using member
  have nulls : (ls ++ [l]).contains null = ls.contains null := by
    simpa using fun h : null = l => absurd h.symm different.1
  have kept : l ∈ (ofLeaves ls).members ↔ l ∈ ls.filter isMember := by simp [ofLeaves]
  unfold insert
  rw [ofLeaves.eq_def (ls ++ [l]), List.filter_append, List.filter_cons_of_pos member,
    List.filter_nil, List.eraseDups_append, nulls]
  by_cases h : l ∈ (ofLeaves ls).members
  · have old : [l].removeAll (ls.filter isMember) = [] :=
      List.filter_cons_of_neg (by simpa using List.mem_filter.1 (kept.1 h))
    rw [if_pos h, old, List.eraseDups_nil, List.append_nil]
    rfl
  · have new : [l].removeAll (ls.filter isMember) = [l] :=
      List.filter_cons_of_pos (by simpa [member] using mt kept.2 h)
    rw [if_neg h, new]
    rfl

theorem add_ofLeaves (ls : List Ty) {l : Ty} (leaf : l.IsLeaf) :
    (ofLeaves ls).add l = ofLeaves (ls ++ [l]) := by
  cases l with
  | scalar n =>
    by_cases h : n = "null"
    · subst h
      simp [add, ofLeaves, isMember, null, List.filter_append]
    · have member : isMember (.scalar n) = true := by simp [isMember, null, h]
      simpa only [add, if_neg h] using insert_ofLeaves ls member
  | classRef n => exact insert_ofLeaves ls rfl
  | arrayOf t => exact insert_ofLeaves ls rfl
  | mixed => exact insert_ofLeaves ls rfl
  | unknown => simp [add, ofLeaves, isMember, null, List.filter_append]
  | union ts => exact leaf.elim
  | nullable t => exact leaf.elim

theorem addAll_ofLeaves (ls rest : List Ty) (leaf : ∀ l ∈ rest, l.IsLeaf) :
    (ofLeaves ls).addAll rest = ofLeaves (ls ++ rest) := by
  induction rest generalizing ls with
  | nil => simp [addAll]
  | cons l rest ih =>
    rw [addAll, add_ofLeaves ls (leaf l List.mem_cons_self),
      ih _ fun k hk => leaf k (List.mem_cons_of_mem l hk), List.append_assoc,
      List.singleton_append]

/-- All that a union keeps of its members are their leaves. -/
theorem addAll_eq_ofLeaves (ts : List Ty) :
    ({} : Alternatives).addAll ts = ofLeaves (leavesAll ts) := by
  rw [← addAll_leavesAll]
  exact addAll_ofLeaves [] _ (isLeaf_of_mem_leavesAll ts)

end Alternatives

theorem join_eq_toTy (ts : List Ty) : join ts = (Alternatives.ofLeaves (leavesAll ts)).toTy := by
  rw [join, Alternatives.addAll_eq_ofLeaves]

end PhpSymbols.Ty
