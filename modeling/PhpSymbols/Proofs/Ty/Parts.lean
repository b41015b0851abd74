import PhpSymbols.Proofs.Ty.Regrouping
import PhpSymbols.Proofs.Ty.RoundTrip

/-!
# What types are made of

* `parts`: a type and all that it is made of;
* `Known.part`, `Known.of_parts`: a known type has known parts, and it is known with just the class
  names that occur in it;
* `classRef_mem_parts_join`: a class occurs in a union if it does in one of the types that are
  joined, unless `mixed` takes all;
* `nodup_texts`: the tokens of a type are written differently if it has no class name that reads as
  something else.
-/

namespace PhpSymbols.Ty

mutual

/-- `t` itself and all that it is made of. -/
def parts : Ty → List Ty
  | .scalar n => [.scalar n]
  | .classRef n => [.classRef n]
  | .arrayOf t => .arrayOf t :: parts t
  | .union ts => .union ts :: partsAll ts
  | .nullable t => .nullable t :: parts t
  | .mixed => [.mixed]
  | .unknown => [.unknown]

def partsAll : List Ty → List Ty
  | [] => []
  | t :: ts => parts t ++ partsAll ts

end

theorem mem_partsAll {u : Ty} {ts : List Ty} : u ∈ partsAll ts ↔ ∃ t ∈ ts, u ∈ t.parts := by
  induction ts with
  | nil => simp [partsAll]
  | cons t ts ih => simp [partsAll, ih]

variable {P Q : String → Prop}

/-- The parts of a known type are known. -/
theorem Known.part {t : Ty} (h : t.Known P) : ∀ u ∈ t.parts, u.Known P := by
  induction h with
  | scalar hn => exact List.forall_mem_singleton.2 (.scalar hn)
  | classRef hn => exact List.forall_mem_singleton.2 (.classRef hn)
  | arrayOf ht ih => exact List.forall_mem_cons.2 ⟨.arrayOf ht, ih⟩
  | union two distinct alternatives known ih =>
    refine List.forall_mem_cons.2 ⟨.union two distinct alternatives known, fun u hu => ?_⟩
    obtain ⟨t, ht, hu⟩ := mem_partsAll.1 hu
    exact ih t ht u hu
  | nullable lacks ht ih => exact List.forall_mem_cons.2 ⟨.nullable lacks ht, ih⟩
  | mixed => exact List.forall_mem_singleton.2 .mixed

theorem Known.class {t : Ty} (h : t.Known P) {n : String} (mem : .classRef n ∈ t.parts) : P n := by
  cases h.part _ mem with
  | classRef hn => exact hn

/-- A known type is known with just the class names that occur in it. -/
theorem Known.of_parts {t : Ty} (h : t.Known P) (names : ∀ n, .classRef n ∈ t.parts → Q n) :
    t.Known Q := by
  induction h with
  | scalar hn => exact .scalar hn
  | classRef => exact .classRef (names _ (List.mem_singleton_self _))
  | arrayOf _ ih => exact .arrayOf (ih fun n mem => names n (List.mem_cons_of_mem _ mem))
  | union two distinct alternatives _ ih =>
    refine .union two distinct alternatives fun t ht => ih t ht fun n mem => ?_
    exact names n (List.mem_cons_of_mem _ (mem_partsAll.2 ⟨t, ht, mem⟩))
  | nullable lacks _ ih =>
    exact .nullable lacks (ih fun n mem => names n (List.mem_cons_of_mem _ mem))
  | mixed => exact .mixed

/-! ### Classes in unions -/

mutual

theorem classRef_mem_leaves {n : String} : (t : Ty) →
    (.classRef n ∈ t.parts ↔ ∃ l ∈ t.leaves, .classRef n ∈ l.parts)
  | .scalar _ | .classRef _ | .arrayOf _ | .mixed | .unknown => by simp [leaves]
  | .union ts => by simpa [parts, leaves] using classRef_mem_leavesAll ts
  | .nullable t => by simpa [parts, leaves, null] using classRef_mem_leaves t

theorem classRef_mem_leavesAll {n : String} : (ts : List Ty) →
    (.classRef n ∈ partsAll ts ↔ ∃ l ∈ leavesAll ts, .classRef n ∈ l.parts)
  | [] => by simp [partsAll, leavesAll]
  | t :: ts => by
    simp only [partsAll, leavesAll, List.mem_append, classRef_mem_leaves t,
      classRef_mem_leavesAll ts, or_and_right, exists_or]

end

/-- What a union keeps of leaves is enough to tell the classes in them. -/
theorem classRef_mem_ofLeaves {n : String} (ls : List Ty) :
    (∃ l ∈ (Alternatives.ofLeaves ls).members, .classRef n ∈ l.parts) ↔
      ∃ l ∈ ls, .classRef n ∈ l.parts := by
  constructor
  · rintro ⟨l, mem, within⟩
    exact ⟨l, (Alternatives.mem_members_ofLeaves.1 mem).1, within⟩
  · rintro ⟨l, mem, within⟩
    have named : l ≠ null ∧ l ≠ .unknown := by
      constructor <;> rintro rfl <;> simp [parts, null] at within
    exact ⟨l, Alternatives.mem_members_ofLeaves.2 ⟨mem, named⟩, within⟩

/-- A class occurs in a union exactly if it does in one of the types that are joined, unless `mixed`
takes all. -/
theorem classRef_mem_parts_join {n : String} {ts : List Ty} :
    .classRef n ∈ (join ts).parts ↔ join ts ≠ .mixed ∧ ∃ t ∈ ts, .classRef n ∈ t.parts := by
  by_cases mixed : .mixed ∈ leavesAll ts
  · rw [join_of_mixed mixed]
    simp [parts]
  · have notMixed : join ts ≠ .mixed := by
      intro same
      have member : Ty.mixed ∈ (Alternatives.ofLeaves (join ts).leaves).members := by
        rw [same]
        exact List.mem_singleton_self _
      rw [ofLeaves_join mixed] at member
      exact mixed (Alternatives.mem_members_ofLeaves.1 member).1
    rw [classRef_mem_leaves, ← classRef_mem_ofLeaves, ofLeaves_join mixed, classRef_mem_ofLeaves,
      ← classRef_mem_leavesAll, mem_partsAll]
    exact (and_iff_right notMixed).symm

theorem classRef_mem_parts_orNull {n : String} (t : Ty) :
    .classRef n ∈ t.orNull.parts ↔ .classRef n ∈ t.parts := by
  cases t with
  | scalar m =>
    rw [orNull]
    split <;> simp [parts]
  | classRef | arrayOf | union | nullable | mixed | unknown => simp [orNull, parts]

/-! ### Texts -/

theorem chars_injective {t u : Ty} (ht : t.Known IsWritable) (hu : u.Known IsWritable)
    (same : t.chars = u.chars) : t = u := by
  rw [← Resolver.resolve_chars {} ht, same, Resolver.resolve_chars {} hu]

theorem Known.nodup_tokens {t : Ty} (h : t.Known P) : t.tokens.Nodup := by
  cases h with
  | union _ distinct => exact distinct
  | nullable lacks known =>
    rcases lacks.union_or_isLeaf with ⟨ts, rfl⟩ | leaf
    · cases known with
      | union _ distinct alternatives =>
        rw [tokens, List.nodup_append]
        refine ⟨distinct, List.nodup_singleton _, fun u mem v last same => ?_⟩
        obtain rfl := same.trans (List.mem_singleton.1 last)
        exact alternatives null mem rfl
    · rw [tokens_nullable leaf]
      exact List.nodup_singleton _
  | scalar | classRef | arrayOf | mixed => exact List.nodup_singleton _

/-- The tokens of a type whose class names can be written are written differently. -/
theorem nodup_texts {t : Ty} (h : t.Known IsWritable) : (t.tokens.map text).Nodup := by
  refine List.Nodup.map_on (fun u hu v hv same => ?_) h.nodup_tokens
  exact chars_injective (h.token u hu).1 (h.token v hv).1 (String.ofList_injective same)

end PhpSymbols.Ty
