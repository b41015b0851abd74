import PhpSymbols.Proofs.Ty.Alternation

/-!
# A hint and its documentation

* `join_pair`, `join_self`: the union of two reduced types, and of one with itself;
* `Keeps`, `keeps_join`: such a union says all that the first type says, unless it is `mixed`;
* `resolveDeclared_eq`: what becomes of a hint and its documentation, where either may be missing;
* `resolveDeclared_conservative`: no knowledge is lost by that.
-/

namespace PhpSymbols.Ty

/-! ### Two types -/

variable {t u n : Ty}

/-- What a reduced type offers is distinct, and fit for a union unless it is `mixed`. -/
theorem IsReduced.distinct (reduced : t.IsReduced) :
    t.alternatives.Nodup ∧ ∀ a ∈ t.alternatives, a = .mixed ∨ a.IsAlternative := by
  have one {a : Ty} (h : a.IsAlternative) :
      a.alternatives.Nodup ∧ ∀ b ∈ a.alternatives, b = .mixed ∨ b.IsAlternative := by
    rw [h.offers.1]
    exact ⟨List.nodup_singleton a, fun b mem => .inr (List.mem_singleton.1 mem ▸ h)⟩
  have more {ts : List Ty} (distinct : ts.Nodup) (all : ∀ a ∈ ts, a.IsAlternative) :
      ts.Nodup ∧ ∀ a ∈ ts, a = .mixed ∨ a.IsAlternative :=
    ⟨distinct, fun a mem => .inr (all a mem)⟩
  cases reduced with
  | null | unknown => exact ⟨List.nodup_nil, nofun⟩
  | mixed => exact ⟨List.nodup_singleton _, fun a mem => .inl (List.mem_singleton.1 mem)⟩
  | single h => exact one h
  | singleOrNull h =>
    rw [alternatives]
    exact one h
  | several _ distinct all | severalOrNull _ distinct all => exact more distinct all

/-- The union of two reduced types is made of what the two offer. -/
theorem join_pair (ht : t.IsReduced) (hu : u.IsReduced) :
    join [t, u] = (Alternatives.mk (t.alternatives ++ u.alternatives).eraseDups
      (t.admitsNull || u.admitsNull)).toTy := by
  have leaves : leavesAll [t, u] = t.leaves ++ u.leaves := by simp [leavesAll]
  rw [join_eq_toTy, leaves, Alternatives.ofLeaves_append, ht.ofLeaves, hu.ofLeaves]

/-- Unless it is `mixed`, the union of two reduced types offers what the two offer, and null if one
of them does. -/
theorem offers_join_pair (ht : t.IsReduced) (hu : u.IsReduced) (other : join [t, u] ≠ .mixed) :
    (join [t, u]).alternatives = (t.alternatives ++ u.alternatives).eraseDups ∧
      (join [t, u]).admitsNull = (t.admitsNull || u.admitsNull) := by
  rw [join_pair ht hu] at other ⊢
  have noMixed : .mixed ∉ (t.alternatives ++ u.alternatives).eraseDups :=
    fun mem => other (if_pos mem)
  have alternatives : ∀ a ∈ (t.alternatives ++ u.alternatives).eraseDups, a.IsAlternative := by
    intro a mem
    have fit : a = .mixed ∨ a.IsAlternative :=
      (List.mem_append.1 (List.mem_eraseDups.1 mem)).elim (ht.distinct.2 a) (hu.distinct.2 a)
    exact fit.resolve_left fun same => noMixed (same ▸ mem)
  obtain ⟨offers, nulls, -⟩ := offers_toTy (a := ⟨_, t.admitsNull || u.admitsNull⟩)
    (Distinct.nodup_eraseDups _) alternatives
  exact ⟨offers, nulls⟩

theorem join_self (reduced : t.IsReduced) : join [t, t] = t := by
  have none : t.alternatives.removeAll t.alternatives = [] := by simp [List.removeAll]
  have once : t.alternatives.eraseDups = t.alternatives :=
    Distinct.eraseDupsBy_of_pairwise (reduced.distinct.1.imp fun h => by simpa using Ne.symm h)
  rw [join_pair reduced reduced, List.eraseDups_append, none, List.eraseDups_nil, List.append_nil,
    once, Bool.or_self, reduced.toTy]

theorem eq_unknown_of_join (reduced : t.IsReduced) {ts : List Ty} (mem : t ∈ ts)
    (unknown : join ts = .unknown) : t = .unknown := by
  rw [← (join_singleton_iff t).2 reduced, join_eq_unknown_iff]
  intro l leaf
  have among : l ∈ t.leaves := by simpa [leavesAll] using leaf
  apply (join_eq_unknown_iff ts).1 unknown
  rw [leavesAll_eq_flatMap]
  exact List.mem_flatMap.2 ⟨t, mem, among⟩

/-! ### What is kept -/

/-- `t` offers all that `n` offers. -/
structure Keeps (t n : Ty) : Prop where
  members : ∀ a ∈ n.alternatives, a ∈ t.alternatives
  null : n.admitsNull = true → t.admitsNull = true
  nullable : ∀ u, n = .nullable u → ∃ v, t = .nullable v

theorem IsReduced.alternatives_nullable (reduced : (Ty.nullable u).IsReduced) :
    u.alternatives ≠ [] := by
  cases reduced with
  | single h => exact h.elim
  | singleOrNull h =>
    rw [h.offers.1]
    exact List.cons_ne_nil _ _
  | severalOrNull two => exact List.ne_nil_of_length_pos (Nat.lt_of_lt_of_le Nat.two_pos two)

/-- What offers something besides null and admits null is nullable. -/
theorem exists_nullable (some : t.alternatives ≠ []) (nulls : t.admitsNull = true) :
    ∃ v, t = .nullable v := by
  cases t with
  | nullable v => exact ⟨v, rfl⟩
  | scalar n => exact absurd (if_pos (beq_iff_eq.1 nulls)) some
  | classRef | arrayOf | union | mixed | unknown => cases nulls

theorem keeps_of_offers (reduced : n.IsReduced)
    (members : ∀ a ∈ n.alternatives, a ∈ t.alternatives)
    (nulls : n.admitsNull = true → t.admitsNull = true) : t.Keeps n := by
  refine ⟨members, nulls, ?_⟩
  rintro u rfl
  obtain ⟨a, mem⟩ := List.exists_mem_of_ne_nil _ reduced.alternatives_nullable
  exact exists_nullable (List.ne_nil_of_mem (members a mem)) (nulls rfl)

theorem keeps_join (hn : n.IsReduced) (hu : u.IsReduced) :
    join [n, u] = .mixed ∨ (join [n, u]).Keeps n := by
  refine or_iff_not_imp_left.2 fun other => ?_
  obtain ⟨offers, nulls⟩ := offers_join_pair hn hu other
  apply keeps_of_offers hn
  · intro a mem
    rw [offers]
    exact List.mem_eraseDups.2 (List.mem_append_left _ mem)
  · intro admits
    rw [nulls, admits, Bool.true_or]

theorem isUnknown_iff : t.isUnknown = true ↔ t = .unknown := by
  cases t <;> simp [isUnknown]

end PhpSymbols.Ty

namespace PhpSymbols.Resolver
open Ty

/-- What a hint or a documented type reads as; unknown if it is missing. -/
def read (r : Resolver) (expression : Option String) : Ty :=
  (expression.map fun e => r.resolve e.toList).getD .unknown

theorem isReduced_read (r : Resolver) (expression : Option String) :
    (r.read expression).IsReduced := by
  cases expression with
  | none => exact .unknown
  | some e =>
    rw [read, Option.map_some, Option.getD_some]
    rcases canonical_resolve r e.toList with unknown | known
    · exact unknown ▸ .unknown
    · exact known.isReduced

/-- Documentation of which nothing is known is left out; else it takes the place of a broad hint,
and any other hint is joined with it. -/
theorem resolveDeclared_eq (r : Resolver) (native documented : Option String) :
    r.resolveDeclared native documented =
      if r.read documented = .unknown then r.read native
      else if (r.read native).isRefinable then r.read documented
      else join [r.read native, r.read documented] := by
  match native, documented with
  | none, none | some _, none => rfl
  | none, some documented =>
    split
    · assumption
    · rfl
  | some native, some documented =>
    rw [resolveDeclared]
    simp only [isUnknown_iff]
    rfl

/-- A hint and its documentation are merged without loss. The result is unknown only if both are. A
hint that is not broad is kept, with every member and with null, unless the result is `mixed`. Of a
hint and a documentation that agree comes the type they agree on, and documentation of which
nothing is known leaves the hint as it is. What is missing counts as unknown. -/
theorem resolveDeclared_conservative (r : Resolver) (native documented : Option String) :
    let n := r.read native
    let d := r.read documented
    let t := r.resolveDeclared native documented
    (t = .unknown ↔ n = .unknown ∧ d = .unknown) ∧
    (n.isRefinable = false → t = .mixed ∨ t.Keeps n) ∧
    (n = d → t = n) ∧
    (d = .unknown → t = n) := by
  intro n d t
  have hn : n.IsReduced := isReduced_read r native
  have hd : d.IsReduced := isReduced_read r documented
  have merged : t = if d = .unknown then n else if n.isRefinable then d else join [n, d] :=
    resolveDeclared_eq r native documented
  refine ⟨⟨fun unknown => ?_, fun ⟨hn, hd⟩ => ?_⟩, fun narrow => ?_, fun same => ?_,
    fun unknown => ?_⟩
  · rw [merged] at unknown
    split_ifs at unknown with nothing broad
    · exact ⟨unknown, nothing⟩
    · exact absurd unknown nothing
    · exact ⟨eq_unknown_of_join hn (by simp) unknown, eq_unknown_of_join hd (by simp) unknown⟩
  · rw [merged, if_pos hd, hn]
  · rw [merged]
    split_ifs with nothing broad
    · exact .inr ⟨fun _ mem => mem, id, fun u same => ⟨u, same⟩⟩
    · rw [narrow] at broad
      cases broad
    · exact keeps_join hn hd
  · rw [merged, ← same, join_self hn]
    split_ifs <;> rfl
  · rw [merged, if_pos unknown]

end PhpSymbols.Resolver
