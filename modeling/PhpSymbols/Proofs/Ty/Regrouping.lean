import PhpSymbols.Proofs.Ty.Union

/-!
# Unions of unions

* `ofLeaves_append`: what a union keeps of leaves in a row is made of what it keeps of each part;
* `join_map_join`: a union of unions is the union of all that these are made of;
* `IsReduced.kind_eq`: the word for a reduced type follows from what it offers;
* `join_regrouped`: grouping does not matter to a union, and order only to the order of what the
  union offers.
-/

namespace PhpSymbols.Ty

/-! ### Grouping -/

theorem leavesAll_append (ts us : List Ty) :
    leavesAll (ts ++ us) = leavesAll ts ++ leavesAll us := by
  simp only [leavesAll_eq_flatMap, List.flatMap_append]

/-- What a union keeps of leaves in a row is made of what it keeps of each part. -/
theorem Alternatives.ofLeaves_append (ls ms : List Ty) :
    ofLeaves (ls ++ ms) =
      ⟨((ofLeaves ls).members ++ (ofLeaves ms).members).eraseDups,
        (ofLeaves ls).admitsNull || (ofLeaves ms).admitsNull⟩ := by
  simp only [ofLeaves, List.filter_append, Distinct.eraseDups_append_eraseDups,
    List.contains_append]

/-- Without `mixed`, a union keeps as much of another union as of its members. -/
theorem ofLeaves_join {ts : List Ty} (noMixed : .mixed ∉ leavesAll ts) :
    Alternatives.ofLeaves (join ts).leaves = Alternatives.ofLeaves (leavesAll ts) := by
  obtain ⟨offers, nulls, reduced⟩ := offers_join noMixed
  rw [reduced.ofLeaves, offers, nulls]
  rfl

theorem ofLeaves_map_join {tss : List (List Ty)} (noMixed : .mixed ∉ leavesAll tss.flatten) :
    Alternatives.ofLeaves (leavesAll (tss.map join)) =
      Alternatives.ofLeaves (leavesAll tss.flatten) := by
  induction tss with
  | nil => rfl
  | cons ts tss ih =>
    rw [List.flatten_cons, leavesAll_append, List.mem_append, not_or] at noMixed
    rw [List.map_cons, leavesAll, List.flatten_cons, leavesAll_append,
      Alternatives.ofLeaves_append, Alternatives.ofLeaves_append, ofLeaves_join noMixed.1,
      ih noMixed.2]

theorem mixed_mem_leavesAll_map_join {tss : List (List Ty)}
    (mixed : .mixed ∈ leavesAll tss.flatten) : .mixed ∈ leavesAll (tss.map join) := by
  induction tss with
  | nil => exact mixed
  | cons ts tss ih =>
    rw [List.flatten_cons, leavesAll_append] at mixed
    rw [List.map_cons, leavesAll]
    rcases List.mem_append.1 mixed with first | later
    · rw [join_of_mixed first]
      exact List.mem_append_left _ (List.mem_singleton_self _)
    · exact List.mem_append_right _ (ih later)

/-- The union of unions is the union of all that these are made of. -/
theorem join_map_join (tss : List (List Ty)) : join (tss.map join) = join tss.flatten := by
  by_cases mixed : .mixed ∈ leavesAll tss.flatten
  · rw [join_of_mixed mixed, join_of_mixed (mixed_mem_leavesAll_map_join mixed)]
  · rw [join_eq_toTy, join_eq_toTy, ofLeaves_map_join mixed]

/-! ### Order -/

theorem leavesAll_perm {ts us : List Ty} (perm : ts.Perm us) :
    (leavesAll ts).Perm (leavesAll us) := by
  rw [leavesAll_eq_flatMap, leavesAll_eq_flatMap]
  exact perm.flatMap_right leaves

theorem namedLeaves_perm {ts us : List Ty} (perm : ts.Perm us) :
    (namedLeaves ts).Perm (namedLeaves us) := by
  apply (List.perm_ext_iff_of_nodup (Distinct.nodup_eraseDups _) (Distinct.nodup_eraseDups _)).2
  intro l
  rw [List.mem_eraseDups, List.mem_eraseDups, List.mem_filter, List.mem_filter,
    (leavesAll_perm perm).mem_iff]

/-- The word for a reduced type follows from what it offers. -/
theorem IsReduced.kind_eq {t : Ty} (reduced : t.IsReduced) :
    t.kind = match t.alternatives, t.admitsNull with
      | [], false => "unknown"
      | [], true => "scalar"
      | [u], false => u.kind
      | _ :: _ :: _, false => "union"
      | _ :: _, true => "nullable" := by
  have more {ts : List Ty} (two : 2 ≤ ts.length) : ∃ t u rest, ts = t :: u :: rest := by
    match ts, two with
    | t :: u :: rest, _ => exact ⟨t, u, rest, rfl⟩
  cases reduced with
  | null | unknown | mixed => rfl
  | single h => rw [h.offers.1, h.offers.2]
  | several two =>
    obtain ⟨t, u, rest, rfl⟩ := more two
    rfl
  | singleOrNull h =>
    rw [alternatives, h.offers.1]
    rfl
  | severalOrNull two =>
    obtain ⟨t, u, rest, rfl⟩ := more two
    rfl

/-- Reduced types that offer the same in some order are of one kind. -/
theorem IsReduced.kind_perm {t u : Ty} (ht : t.IsReduced) (hu : u.IsReduced)
    (offers : t.alternatives.Perm u.alternatives) (nulls : t.admitsNull = u.admitsNull) :
    t.kind = u.kind := by
  rw [ht.kind_eq, hu.kind_eq, nulls]
  have sameLength := offers.length_eq
  match first : t.alternatives, second : u.alternatives with
  | [], us =>
    rw [first] at offers
    rw [← second, offers.symm.eq_nil]
  | [v], us =>
    rw [first, second] at offers
    rw [← offers.singleton_eq]
  | _ :: _ :: _, [] | _ :: _ :: _, [_] =>
    rw [first, second] at sameLength
    cases sameLength
  | _ :: _ :: _, _ :: _ :: _ => cases u.admitsNull <;> rfl

/-- How types are grouped does not matter to their union: that of the unions of some lists is the
union of all of their types. Their order matters only to the order of what it offers; its kind,
and whether it admits null, stay the same. -/
theorem join_regrouped :
    (∀ tss : List (List Ty), join tss.flatten = join (tss.map join)) ∧
    ∀ ts us : List Ty, ts.Perm us →
      (join ts).kind = (join us).kind ∧ (join ts).admitsNull = (join us).admitsNull ∧
      (join ts).alternatives.Perm (join us).alternatives := by
  refine ⟨fun tss => (join_map_join tss).symm, fun ts us perm => ?_⟩
  have leaves := leavesAll_perm perm
  by_cases mixed : .mixed ∈ leavesAll ts
  · rw [join_of_mixed mixed, join_of_mixed (leaves.mem_iff.1 mixed)]
    exact ⟨rfl, rfl, .refl _⟩
  · obtain ⟨offers, nulls, reduced⟩ := offers_join mixed
    obtain ⟨offers', nulls', reduced'⟩ := offers_join (mt leaves.mem_iff.2 mixed)
    have same : (join ts).alternatives.Perm (join us).alternatives := by
      rw [offers, offers']
      exact namedLeaves_perm perm
    have sameNull : (join ts).admitsNull = (join us).admitsNull := by
      rw [nulls, nulls', Bool.eq_iff_iff, List.contains_iff_mem, List.contains_iff_mem,
        leaves.mem_iff]
    exact ⟨reduced.kind_perm reduced' same sameNull, sameNull, same⟩

theorem join_regrouped_nullable :
    let ts := [.nullable (.scalar "int"), .unknown, .classRef "User"]
    let us := [.classRef "User", .nullable (.scalar "int"), .unknown]
    ts.Perm us ∧ (join ts).kind = (join us).kind ∧
      (join ts).admitsNull = (join us).admitsNull ∧
      (join ts).alternatives.Perm (join us).alternatives := by
  intro ts us
  have perm : ts.Perm us := by decide
  exact ⟨perm, join_regrouped.2 ts us perm⟩

end PhpSymbols.Ty
