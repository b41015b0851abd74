import PhpSymbols.Proofs.Ty.Canonical

/-!
# What a union is

* `alternatives`, `admitsNull`, `IsReduced`: what a type offers at its top level, and the form in
  which that is said only once;
* `toTy_cases`: a union under construction becomes null or unknown, a type by itself, or a union;
* `join_union`, `join_union_null`: a union of alternatives is a union of just these;
* `join_leaves`: whatever is joined, the result offers the distinct leaves, and a type is left as
  it is exactly if it is reduced.
-/

namespace PhpSymbols.Ty

/-! ### Alternatives as leaves -/

theorem IsAlternative.isLeaf {t : Ty} (h : t.IsAlternative) : t.IsLeaf := by
  cases t <;> first | exact h | trivial

theorem leaves_of_isLeaf {t : Ty} (leaf : t.IsLeaf) : t.leaves = [t] := by
  cases t with
  | union | nullable => exact leaf.elim
  | _ => rfl

theorem leavesAll_of_isLeaf {ts : List Ty} (leaf : ∀ t ∈ ts, t.IsLeaf) : leavesAll ts = ts := by
  induction ts with
  | nil => rfl
  | cons t ts ih =>
    rw [leavesAll, leaves_of_isLeaf (leaf t List.mem_cons_self),
      ih fun u hu => leaf u (List.mem_cons_of_mem t hu)]
    rfl

theorem isMember_of_isAlternative {t : Ty} (h : t.IsAlternative) :
    Alternatives.isMember t = true := by
  cases t with
  | scalar n =>
    have notNull : n ≠ "null" := h
    simp [Alternatives.isMember, null, notNull]
  | classRef | arrayOf => rfl
  | union | nullable | mixed | unknown => exact h.elim

theorem isAlternative_of_isLeaf {t : Ty} (leaf : t.IsLeaf) (notMixed : t ≠ .mixed)
    (member : t ≠ null ∧ t ≠ .unknown) : t.IsAlternative := by
  cases t with
  | scalar n => exact fun same => member.1 (congrArg Ty.scalar same)
  | classRef | arrayOf => trivial
  | mixed => exact notMixed rfl
  | unknown => exact member.2 rfl
  | union | nullable => exact leaf

theorem members_ofLeaves {ts : List Ty} (distinct : ts.Nodup)
    (alternatives : ∀ t ∈ ts, t.IsAlternative) :
    (ts.filter Alternatives.isMember).eraseDups = ts := by
  rw [List.filter_eq_self.2 fun t ht => isMember_of_isAlternative (alternatives t ht)]
  exact Distinct.eraseDupsBy_of_pairwise (distinct.imp fun h => by simpa using Ne.symm h)

/-! ### The type of a union under construction -/

/-- Two or more alternatives make a union of just these, with or without null. -/
theorem toTy_of_alternatives {ts : List Ty} (two : 2 ≤ ts.length)
    (alternatives : ∀ t ∈ ts, t.IsAlternative) (admitsNull : Bool) :
    (Alternatives.mk ts admitsNull).toTy =
      if admitsNull then .nullable (.union ts) else .union ts := by
  have noMixed : Ty.mixed ∉ ts := fun h => alternatives _ h
  match ts, two with
  | t :: u :: ts, _ =>
    rw [Alternatives.toTy, if_neg noMixed]
    rfl

theorem orNull_of_isAlternative {t : Ty} (h : t.IsAlternative) : t.orNull = .nullable t := by
  cases t with
  | scalar n => exact if_neg h
  | classRef | arrayOf => rfl
  | union | nullable | mixed | unknown => exact h.elim

/-- Alternatives become null or unknown if there are none, the one itself, or a union. -/
theorem toTy_cases {a : Alternatives} (alternatives : ∀ t ∈ a.members, t.IsAlternative) :
    (a.members = [] ∧ a.toTy = if a.admitsNull then null else .unknown) ∨
    (∃ t, a.members = [t] ∧ a.toTy = if a.admitsNull then .nullable t else t) ∨
    (2 ≤ a.members.length ∧
      a.toTy = if a.admitsNull then .nullable (.union a.members) else .union a.members) := by
  obtain ⟨members, admitsNull⟩ := a
  have noMixed : Ty.mixed ∉ members := fun h => alternatives _ h
  match members with
  | [] => exact .inl ⟨rfl, rfl⟩
  | [t] =>
    have orNull := orNull_of_isAlternative (alternatives t List.mem_cons_self)
    refine .inr (.inl ⟨t, rfl, ?_⟩)
    rw [Alternatives.toTy, if_neg noMixed]
    simp only [orNull]
  | t :: u :: rest =>
    have two : 2 ≤ (t :: u :: rest).length := Nat.le_add_left 2 _
    exact .inr (.inr ⟨two, toTy_of_alternatives two alternatives admitsNull⟩)

/-! ### What a type offers -/

/-- The types that `t` offers beside null. -/
def alternatives : Ty → List Ty
  | .scalar n => if n = "null" then [] else [.scalar n]
  | .classRef n => [.classRef n]
  | .arrayOf t => [.arrayOf t]
  | .union ts => ts
  | .nullable t => t.alternatives
  | .mixed => [.mixed]
  | .unknown => []

/-- Whether `t` is said to admit null. -/
def admitsNull : Ty → Bool
  | .scalar n => n == "null"
  | .nullable _ => true
  | .classRef _ | .arrayOf _ | .union _ | .mixed | .unknown => false

/-- Canonical at the top level, whatever the elements of arrays are. -/
inductive IsReduced : Ty → Prop where
  | null : IsReduced null
  | unknown : IsReduced .unknown
  | mixed : IsReduced .mixed
  | single {t : Ty} : t.IsAlternative → IsReduced t
  | several {ts : List Ty} : 2 ≤ ts.length → ts.Nodup → (∀ t ∈ ts, t.IsAlternative) →
      IsReduced (.union ts)
  | singleOrNull {t : Ty} : t.IsAlternative → IsReduced (.nullable t)
  | severalOrNull {ts : List Ty} : 2 ≤ ts.length → ts.Nodup → (∀ t ∈ ts, t.IsAlternative) →
      IsReduced (.nullable (.union ts))

theorem IsAlternative.offers {t : Ty} (h : t.IsAlternative) :
    t.alternatives = [t] ∧ t.admitsNull = false := by
  cases t with
  | scalar n => exact ⟨if_neg h, beq_false_of_ne h⟩
  | classRef | arrayOf => exact ⟨rfl, rfl⟩
  | union | nullable | mixed | unknown => exact h.elim

/-- The type for some alternatives offers these and is reduced. -/
theorem offers_toTy {a : Alternatives} (distinct : a.members.Nodup)
    (alternatives : ∀ t ∈ a.members, t.IsAlternative) :
    a.toTy.alternatives = a.members ∧ a.toTy.admitsNull = a.admitsNull ∧ a.toTy.IsReduced := by
  rcases toTy_cases alternatives with ⟨none, same⟩ | ⟨t, one, same⟩ | ⟨two, same⟩
  · rw [same, none]
    cases a.admitsNull with
    | false => exact ⟨rfl, rfl, .unknown⟩
    | true => exact ⟨rfl, rfl, .null⟩
  · have ht := alternatives t (one ▸ List.mem_singleton_self t)
    obtain ⟨itself, noNull⟩ := ht.offers
    rw [same, one]
    cases a.admitsNull with
    | false => exact ⟨itself, noNull, .single ht⟩
    | true => exact ⟨itself, rfl, .singleOrNull ht⟩
  · rw [same]
    cases a.admitsNull with
    | false => exact ⟨rfl, rfl, .several two distinct alternatives⟩
    | true => exact ⟨rfl, rfl, .severalOrNull two distinct alternatives⟩

/-- A reduced type is made of what it offers. -/
theorem IsReduced.toTy {t : Ty} (reduced : t.IsReduced) :
    (Alternatives.mk t.alternatives t.admitsNull).toTy = t := by
  have one {t : Ty} (h : t.IsAlternative) (admitsNull : Bool) :
      (Alternatives.mk [t] admitsNull).toTy = if admitsNull then .nullable t else t := by
    have all : ∀ u ∈ [t], u.IsAlternative := fun u mem => List.mem_singleton.1 mem ▸ h
    rcases toTy_cases (a := ⟨[t], admitsNull⟩) all with ⟨none, -⟩ | ⟨u, same, made⟩ | ⟨two, -⟩
    · exact absurd none (List.cons_ne_nil _ _)
    · rw [made, (List.cons.inj same).1]
    · exact absurd two (by simp)
  cases reduced with
  | null | unknown | mixed => rfl
  | single h =>
    obtain ⟨itself, noNull⟩ := h.offers
    rw [itself, noNull]
    exact one h false
  | several two _ alternatives => exact toTy_of_alternatives two alternatives false
  | singleOrNull h =>
    rw [alternatives, h.offers.1]
    exact one h true
  | severalOrNull two _ alternatives => exact toTy_of_alternatives two alternatives true

/-! ### Joining -/

/-- Distinct alternatives are all that becomes of them. -/
theorem ofLeaves_of_alternatives {ts : List Ty} (distinct : ts.Nodup)
    (alternatives : ∀ t ∈ ts, t.IsAlternative) : Alternatives.ofLeaves ts = ⟨ts, false⟩ := by
  have noNull : ts.contains null = false := by
    by_contra h
    simp only [Bool.not_eq_false, List.contains_iff_mem] at h
    exact alternatives null h rfl
  rw [Alternatives.ofLeaves, members_ofLeaves distinct alternatives, noNull]

theorem ofLeaves_null (ls : List Ty) :
    Alternatives.ofLeaves (null :: ls) = { Alternatives.ofLeaves ls with admitsNull := true } := by
  rw [Alternatives.ofLeaves, List.filter_cons_of_neg (by decide), List.contains_cons]
  rfl

theorem join_union {ts : List Ty} (two : 2 ≤ ts.length) (distinct : ts.Nodup)
    (alternatives : ∀ t ∈ ts, t.IsAlternative) : join ts = .union ts := by
  rw [join_eq_toTy, leavesAll_of_isLeaf fun t ht => (alternatives t ht).isLeaf,
    ofLeaves_of_alternatives distinct alternatives, toTy_of_alternatives two alternatives]
  rfl

theorem join_union_null {ts : List Ty} (two : 2 ≤ ts.length) (distinct : ts.Nodup)
    (alternatives : ∀ t ∈ ts, t.IsAlternative) :
    join (ts ++ [null]) = .nullable (.union ts) := by
  have leaf : ∀ t ∈ ts ++ [null], t.IsLeaf := by
    intro t ht
    rcases List.mem_append.1 ht with ht | ht
    · exact (alternatives t ht).isLeaf
    · exact List.mem_singleton.1 ht ▸ trivial
  have members : (ts ++ [null]).filter Alternatives.isMember =
      ts.filter Alternatives.isMember := by
    rw [List.filter_append, List.filter_cons_of_neg (by decide), List.filter_nil, List.append_nil]
  have hasNull : (ts ++ [null]).contains null = true := by simp
  rw [join_eq_toTy, leavesAll_of_isLeaf leaf, Alternatives.ofLeaves, members, hasNull,
    members_ofLeaves distinct alternatives, toTy_of_alternatives two alternatives]
  rfl

/-- The leaves of a reduced type are what it offers. -/
theorem IsReduced.ofLeaves {t : Ty} (reduced : t.IsReduced) :
    Alternatives.ofLeaves t.leaves = ⟨t.alternatives, t.admitsNull⟩ := by
  have one {t : Ty} (h : t.IsAlternative) : Alternatives.ofLeaves t.leaves = ⟨[t], false⟩ := by
    rw [leaves_of_isLeaf h.isLeaf]
    exact ofLeaves_of_alternatives (List.nodup_singleton t)
      fun _ mem => List.mem_singleton.1 mem ▸ h
  have more {ts : List Ty} (distinct : ts.Nodup) (alternatives : ∀ t ∈ ts, t.IsAlternative) :
      Alternatives.ofLeaves (leavesAll ts) = ⟨ts, false⟩ := by
    rw [leavesAll_of_isLeaf fun t ht => (alternatives t ht).isLeaf]
    exact ofLeaves_of_alternatives distinct alternatives
  cases reduced with
  | null | unknown | mixed => rfl
  | single h => rw [one h, h.offers.1, h.offers.2]
  | several _ distinct alternatives => exact more distinct alternatives
  | singleOrNull h =>
    rw [leaves, ofLeaves_null, one h, alternatives, h.offers.1]
    rfl
  | severalOrNull _ distinct alternatives =>
    rw [leaves, ofLeaves_null, leaves, more distinct alternatives]
    rfl

/-- The distinct leaves beside null and unknown, each where it occurs first. -/
def namedLeaves (ts : List Ty) : List Ty :=
  ((leavesAll ts).filter fun l => l ≠ null ∧ l ≠ .unknown).eraseDups

theorem join_of_mixed {ts : List Ty} (mixed : .mixed ∈ leavesAll ts) : join ts = .mixed := by
  have member : Ty.mixed ∈ (Alternatives.ofLeaves (leavesAll ts)).members :=
    Alternatives.mem_members_ofLeaves.2 ⟨mixed, by decide, by decide⟩
  rw [join_eq_toTy, Alternatives.toTy, if_pos member]

/-- Without `mixed`, a union offers its leaves. -/
theorem offers_join {ts : List Ty} (noMixed : .mixed ∉ leavesAll ts) :
    (join ts).alternatives = namedLeaves ts ∧
      (join ts).admitsNull = (leavesAll ts).contains null ∧ (join ts).IsReduced := by
  rw [join_eq_toTy]
  apply offers_toTy
  · exact Distinct.nodup_eraseDups _
  · intro t ht
    obtain ⟨leaf, member⟩ := Alternatives.mem_members_ofLeaves.1 ht
    have notMixed : t ≠ .mixed := fun same => noMixed (same ▸ leaf)
    exact isAlternative_of_isLeaf (isLeaf_of_mem_leavesAll ts t leaf) notMixed member

theorem isReduced_join (ts : List Ty) : (join ts).IsReduced := by
  by_cases mixed : .mixed ∈ leavesAll ts
  · rw [join_of_mixed mixed]
    exact .mixed
  · exact (offers_join mixed).2.2

theorem namedLeaves_eq_nil {ts : List Ty} :
    namedLeaves ts = [] ↔ ∀ l ∈ leavesAll ts, l = null ∨ l = .unknown := by
  rw [List.eq_nil_iff_forall_not_mem]
  have member {l : Ty} : l ∈ namedLeaves ts ↔ l ∈ leavesAll ts ∧ l ≠ null ∧ l ≠ .unknown :=
    Alternatives.mem_members_ofLeaves
  simp only [member]
  constructor
  · intro none l leaf
    by_contra other
    exact none l ⟨leaf, not_or.1 other⟩
  · rintro all l ⟨leaf, notNull, notUnknown⟩
    exact (all l leaf).elim notNull notUnknown

/-- If null and unknown are the only leaves, a union is one of them. -/
theorem join_of_unnamed {ts : List Ty} (unnamed : ∀ l ∈ leavesAll ts, l = null ∨ l = .unknown) :
    join ts = if null ∈ leavesAll ts then null else .unknown := by
  have noMixed : .mixed ∉ leavesAll ts := by
    intro mixed
    rcases unnamed .mixed mixed with h | h <;> exact absurd h (by decide)
  obtain ⟨offers, nulls, reduced⟩ := offers_join noMixed
  rw [← reduced.toTy, offers, nulls, namedLeaves_eq_nil.2 unnamed]
  simp [Alternatives.toTy]

theorem unnamed_of_alternatives_nil {ts : List Ty} (none : (join ts).alternatives = []) :
    ∀ l ∈ leavesAll ts, l = null ∨ l = .unknown := by
  by_cases mixed : .mixed ∈ leavesAll ts
  · rw [join_of_mixed mixed] at none
    exact absurd none (List.cons_ne_nil _ _)
  · exact namedLeaves_eq_nil.1 ((offers_join mixed).1.symm.trans none)

theorem join_eq_null_iff (ts : List Ty) :
    join ts = null ↔ null ∈ leavesAll ts ∧ ∀ l ∈ leavesAll ts, l = null ∨ l = .unknown := by
  constructor
  · intro isNull
    have offersNone : (join ts).alternatives = [] := by rw [isNull]; rfl
    have unnamed := unnamed_of_alternatives_nil offersNone
    refine ⟨?_, unnamed⟩
    by_contra noNull
    rw [join_of_unnamed unnamed, if_neg noNull] at isNull
    exact absurd isNull (by decide)
  · rintro ⟨isNull, unnamed⟩
    rw [join_of_unnamed unnamed, if_pos isNull]

theorem join_eq_unknown_iff (ts : List Ty) :
    join ts = .unknown ↔ ∀ l ∈ leavesAll ts, l = .unknown := by
  constructor
  · intro unknown
    have offersNone : (join ts).alternatives = [] := by rw [unknown]; rfl
    have unnamed := unnamed_of_alternatives_nil offersNone
    intro l leaf
    refine (unnamed l leaf).resolve_left ?_
    rintro rfl
    rw [join_of_unnamed unnamed, if_pos leaf] at unknown
    exact absurd unknown (by decide)
  · intro all
    have noNull : null ∉ leavesAll ts := fun leaf => absurd (all null leaf) (by decide)
    rw [join_of_unnamed fun l leaf => .inr (all l leaf), if_neg noNull]

/-- A type joined with nothing stays as it is exactly if it is reduced. -/
theorem join_singleton_iff (t : Ty) : join [t] = t ↔ t.IsReduced := by
  constructor
  · intro same
    exact same ▸ isReduced_join [t]
  · intro reduced
    have leaves : leavesAll [t] = t.leaves := List.append_nil t.leaves
    rw [join_eq_toTy, leaves, reduced.ofLeaves, reduced.toTy]

/-- A union follows from the leaves of what is joined, however that is nested. `mixed` among them
takes all. Else the result offers the distinct leaves in the order in which they occur first, and
admits null exactly if null is a leaf, which it is for every nullable. It is null if there is
nothing else but unknown leaves, and unknown if there is nothing else at all; it is no union of
fewer than two members. A type by itself is kept exactly if it is reduced. -/
theorem join_leaves (ts : List Ty) :
    (.mixed ∈ leavesAll ts → join ts = .mixed) ∧
    (.mixed ∉ leavesAll ts → (join ts).alternatives = namedLeaves ts ∧
      ((join ts).admitsNull = true ↔ null ∈ leavesAll ts)) ∧
    (join ts = null ↔ null ∈ leavesAll ts ∧ ∀ l ∈ leavesAll ts, l = null ∨ l = .unknown) ∧
    (join ts = .unknown ↔ ∀ l ∈ leavesAll ts, l = .unknown) ∧
    (∀ us, join ts = .union us ∨ join ts = .nullable (.union us) → 2 ≤ us.length) ∧
    (join ts).IsReduced ∧
    ∀ t, join [t] = t ↔ t.IsReduced := by
  have reduced := isReduced_join ts
  refine ⟨join_of_mixed, ?_, join_eq_null_iff ts, join_eq_unknown_iff ts, ?_, reduced,
    join_singleton_iff⟩
  · intro noMixed
    obtain ⟨offers, nulls, -⟩ := offers_join noMixed
    exact ⟨offers, by rw [nulls, List.contains_iff_mem]⟩
  · rintro us (same | same)
    · rw [same] at reduced
      cases reduced with
      | single h => exact h.elim
      | several two => exact two
    · rw [same] at reduced
      cases reduced with
      | single h | singleOrNull h => exact h.elim
      | severalOrNull two => exact two

end PhpSymbols.Ty
