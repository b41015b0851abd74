import Mathlib.Data.List.Induction
import Mathlib.Data.List.Nodup

/-!
# The first of each

Adding items one by one, each unless an equal one is there, keeps the first of
every class of equal items:

* `foldl_insertUnless`: the items kept are `List.eraseDupsBy` of all items;
* `eraseDupsBy_pairwise`, `exists_mem_eraseDupsBy`: what is kept is pairwise
  different, and every item is kept or equal to one that is;
* `eraseDupsBy_prefix`: what was kept before more items came stays in front;
* `nodup_eraseDups`, `eraseDups_append_eraseDups`: the same for equal items, and that two lists
  in a row may each lose their copies first;
* `firsts`, `nodup_firsts`, `mem_before_of_mem_firsts`, `mem_firsts_of_free`: the same
  for items that are equal when they have the same key.
-/

namespace PhpSymbols.Distinct
variable {α : Type} {r : α → α → Bool}

theorem loop_concat (as : List α) (x : α) (bs : List α) :
    List.eraseDupsBy.loop r (as ++ [x]) bs =
      if (List.eraseDupsBy.loop r as bs).any (r x) then List.eraseDupsBy.loop r as bs
      else List.eraseDupsBy.loop r as bs ++ [x] := by
  induction as generalizing bs with
  | nil =>
    simp only [List.nil_append, List.eraseDupsBy.loop, List.any_reverse]
    cases h : bs.any (r x) <;> simp
  | cons a as ih =>
    simp only [List.cons_append, List.eraseDupsBy.loop]
    by_cases h : bs.any (r a) = true
    · simpa only [h] using ih bs
    · rw [Bool.not_eq_true] at h
      simpa only [h] using ih (a :: bs)

/-- One more item is kept unless an equal one was. -/
theorem eraseDupsBy_concat (as : List α) (x : α) :
    (as ++ [x]).eraseDupsBy r =
      if (as.eraseDupsBy r).any (r x) then as.eraseDupsBy r else as.eraseDupsBy r ++ [x] :=
  loop_concat as x []

/-- Adds `x` at the end unless an equal item is there. -/
def insertUnless (r : α → α → Bool) (as : List α) (x : α) : List α :=
  if as.any (r x) then as else as ++ [x]

/-- Adding items one by one keeps the first of each. -/
theorem foldl_insertUnless (as xs : List α) :
    xs.foldl (insertUnless r) (as.eraseDupsBy r) = (as ++ xs).eraseDupsBy r := by
  induction xs generalizing as with
  | nil => simp
  | cons x xs ih =>
    have step : insertUnless r (as.eraseDupsBy r) x = (as ++ [x]).eraseDupsBy r :=
      (eraseDupsBy_concat as x).symm
    rw [List.foldl_cons, step, ih, List.append_assoc, List.singleton_append]

theorem eraseDupsBy_sublist (as : List α) : (as.eraseDupsBy r).Sublist as := by
  match as with
  | [] => simp
  | a :: as =>
    rw [List.eraseDupsBy_cons]
    exact ((eraseDupsBy_sublist _).trans List.filter_sublist).cons_cons a
termination_by as.length
decreasing_by exact Nat.lt_succ_of_le (List.length_filter_le _ _)

theorem mem_of_mem_eraseDupsBy {as : List α} {a : α} (h : a ∈ as.eraseDupsBy r) : a ∈ as :=
  (eraseDupsBy_sublist as).subset h

/-- What is kept is pairwise different. -/
theorem eraseDupsBy_pairwise (as : List α) :
    (as.eraseDupsBy r).Pairwise fun a b => r b a = false := by
  match as with
  | [] => simp
  | a :: as =>
    rw [List.eraseDupsBy_cons, List.pairwise_cons]
    refine ⟨?_, eraseDupsBy_pairwise _⟩
    intro b hb
    simpa using (List.mem_filter.1 (mem_of_mem_eraseDupsBy hb)).2
termination_by as.length
decreasing_by exact Nat.lt_succ_of_le (List.length_filter_le _ _)

/-- Items that are pairwise different are all kept. -/
theorem eraseDupsBy_of_pairwise {as : List α} (h : as.Pairwise fun a b => r b a = false) :
    as.eraseDupsBy r = as := by
  induction as with
  | nil => rfl
  | cons a as ih =>
    obtain ⟨ha, has⟩ := List.pairwise_cons.1 h
    rw [List.eraseDupsBy_cons, List.filter_eq_self.2 (by simpa using ha), ih has]

/-- Every item is kept or equal to one that is. -/
theorem exists_mem_eraseDupsBy (refl : ∀ a, r a a = true) {as : List α} {a : α} (h : a ∈ as) :
    ∃ b ∈ as.eraseDupsBy r, r a b = true := by
  induction as using List.reverseRecOn generalizing a with
  | nil => simp at h
  | append_singleton as x ih =>
    rw [eraseDupsBy_concat]
    rcases List.mem_append.1 h with h | h
    · obtain ⟨b, hb, hab⟩ := ih h
      refine ⟨b, ?_, hab⟩
      split
      · exact hb
      · exact List.mem_append_left _ hb
    · obtain rfl := List.mem_singleton.1 h
      split
      · rename_i kept
        exact List.any_eq_true.1 kept
      · exact ⟨a, List.mem_append_right _ (List.mem_singleton_self a), refl a⟩

/-- More items do not move what was kept before. -/
theorem eraseDupsBy_prefix (as xs : List α) :
    as.eraseDupsBy r <+: (as ++ xs).eraseDupsBy r := by
  induction xs using List.reverseRecOn with
  | nil => simp
  | append_singleton xs x ih =>
    rw [← List.append_assoc, eraseDupsBy_concat]
    split
    · exact ih
    · exact ih.trans (List.prefix_append _ _)

/-! ### Equal items -/

section
variable [BEq α] [LawfulBEq α]

theorem nodup_eraseDups (as : List α) : as.eraseDups.Nodup := by
  refine (eraseDupsBy_pairwise as).imp ?_
  rintro a b different rfl
  simp at different

theorem eraseDups_concat (as : List α) (x : α) :
    (as ++ [x]).eraseDups = if x ∈ as then as.eraseDups else as.eraseDups ++ [x] := by
  have seen : (as.eraseDups.any fun a => x == a) = true ↔ x ∈ as := by simp
  have step : (as ++ [x]).eraseDups =
      if (as.eraseDups.any fun a => x == a) then as.eraseDups else as.eraseDups ++ [x] :=
    eraseDupsBy_concat as x
  by_cases h : x ∈ as
  · rw [step, if_pos h, if_pos (seen.2 h)]
  · rw [step, if_neg h, if_neg (mt seen.1 h)]

/-- Two lists in a row may each lose their copies first. -/
theorem eraseDups_append_eraseDups (as bs : List α) :
    (as.eraseDups ++ bs.eraseDups).eraseDups = (as ++ bs).eraseDups := by
  induction bs using List.reverseRecOn with
  | nil =>
    rw [List.eraseDups_nil, List.append_nil, List.append_nil]
    exact eraseDupsBy_of_pairwise (eraseDupsBy_pairwise as)
  | append_singleton bs x ih =>
    rw [eraseDups_concat bs, ← List.append_assoc as, eraseDups_concat (as ++ bs)]
    by_cases old : x ∈ bs
    · rw [if_pos old, if_pos (List.mem_append_right as old), ih]
    · rw [if_neg old, ← List.append_assoc, eraseDups_concat, ih]
      simp only [List.mem_append, List.mem_eraseDups]

end

/-! ### Keys -/

variable {κ : Type} [BEq κ] [LawfulBEq κ] {key : α → κ}

/-- The first item of each key, in the order of the items. -/
def firsts (key : α → κ) (as : List α) : List α := as.eraseDupsBy fun a b => key a == key b

theorem nodup_firsts (as : List α) : ((firsts key as).map key).Nodup := by
  rw [List.nodup_iff_pairwise_ne, List.pairwise_map]
  refine (eraseDupsBy_pairwise as).imp ?_
  intro a b different same
  simp [same] at different

/-- The item of a key that is kept is the only one. -/
theorem eq_of_mem_firsts {as : List α} {x y : α} (first : x ∈ firsts key as)
    (second : y ∈ firsts key as) (same : key x = key y) : x = y :=
  List.inj_on_of_nodup_map (nodup_firsts as) first second same

/-- An item is kept if no item before it has its key. -/
theorem mem_firsts_of_free {before after : List α} {x : α}
    (free : ∀ a ∈ before, key a ≠ key x) : x ∈ firsts key (before ++ x :: after) := by
  have unseen : ¬ ((before.eraseDupsBy fun a b => key a == key b).any
      fun a => key x == key a) = true := by
    intro seen
    obtain ⟨a, ha, same⟩ := List.any_eq_true.1 seen
    exact free a (mem_of_mem_eraseDupsBy ha) (eq_of_beq same).symm
  have kept : x ∈ firsts key (before ++ [x]) := by
    rw [firsts, eraseDupsBy_concat, if_neg unseen]
    exact List.mem_append_right _ (List.mem_singleton_self x)
  have stays := eraseDupsBy_prefix (r := fun a b => key a == key b) (before ++ [x]) after
  rw [List.append_assoc, List.singleton_append] at stays
  exact stays.subset kept

/-- What is kept of a key stands no later than any item of that key. -/
theorem mem_before_of_mem_firsts {before after : List α} {x y : α}
    (kept : y ∈ firsts key (before ++ x :: after)) (same : key y = key x) :
    y ∈ before ++ [x] := by
  have last : x ∈ before ++ [x] := List.mem_append_right _ (List.mem_singleton_self x)
  obtain ⟨z, hz, hxz⟩ := exists_mem_eraseDupsBy (r := fun a b => key a == key b)
    (fun _ => beq_self_eq_true _) last
  have stays := eraseDupsBy_prefix (r := fun a b => key a == key b) (before ++ [x]) after
  rw [List.append_assoc, List.singleton_append] at stays
  have equal : y = z :=
    eq_of_mem_firsts kept (stays.subset hz) (same.trans (eq_of_beq hxz))
  exact equal ▸ mem_of_mem_eraseDupsBy hz

omit [LawfulBEq κ] in
/-- What is kept stays when more items come. -/
theorem mem_firsts_append {before after : List α} {x : α} (kept : x ∈ firsts key before) :
    x ∈ firsts key (before ++ after) := by
  have stays := eraseDupsBy_prefix (r := fun a b => key a == key b) before after
  exact stays.subset kept

/-- For every item one with its key is kept. -/
theorem exists_mem_firsts {as : List α} {x : α} (member : x ∈ as) :
    ∃ y ∈ firsts key as, key x = key y := by
  obtain ⟨y, kept, same⟩ := exists_mem_eraseDupsBy (r := fun a b => key a == key b)
    (fun _ => beq_self_eq_true _) member
  exact ⟨y, kept, eq_of_beq same⟩

end PhpSymbols.Distinct
