import PhpSymbols.Proofs.Distinct
import PhpSymbols.Symbol.ClassLike

/-!
# Merging named symbols

Symbols of one kind are told apart by a key: methods by their name without letter
case, properties and constants by their name.

* `toList_foldl_insertIfAbsent`: adding symbols to an empty collection keeps the
  first of each key;
* `mem_foldl_insertIfAbsent`: what is there in the end was there or was added;
* `IsMerge`, `isMerge_firsts`: what it means that offered symbols were added to
  declared ones.
-/

namespace PhpSymbols

def Method.key (m : Method) : List Char := Text.lower m.name.toList

theorem Method.answersTo_name (m n : Method) :
    Named.answersTo n (Named.name m) = (m.key == n.key) := by
  change (n.key == m.key) = (m.key == n.key)
  exact BEq.comm

/-- A property without a leading dollar sign, which its name must not have. -/
def Property.IsPlain (p : Property) : Prop := p.name.toList.head? ≠ some '$'

theorem Property.answersTo_name {p : Property} (plain : p.IsPlain) (q : Property) :
    Named.answersTo q (Named.name p) = (p.name == q.name) := by
  have unchanged : String.ofList (Text.stripFirst '$' p.name.toList) = p.name := by
    rw [Text.stripFirst_of_head?_ne plain, String.ofList_toList]
  change (q.name == String.ofList (Text.stripFirst '$' p.name.toList)) = _
  rw [unchanged]
  exact BEq.comm

theorem Constant.answersTo_name (c d : Constant) :
    Named.answersTo d (Named.name c) = (c.name == d.name) := BEq.comm

namespace Collection
variable {α κ : Type} [Named α] [BEq κ] {key : α → κ}

theorem toList_insertIfAbsent (c : Collection α) {x : α}
    (keyed : ∀ y, Named.answersTo y (Named.name x) = (key x == key y)) :
    (c.insertIfAbsent x).toList =
      Distinct.insertUnless (fun a b => key a == key b) c.toList x := by
  have taken : c.contains (Named.name x) = c.toList.any fun y => key x == key y := by
    rw [contains_eq_any]
    exact congrArg c.toList.any (funext keyed)
  rw [insertIfAbsent, Distinct.insertUnless, taken]
  split <;> rfl

theorem toList_foldl (c : Collection α) {xs : List α}
    (keyed : ∀ x ∈ xs, ∀ y, Named.answersTo y (Named.name x) = (key x == key y)) :
    (xs.foldl insertIfAbsent c).toList =
      xs.foldl (Distinct.insertUnless fun a b => key a == key b) c.toList := by
  induction xs generalizing c with
  | nil => rfl
  | cons x xs ih =>
    rw [List.foldl_cons, List.foldl_cons, ih _ fun z hz => keyed z (List.mem_cons_of_mem x hz),
      toList_insertIfAbsent c (keyed x List.mem_cons_self)]

/-- Adding symbols one by one keeps the first of each key. -/
theorem toList_foldl_insertIfAbsent {xs : List α}
    (keyed : ∀ x ∈ xs, ∀ y, Named.answersTo y (Named.name x) = (key x == key y)) :
    (xs.foldl insertIfAbsent {}).toList = Distinct.firsts key xs := by
  rw [toList_foldl {} keyed]
  exact Distinct.foldl_insertUnless [] xs

theorem mem_insertIfAbsent {c : Collection α} {x y : α} (mem : x ∈ (c.insertIfAbsent y).toList) :
    x ∈ c.toList ∨ x = y := by
  unfold insertIfAbsent at mem
  split at mem
  · exact .inl mem
  · simpa using mem

theorem mem_foldl_insertIfAbsent {c : Collection α} {x : α} {ys : List α}
    (mem : x ∈ (ys.foldl insertIfAbsent c).toList) : x ∈ c.toList ∨ x ∈ ys := by
  induction ys generalizing c with
  | nil => exact .inl mem
  | cons y ys ih =>
    rcases ih mem with mem | mem
    · exact (mem_insertIfAbsent mem).imp_right fun same => by simp [same]
    · exact .inr (List.mem_cons_of_mem y mem)

end Collection

/-! ### Finding methods -/

/-- A method of its own key is found by its name. -/
theorem Method.find?_firsts {ms : List Method} {m : Method} (kept : m ∈ Distinct.firsts key ms) :
    (Distinct.firsts key ms).find? (Named.answersTo · m.name) = some m := by
  cases found : (Distinct.firsts key ms).find? (Named.answersTo · m.name) with
  | none =>
    have other := List.find?_eq_none.1 found m kept
    exact absurd ((m.answersTo_name m).trans (beq_self_eq_true _)) other
  | some n =>
    have answers := List.find?_some found
    have same : m.key = n.key := eq_of_beq ((m.answersTo_name n).symm.trans answers)
    rw [Distinct.eq_of_mem_firsts kept (List.mem_of_find?_eq_some found) same]

/-- By the name of a method one is found. -/
theorem Method.isSome_find?_firsts {ms : List Method} {m : Method} (member : m ∈ ms) :
    ((Distinct.firsts key ms).find? (Named.answersTo · m.name)).isSome = true := by
  obtain ⟨n, kept, same⟩ : ∃ n ∈ Distinct.firsts key ms, m.key = n.key :=
    Distinct.exists_mem_firsts member
  refine List.find?_isSome.2 ⟨n, kept, ?_⟩
  exact (m.answersTo_name n).trans (beq_iff_eq.2 same)

/-! ### Merging -/

/-- `merged` is what `declared` become when `offered` are added to them: the first
of each key, in order, so that the declared come before the offered and whatever
was offered earlier before whatever was offered later. -/
structure IsMerge {α κ : Type} [BEq κ] (key : α → κ) (isVirtual : α → Bool)
    (declared offered merged : List α) : Prop where
  eq_firsts : merged = Distinct.firsts key (declared ++ offered)
  /-- Only what was offered is virtual. -/
  concrete : ∀ x ∈ declared, isVirtual x = false
  virtual : ∀ x ∈ offered, isVirtual x = true
  nodup : (merged.map key).Nodup
  /-- What has the key of `x` is `x` or stood before it. -/
  earliest : ∀ before x after, declared ++ offered = before ++ x :: after →
    ∀ y ∈ merged, key y = key x → y ∈ before ++ [x]
  /-- What has a key of its own so far is not lost. -/
  free : ∀ before x after, declared ++ offered = before ++ x :: after →
    (∀ a ∈ before, key a ≠ key x) → x ∈ merged

theorem isMerge_firsts {α κ : Type} [BEq κ] [LawfulBEq κ] {key : α → κ} {isVirtual : α → Bool}
    {declared offered merged : List α} (h : merged = Distinct.firsts key (declared ++ offered))
    (concrete : ∀ x ∈ declared, isVirtual x = false)
    (virtual : ∀ x ∈ offered, isVirtual x = true) :
    IsMerge key isVirtual declared offered merged where
  eq_firsts := h
  concrete := concrete
  virtual := virtual
  nodup := h ▸ Distinct.nodup_firsts _
  earliest := by
    intro before x after order y hy same
    rw [h, order] at hy
    exact Distinct.mem_before_of_mem_firsts hy same
  free := by
    intro before x after order unseen
    rw [h, order]
    exact Distinct.mem_firsts_of_free unseen

end PhpSymbols
