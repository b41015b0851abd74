import PhpSymbols.Proofs.Php.Tokens
import PhpSymbols.Source.Locator

/-!
# Keys of names

An index takes all backslashes from the start of a name; a look-up takes one, and none from the
names that are declared.

* `indexKey_eq_iff`: names without a leading backslash have one key if only case tells them apart;
* `mem_keysOf_iff`: so the keys of a declaration are those of the names it answers to, but for a
  qualified name that starts with a backslash itself;
* `TemporaryLocator.IsDeclaring`: each source is registered under keys of what it declares.
-/

namespace PhpSymbols
open Text

/-- The name starts with a backslash. -/
def HasRoot (name : String) : Prop := name.toList.head? = some '\\'

instance (name : String) : Decidable (HasRoot name) :=
  inferInstanceAs (Decidable (name.toList.head? = some '\\'))

theorem toList_indexKey (name : String) :
    (indexKey name).toList = (lower name.toList).dropWhile (· == '\\') := by
  have lowered : (· == '\\') ∘ Char.toLower = (· == '\\') := by
    funext c
    rw [Bool.eq_iff_iff, Function.comp_apply, beq_iff_eq, beq_iff_eq]
    exact ⟨eq_of_toLower (by decide), fun same => by rw [same]; rfl⟩
  rw [indexKey, String.toList_ofList, lower, lower, List.dropWhile_map, lowered]

/-- Names that differ in case only have the same key. -/
theorem indexKey_eq_of_same {a b : String} (same : sameIgnoringCase a b) :
    indexKey a = indexKey b := by
  rw [sameIgnoringCase, beq_iff_eq] at same
  apply String.toList_injective
  rw [toList_indexKey, toList_indexKey, same]

/-- Without leading backslashes there are none to take. -/
theorem indexKey_of_not_hasRoot {name : String} (plain : ¬ HasRoot name) :
    indexKey name = String.ofList (lower name.toList) := by
  rw [indexKey]
  cases written : name.toList with
  | nil => rfl
  | cons c rest =>
    have other : c ≠ '\\' := by
      rintro rfl
      exact plain (congrArg List.head? written)
    rw [List.dropWhile_cons_of_neg (by simpa using other)]

theorem indexKey_eq_iff {a b : String} (plain_a : ¬ HasRoot a) (plain_b : ¬ HasRoot b) :
    indexKey a = indexKey b ↔ sameIgnoringCase a b = true := by
  rw [indexKey_of_not_hasRoot plain_a, indexKey_of_not_hasRoot plain_b, sameIgnoringCase,
    beq_iff_eq]
  exact ⟨fun same => String.ofList_injective same, congrArg String.ofList⟩

theorem indexKey_unrooted (name : String) : indexKey (unrooted name) = indexKey name := by
  rw [indexKey, indexKey, unrooted, String.toList_ofList]
  cases name.toList with
  | nil => rfl
  | cons c rest =>
    rw [stripFirst]
    split
    · rename_i here
      rw [List.dropWhile_cons_of_pos (by simpa using here)]
    · rfl

/-! ### Keys of declarations -/

theorem mem_keysOf {k short fqn : String} :
    k ∈ keysOf short fqn ↔ k = indexKey short ∨ k = indexKey fqn := by
  rw [keysOf]
  split
  · rename_i same
    rw [List.mem_singleton, same, or_self]
  · rw [List.mem_cons, List.mem_singleton, or_comm]

/-- What has a name is known by the key of the name. The converse fails for a qualified name with a
leading backslash, since no name that is looked up has one. -/
theorem mem_keysOf_iff {short fqn n : String} (plain : ¬ HasRoot short)
    (single : ¬ HasRoot (unrooted n)) :
    indexKey n ∈ keysOf short fqn ↔
      answersToQualified short fqn n = true ∨ HasRoot fqn ∧ indexKey fqn = indexKey n := by
  rw [mem_keysOf, answersToQualified, Bool.or_eq_true, ← indexKey_unrooted n]
  constructor
  · rintro (by_short | by_fqn)
    · exact .inl (.inl ((indexKey_eq_iff plain single).1 by_short.symm))
    · by_cases rooted : HasRoot fqn
      · exact .inr ⟨rooted, by_fqn.symm⟩
      · exact .inl (.inr ((indexKey_eq_iff rooted single).1 by_fqn.symm))
  · rintro ((by_short | by_fqn) | ⟨-, by_key⟩)
    · exact .inl (indexKey_eq_of_same by_short).symm
    · exact .inr (indexKey_eq_of_same by_fqn).symm
    · exact .inr by_key.symm

/-! ### Temporary locators -/

namespace TemporaryLocator
variable [Php.Frontend] {l : TemporaryLocator}

/-- Each source is registered under keys of what it declares. -/
def IsDeclaring (l : TemporaryLocator) : Prop :=
  ∀ k source, (k, source) ∈ l.sources → k ∈ declaredNames source

theorem IsDeclaring.register (declaring : l.IsDeclaring) {k source : String}
    (declared : k ∈ declaredNames source) : (l.register k source).IsDeclaring := by
  intro k' source' mem
  rcases List.mem_cons.1 mem with new | old
  · obtain ⟨rfl, rfl⟩ := Prod.mk.inj new
    exact declared
  · exact declaring k' source' (List.mem_filter.1 old).1

theorem IsDeclaring.setSource (declaring : l.IsDeclaring) (source : String) :
    (l.setSource source).IsDeclaring :=
  List.foldlRecOn _ _ declaring fun _ declaring _ mem => declaring.register mem

theorem isDeclaring_empty : ({} : TemporaryLocator).IsDeclaring :=
  fun _ _ mem => absurd mem List.not_mem_nil

/-- A name is found in a source that declares it. -/
theorem IsDeclaring.locate (declaring : l.IsDeclaring) {name source : String}
    (located : l.locate name = .ok source) : indexKey name ∈ declaredNames source := by
  rw [TemporaryLocator.locate] at located
  split at located
  · rename_i found
    obtain rfl := Except.ok.inj located
    exact declaring _ _ (mem_of_lookup found)
  · exact absurd located nofun

end TemporaryLocator
end PhpSymbols
