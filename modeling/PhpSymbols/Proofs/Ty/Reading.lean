import PhpSymbols.Proofs.Ty.Canonical

/-!
# What expressions read as

* `resolve_of_single`, `resolve_of_several`, `resolveToken_eq`: reading, without
  the bookkeeping of its termination;
* `isClassPath_iff`: class paths are backslash-separated names;
* `known_readName`, `known_readBase`, `known_resolveToken`: whatever a token is
  recognised as is known;
* `read_canonical`: whatever is read is canonical.
-/

namespace PhpSymbols.Resolver
open Ty Ty.Expression

/-! ### Equations -/

/-- What one token gives a union. -/
def contribution (r : Resolver) (token : List Char) : List Ty :=
  match r.resolveToken token with
  | some t => [t]
  | none => r.unrecognised

/-- The type itself, unless nothing is known. -/
def known? (t : Ty) : Option Ty := if t = .unknown then none else some t

/-- What generic arguments make of their base. -/
def readGenerics (r : Resolver) (base generics : List Char) : Option Ty :=
  match between? '<' '>' generics with
  | none => none
  | some arguments =>
    if iterableBases.contains (String.ofList (Text.lower base)) then
      some (.arrayOf ((known? (r.resolve (lastArgument arguments))).getD .mixed))
    else if Text.lower base = "class-string".toList then some (.scalar "class-string")
    else if isClassName base then some (Ty.ofClass (String.ofList base))
    else none

/-- What a name before an opening bracket reads as. -/
def readBase (r : Resolver) (base : List Char) : (opened : List Char) → Option Ty
  | [] => readName base
  | '{' :: _ => readShape base
  | '(' :: _ => readSignature base
  | generics => r.readGenerics base generics

/-- The brackets that a name ends at. -/
def opensArguments (c : Char) : Bool := c == '<' || c == '{' || c == '('

theorem resolve_of_single {r : Resolver} {expression token : List Char}
    (single : splitUnion (Text.trim expression) = [token]) :
    r.resolve expression = (r.resolveToken token).getD .unknown := by
  rw [resolve]
  split
  · rename_i t h
    obtain rfl : token = t := by simpa [single] using h
    rfl
  · rename_i h
    exact absurd single (h token)

theorem resolve_of_several {r : Resolver} {expression : List Char}
    (several : ∀ token, splitUnion (Text.trim expression) ≠ [token]) :
    r.resolve expression =
      match (splitUnion (Text.trim expression)).flatMap r.contribution with
      | [] => .mixed
      | ts => Ty.join ts := by
  rw [resolve]
  split
  · rename_i t h
    exact absurd h (several t)
  · have attached : (splitUnion (Text.trim expression)).attach.flatMap
        (fun x => r.contribution x.1) =
          (splitUnion (Text.trim expression)).flatMap r.contribution := by
      rw [← List.flatMap_map, List.attach_map_subtype_val]
    rw [← attached]
    rfl

theorem resolveToken_eq (r : Resolver) (raw : List Char) :
    r.resolveToken raw =
      match clean raw with
      | [] => none
      | c :: rest =>
        match between? '(' ')' (c :: rest) with
        | some inner => known? (r.resolve inner)
        | none =>
          if c = '?' then (r.resolveToken rest).map Ty.orNull
          else match Text.ahead? "[]".toList (c :: rest) with
            | some element => (r.resolveToken element).map .arrayOf
            | none =>
              let (base, opened) := Text.breakOn opensArguments (c :: rest)
              r.readBase base opened := by
  rw [resolveToken]
  split
  · rename_i cleaned
    rw [cleaned]
  · rename_i c rest cleaned
    rw [cleaned]
    dsimp only
    split
    · rename_i inner grouped
      rw [grouped]
      unfold known?
      split <;> simp_all
    · rename_i grouped
      rw [grouped]
      dsimp only
      split
      · rfl
      · split
        · rename_i suffixed
          rw [suffixed]
        · rename_i suffixed
          rw [suffixed]
          dsimp only
          split
          · rename_i name opened
            rw [show Text.breakOn opensArguments (c :: rest) = (name, []) from opened]
            rfl
          · rename_i base tail opened
            rw [show Text.breakOn opensArguments (c :: rest) = (base, '{' :: tail) from opened]
            rfl
          · rename_i base tail opened
            rw [show Text.breakOn opensArguments (c :: rest) = (base, '(' :: tail) from opened]
            rfl
          · rename_i base generics notName notShape notSignature opened
            rw [show Text.breakOn opensArguments (c :: rest) = (base, generics) from opened,
              readBase.eq_4 _ _ _ notName notShape notSignature]
            unfold readGenerics known?
            split
            · rename_i enclosed
              rw [enclosed]
            · rename_i enclosed
              rw [enclosed]
              dsimp only
              split
              · split <;> simp_all
              · rfl

end PhpSymbols.Resolver

namespace PhpSymbols.Ty
open Expression

theorem head?_ne_of_segments {s : List Char} (h : (s.splitOn '\\').all isNameSegment = true) :
    s.head? ≠ some '\\' := by
  intro first
  obtain ⟨rest, rfl⟩ := List.head?_eq_some_iff.1 first
  rw [List.splitOn_cons_eq_if_modifyHead] at h
  exact Bool.false_ne_true (List.all_eq_true.1 h [] List.mem_cons_self)

/-- A class path is names with a backslash between any two. -/
theorem isClassPath_iff {n : String} :
    IsClassPath n ↔ (n.toList.splitOn '\\').all isNameSegment = true := by
  constructor
  · rintro ⟨name, noSlash⟩
    rwa [isClassName, Text.stripFirst_of_head?_ne noSlash] at name
  · intro segments
    have noSlash := head?_ne_of_segments segments
    exact ⟨by rwa [isClassName, Text.stripFirst_of_head?_ne noSlash], noSlash⟩

/-- The backslash that a class name may start with is gone from its type. -/
theorem known_ofClass {token : List Char} (h : isClassName token = true) :
    (ofClass (String.ofList token)).Known IsClassPath := by
  unfold ofClass
  split
  · rename_i rest complete
    rw [String.toList_ofList] at complete
    subst complete
    exact .classRef (isClassPath_iff.2 (by rwa [String.toList_ofList]))
  · rename_i incomplete
    rw [String.toList_ofList] at incomplete
    refine .classRef ⟨by rwa [String.toList_ofList], fun first => ?_⟩
    rw [String.toList_ofList] at first
    obtain ⟨rest, complete⟩ := List.head?_eq_some_iff.1 first
    exact incomplete rest complete

theorem known_scalarOfSpelling? {P : String → Prop} {name : List Char} {t : Ty}
    (h : scalarOfSpelling? name = some t) : t.Known P := by
  obtain ⟨shown, found, rfl⟩ := Option.map_eq_some_iff.1 h
  obtain ⟨before, after, spellings, _⟩ := List.lookup_eq_some_iff.1 found
  apply Known.scalar
  rw [scalarNames, spellings]
  simp

end PhpSymbols.Ty

namespace PhpSymbols.Resolver
open Ty Ty.Expression

/-! ### Canonical results -/

theorem known_readName {token : List Char} {t : Ty} (h : readName token = some t) :
    t.Known IsClassPath := by
  unfold readName at h
  split at h
  · obtain rfl := Option.some.inj h
    exact .mixed
  · split at h
    · rename_i found
      obtain rfl := Option.some.inj h
      exact known_scalarOfSpelling? found
    · split at h
      · rename_i name
        obtain rfl := Option.some.inj h
        exact known_ofClass name
      · cases h

theorem known_readShape {base : List Char} {t : Ty} (h : readShape base = some t) :
    t.Known IsClassPath := by
  unfold readShape at h
  dsimp only at h
  split at h
  · obtain rfl := Option.some.inj h
    exact .scalar (by decide)
  · split at h
    · obtain rfl := Option.some.inj h
      exact .scalar (by decide)
    · cases h

theorem known_readSignature {base : List Char} {t : Ty} (h : readSignature base = some t) :
    t.Known IsClassPath := by
  unfold readSignature at h
  dsimp only at h
  split at h
  · obtain rfl := Option.some.inj h
    exact .scalar (by decide)
  · split at h
    · obtain rfl := Option.some.inj h
      exact .classRef (isClassPath_iff.2 (by decide))
    · cases h

theorem known_known? {P : String → Prop} {t u : Ty} (canonical : t.Canonical P)
    (h : known? t = some u) : u.Known P := by
  unfold known? at h
  split at h
  · cases h
  · rename_i known
    obtain rfl := Option.some.inj h
    exact canonical.resolve_left known

variable {r : Resolver}

theorem known_readGenerics {base generics : List Char} {t : Ty}
    (shorter : ∀ e, e.length < generics.length → (r.resolve e).Canonical IsClassPath)
    (h : r.readGenerics base generics = some t) : t.Known IsClassPath := by
  unfold readGenerics at h
  split at h
  · cases h
  · rename_i arguments enclosed
    split at h
    · obtain rfl := Option.some.inj h
      have element := shorter (lastArgument arguments)
        (Nat.lt_of_le_of_lt (length_lastArgument_le arguments) (length_between? enclosed))
      refine .arrayOf ?_
      cases found : known? (r.resolve (lastArgument arguments)) with
      | none => exact .mixed
      | some u => exact known_known? element found
    · split at h
      · obtain rfl := Option.some.inj h
        exact .scalar (by decide)
      · split at h
        · rename_i name
          obtain rfl := Option.some.inj h
          exact known_ofClass name
        · cases h

theorem known_readBase {base opened : List Char} {t : Ty}
    (shorter : ∀ e, e.length < opened.length → (r.resolve e).Canonical IsClassPath)
    (h : r.readBase base opened = some t) : t.Known IsClassPath := by
  unfold readBase at h
  split at h
  · exact known_readName h
  · exact known_readShape h
  · exact known_readSignature h
  · exact known_readGenerics shorter h

/-- A token is recognised as a known type if all shorter texts read as canonical ones. -/
theorem known_resolveToken {raw : List Char} {t : Ty}
    (expressions : ∀ e, e.length < raw.length → (r.resolve e).Canonical IsClassPath)
    (tokens : ∀ e u, e.length < raw.length → r.resolveToken e = some u → u.Known IsClassPath)
    (h : r.resolveToken raw = some t) : t.Known IsClassPath := by
  have bound := length_clean_le raw
  rw [resolveToken_eq] at h
  split at h
  · cases h
  · rename_i c rest cleaned
    rw [cleaned] at bound
    rw [List.length_cons] at bound
    split at h
    · rename_i inner grouped
      have := length_between? grouped
      rw [List.length_cons] at this
      exact known_known? (expressions inner (by omega)) h
    · split at h
      · obtain ⟨u, found, rfl⟩ := Option.map_eq_some_iff.1 h
        exact known_orNull (tokens rest u (by omega) found)
      · split at h
        · rename_i element suffixed
          obtain ⟨u, found, rfl⟩ := Option.map_eq_some_iff.1 h
          have := congrArg List.length (Text.ahead?_eq_some_iff.1 suffixed)
          simp only [List.length_cons, List.length_append] at this
          have two : "[]".toList.length = 2 := by decide
          exact .arrayOf (tokens element u (by omega) found)
        · have cut := length_breakOn (p := opensArguments) (s := c :: rest) rfl
          rw [List.length_cons] at cut
          exact known_readBase (fun e he => expressions e (by omega)) h

theorem canonical_contribution {token : List Char}
    (h : ∀ t, r.resolveToken token = some t → t.Known IsClassPath) :
    ∀ t ∈ r.contribution token, t.Known IsClassPath := by
  intro t ht
  unfold contribution at ht
  split at ht
  · rename_i u found
    obtain rfl := List.mem_singleton.1 ht
    exact h _ found
  · unfold unrecognised at ht
    split at ht
    · obtain rfl := List.mem_singleton.1 ht
      exact .mixed
    · cases ht

/-- An expression reads as a canonical type if every token of its length does. -/
theorem canonical_resolve_of_tokens {e : List Char}
    (tokens : ∀ raw t, raw.length ≤ e.length → r.resolveToken raw = some t →
      t.Known IsClassPath) : (r.resolve e).Canonical IsClassPath := by
  have token_le : ∀ token ∈ splitUnion (Text.trim e), token.length ≤ e.length := by
    intro token member
    exact Nat.le_trans (length_of_mem_splitUnion member) (Text.length_trim_le e)
  by_cases one : ∃ token, splitUnion (Text.trim e) = [token]
  · obtain ⟨token, single⟩ := one
    rw [resolve_of_single single]
    cases found : r.resolveToken token with
    | none => exact .inl rfl
    | some t =>
      exact .inr (tokens token t (token_le token (single ▸ List.mem_singleton_self token)) found)
  · rw [resolve_of_several (not_exists.1 one)]
    split
    · exact .inr .mixed
    · rename_i contributed
      refine .inr (known_join contributed fun t ht => ?_)
      obtain ⟨token, member, ht⟩ := List.mem_flatMap.1 ht
      have read := fun u found => tokens token u (token_le token member) found
      exact canonical_contribution read t ht

theorem known_of_resolveToken (n : Nat) : ∀ raw t, raw.length ≤ n →
    r.resolveToken raw = some t → t.Known IsClassPath := by
  induction n using Nat.strongRecOn with
  | ind n ih =>
    intro raw t bound
    refine known_resolveToken (fun e he => ?_) fun e u he =>
      ih e.length (by omega) e u (Nat.le_refl _)
    exact canonical_resolve_of_tokens fun raw t hr => ih e.length (by omega) raw t hr

theorem canonical_resolve (r : Resolver) (e : List Char) :
    (r.resolve e).Canonical IsClassPath :=
  canonical_resolve_of_tokens (known_of_resolveToken e.length)

/-- Every type read from an expression, from alternatives or from a hint beside
its documentation is canonical, with built-ins under the names they are shown by
and class paths for classes. -/
theorem read_canonical (r : Resolver) :
    (∀ e : List Char, (r.resolve e).Canonical IsClassPath) ∧
    (∀ es : List String, (r.resolveAll es).Canonical IsClassPath) ∧
    (∀ native documented : Option String,
      (r.resolveDeclared native documented).Canonical IsClassPath) := by
  refine ⟨canonical_resolve r, fun es => ?_, fun native documented => ?_⟩
  · apply canonical_join
    intro t ht
    obtain ⟨e, _, rfl⟩ := List.mem_map.1 ht
    exact canonical_resolve r e.toList
  · match native, documented with
    | none, none => exact .inl rfl
    | some native, none => exact canonical_resolve r native.toList
    | none, some documented => exact canonical_resolve r documented.toList
    | some native, some documented =>
      have hn := canonical_resolve r native.toList
      have hd := canonical_resolve r documented.toList
      unfold resolveDeclared
      dsimp only
      split
      · exact hn
      · split
        · exact hd
        · apply canonical_join
          intro t ht
          simp only [List.mem_cons, List.not_mem_nil, or_false] at ht
          rcases ht with rfl | rfl
          · exact hn
          · exact hd

end PhpSymbols.Resolver
