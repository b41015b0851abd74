import PhpSymbols.Proofs.Ty.Brackets
import PhpSymbols.Proofs.Ty.Regrouping
import PhpSymbols.Proofs.Ty.RoundTrip

/-!
# Reading alternatives

* `contributions`, `resolve_eq_join`: what an expression adds to a union that it stands in, and
  that it reads as the union of just this;
* `known_of_several`: more than one token is always read as something;
* `resolve_intercalate`: expressions with bars between them read as the union of what each of them
  reads as;
* `resolve_alternation`: where a token that is no type stands for anything, they do so however
  they are spaced and grouped;
* `resolve_unrecognised`: what becomes of a union some of whose tokens are no types.
-/

namespace PhpSymbols.Ty

theorem Known.isReduced {P : String → Prop} {t : Ty} (h : t.Known P) : t.IsReduced := by
  cases h with
  | @scalar n _ =>
    by_cases null : n = "null"
    · exact null ▸ .null
    · exact .single null
  | classRef | arrayOf => exact .single trivial
  | union two distinct alternatives _ => exact .several two distinct alternatives
  | nullable lacks known =>
    cases known with
    | scalar => exact .singleOrNull lacks
    | classRef | arrayOf => exact .singleOrNull trivial
    | union two distinct alternatives _ => exact .severalOrNull two distinct alternatives
    | nullable | mixed => exact lacks.elim
  | mixed => exact .mixed

end PhpSymbols.Ty

namespace PhpSymbols.Resolver
open Ty Ty.Expression

variable {r : Resolver} {e : List Char}

/-! ### One expression -/

/-- What an expression adds to a union that it stands in. -/
def contributions (r : Resolver) (e : List Char) : List Ty :=
  (splitUnion e).flatMap r.contribution

theorem resolve_token {token : List Char} (single : splitUnion e = [token]) :
    r.resolve e = (r.resolveToken token).getD .unknown :=
  resolve_of_single (by rwa [splitUnion_trim])

theorem resolve_tokens (several : ∀ token, splitUnion e ≠ [token]) :
    r.resolve e = match r.contributions e with
      | [] => .mixed
      | ts => Ty.join ts := by
  have tokens : splitUnion (Text.trim e) = splitUnion e := splitUnion_trim e
  rw [resolve_of_several (by rwa [tokens]), tokens]
  rfl

theorem resolveToken_congr {token token' : List Char} (same : clean token = clean token') :
    r.resolveToken token = r.resolveToken token' := by
  rw [resolveToken_eq, resolveToken_eq, same]

/-- Tokens are cleaned before they are read. -/
theorem resolve_congr_clean {e' : List Char}
    (same : (splitUnion e).map clean = (splitUnion e').map clean) :
    r.resolve e = r.resolve e' := by
  by_cases one : ∃ token, splitUnion e' = [token]
  · obtain ⟨token, single⟩ := one
    rw [single, List.map_singleton] at same
    obtain ⟨token', single', cleaned⟩ := List.map_eq_singleton_iff.1 same
    rw [resolve_token single, resolve_token single', resolveToken_congr cleaned]
  · have several : ∀ token, splitUnion e ≠ [token] := by
      intro token single
      rw [single, List.map_singleton] at same
      obtain ⟨token', single', -⟩ := List.map_eq_singleton_iff.1 same.symm
      exact one ⟨token', single'⟩
    have through : r.contribution.FactorsThrough clean := by
      intro token token' cleaned
      rw [contribution, contribution, resolveToken_congr cleaned]
    obtain ⟨read, factors⟩ := (Function.factorsThrough_iff _).1 through
    have cleaned (ts : List (List Char)) :
        ts.flatMap r.contribution = (ts.map clean).flatMap read := by
      rw [List.flatMap_map, factors]
      rfl
    rw [resolve_tokens several, resolve_tokens (not_exists.1 one), contributions, contributions,
      cleaned, cleaned, same]

theorem resolve_congr {e' : List Char} (same : splitUnion e = splitUnion e') :
    r.resolve e = r.resolve e' :=
  resolve_congr_clean (congrArg (List.map clean) same)

theorem resolve_trim (r : Resolver) (e : List Char) : r.resolve (Text.trim e) = r.resolve e :=
  resolve_congr (splitUnion_trim e)

theorem known_of_token {token : List Char} {t : Ty} (found : r.resolveToken token = some t) :
    t.Known IsClassPath :=
  known_of_resolveToken token.length token t (Nat.le_refl _) found

/-- More than one token is always read as something. -/
theorem known_of_several (several : ∀ token, splitUnion e ≠ [token]) :
    (r.resolve e).Known IsClassPath := by
  rw [resolve_tokens several]
  split
  · exact .mixed
  · rename_i some
    refine known_join some fun t ht => ?_
    obtain ⟨token, _, ht⟩ := List.mem_flatMap.1 ht
    exact canonical_contribution (fun _ => known_of_token) t ht

/-- An expression that is read as something reads as the union of what it adds to others. -/
theorem resolve_eq_join (some : r.contributions e ≠ []) (known : r.resolve e ≠ .unknown) :
    r.resolve e = Ty.join (r.contributions e) := by
  by_cases one : ∃ token, splitUnion e = [token]
  · obtain ⟨token, single⟩ := one
    have read := resolve_token (r := r) single
    cases found : r.resolveToken token with
    | none =>
      rw [found] at read
      exact absurd read known
    | some t =>
      have adds : r.contributions e = [t] := by
        rw [contributions, single, List.flatMap_singleton, contribution, found]
      rw [read, adds, found, Option.getD_some,
        (join_singleton_iff t).2 (known_of_token found).isReduced]
  · rw [resolve_tokens (not_exists.1 one)]
    split
    · rename_i none
      exact absurd none some
    · rfl

/-! ### Expressions with bars between them -/

theorem splitUnion_intercalate {ss : List (List Char)} (some : ss ≠ [])
    (closed : ∀ s ∈ ss, depth s = 0) :
    splitUnion (['|'].intercalate ss) = ss.flatMap splitUnion := by
  rw [splitUnion, splitTop_intercalate_flatMap (by decide) some closed, List.map_flatMap]
  rfl

theorem contributions_intercalate {ss : List (List Char)} (some : ss ≠ [])
    (closed : ∀ s ∈ ss, depth s = 0) :
    r.contributions (['|'].intercalate ss) = ss.flatMap r.contributions := by
  rw [contributions, splitUnion_intercalate some closed, List.flatMap_assoc]
  rfl

theorem splitUnion_ne_nil (s : List Char) : splitUnion s ≠ [] := by
  rw [splitUnion, Ne, List.map_eq_nil_iff]
  exact splitTop_ne_nil '|' s 0

theorem length_splitUnion_intercalate {ss : List (List Char)} (some : ss ≠ [])
    (closed : ∀ s ∈ ss, depth s = 0) :
    ss.length ≤ (splitUnion (['|'].intercalate ss)).length := by
  rw [splitUnion_intercalate some closed, List.length_flatMap]
  clear some closed
  induction ss with
  | nil => exact Nat.le_refl 0
  | cons s ss ih =>
    have one := List.length_pos_iff.2 (splitUnion_ne_nil s)
    rw [List.length_cons, List.map_cons, List.sum_cons]
    omega

theorem several_intercalate {ss : List (List Char)} (two : 2 ≤ ss.length)
    (closed : ∀ s ∈ ss, depth s = 0) (token : List Char) :
    splitUnion (['|'].intercalate ss) ≠ [token] := by
  intro single
  have some : ss ≠ [] := List.ne_nil_of_length_pos (Nat.lt_of_lt_of_le Nat.two_pos two)
  have more := length_splitUnion_intercalate some closed
  rw [single, List.length_singleton] at more
  omega

/-- Expressions that each add something to a union read, with bars between them, as the union of
what each of them reads as. -/
theorem resolve_intercalate {ss : List (List Char)} (some : ss ≠ [])
    (closed : ∀ s ∈ ss, depth s = 0) (known : ∀ s ∈ ss, r.resolve s ≠ .unknown)
    (adds : ∀ s ∈ ss, r.contributions s ≠ []) :
    r.resolve (['|'].intercalate ss) = Ty.join (ss.map r.resolve) := by
  have all := contributions_intercalate (r := r) some closed
  have read : r.resolve (['|'].intercalate ss) ≠ .unknown := by
    match ss, some with
    | [s], _ =>
      rw [List.intercalate_singleton]
      exact known s (List.mem_singleton_self s)
    | s :: t :: ss, _ =>
      have two : 2 ≤ (s :: t :: ss).length := Nat.le_add_left 2 _
      exact (known_of_several (several_intercalate two closed)).ne_unknown
  have any : r.contributions (['|'].intercalate ss) ≠ [] := by
    obtain ⟨s, ss, rfl⟩ := List.exists_cons_of_ne_nil some
    rw [all, List.flatMap_cons]
    exact fun none => adds s List.mem_cons_self (List.append_eq_nil_iff.1 none).1
  have each : ∀ s ∈ ss, r.resolve s = Ty.join (r.contributions s) :=
    fun s mem => resolve_eq_join (adds s mem) (known s mem)
  calc r.resolve (['|'].intercalate ss)
      = Ty.join (ss.flatMap r.contributions) := by rw [resolve_eq_join any read, all]
    _ = Ty.join ((ss.map r.contributions).map Ty.join) := by
        rw [join_map_join, List.flatMap_def]
    _ = Ty.join (ss.map r.resolve) := by
        rw [List.map_map, List.map_congr_left each]
        rfl

/-! ### Spacing and grouping -/

/-- `s` is `e` with any white space around it and in any number of parentheses. -/
inductive Spells (e : List Char) : List Char → Prop where
  | bare : Spells e e
  | spaced {s before after : List Char} : Spells e s → (∀ c ∈ before, Text.isBlank c = true) →
      (∀ c ∈ after, Text.isBlank c = true) → Spells e (before ++ s ++ after)
  | grouped {s : List Char} : Spells e s → Spells e ('(' :: s ++ [')'])

theorem resolve_group {s : List Char} (balanced : IsBalanced s) :
    r.resolve ('(' :: s ++ [')']) = r.resolve s := by
  have undivided : IsUndivided '|' ('(' :: s ++ [')']) :=
    balanced.isUndivided_enclosed (by decide) (by decide)
  have whole := (isUndivided_iff (by decide)).1 undivided
  have single : splitUnion ('(' :: s ++ [')']) = ['(' :: s ++ [')']] := by
    rw [splitUnion, whole, List.map_singleton, Text.trim_of_isTrimmed (isTrimmed_group s)]
  rw [resolve_token single, resolveToken_group, known?]
  split
  · rename_i unknown
    exact unknown.symm
  · rfl

/-- Neither white space nor parentheses around an expression change what it reads as. -/
theorem Spells.resolve_eq {s : List Char} (spells : Spells e s) (balanced : IsBalanced e) :
    r.resolve s = r.resolve e ∧ IsBalanced s := by
  induction spells with
  | bare => exact ⟨rfl, balanced⟩
  | spaced _ blank blank' ih =>
    obtain ⟨same, inner⟩ := ih
    have plain {w : List Char} (blank : ∀ c ∈ w, Text.isBlank c = true) : IsBalanced w :=
      isBalanced_of_plain fun c mem => isBracket_of_isBlank (blank c mem)
    exact ⟨(resolve_congr (splitUnion_spaced blank blank' _)).trans same,
      ((plain blank).append inner).append (plain blank')⟩
  | grouped _ ih =>
    obtain ⟨same, inner⟩ := ih
    exact ⟨(resolve_group inner).trans same, inner.group⟩

theorem resolve_spelled {es ss : List (List Char)} (spelled : List.Forall₂ Spells es ss)
    (balanced : ∀ e ∈ es, IsBalanced e) :
    ss.map r.resolve = es.map r.resolve ∧ ∀ s ∈ ss, IsBalanced s := by
  induction spelled with
  | nil => exact ⟨rfl, nofun⟩
  | @cons e s es ss spells _ ih =>
    obtain ⟨same, inner⟩ := spells.resolve_eq (r := r) (balanced e List.mem_cons_self)
    obtain ⟨rest, all⟩ := ih fun e' mem => balanced e' (List.mem_cons_of_mem e mem)
    exact ⟨by rw [List.map_cons, List.map_cons, same, rest], List.forall_mem_cons.2 ⟨inner, all⟩⟩

/-- Where a token that is no type stands for anything, every expression adds something. -/
theorem contributions_ne_nil (e : List Char) : ({} : Resolver).contributions e ≠ [] := by
  obtain ⟨token, tokens, found⟩ := List.exists_cons_of_ne_nil (splitUnion_ne_nil e)
  rw [contributions, found, List.flatMap_cons, contribution]
  split <;> exact List.cons_ne_nil _ _

/-- The bar is the union of types. Balanced expressions of which each reads as something read, with
bars between them, as the union of what they read as, whatever white space stands around them and
whichever of them are in parentheses; and so they do when they are given one by one. -/
theorem resolve_alternation {es : List String} {ss : List (List Char)} (some : es ≠ [])
    (balanced : ∀ e ∈ es, IsBalanced e.toList)
    (known : ∀ e ∈ es, ({} : Resolver).resolve e.toList ≠ .unknown)
    (spelled : List.Forall₂ Spells (es.map String.toList) ss) :
    let union := Ty.join (es.map fun e => ({} : Resolver).resolve e.toList)
    ({} : Resolver).resolve (['|'].intercalate ss) = union ∧
      ({} : Resolver).resolveAll es = union := by
  refine ⟨?_, rfl⟩
  obtain ⟨same, inner⟩ := resolve_spelled (r := {}) spelled
    (List.forall_mem_map.2 balanced)
  rw [List.map_map] at same
  have read : ∀ s ∈ ss, ({} : Resolver).resolve s ≠ .unknown := by
    intro s mem
    have mem : ({} : Resolver).resolve s ∈ ss.map ({} : Resolver).resolve :=
      List.mem_map_of_mem mem
    rw [same] at mem
    obtain ⟨e, he, read⟩ := List.mem_map.1 mem
    exact read ▸ known e he
  have any : ss ≠ [] := by
    rintro rfl
    exact some (List.map_eq_nil_iff.1 same.symm)
  rw [resolve_intercalate any (fun s mem => (inner s mem).closed) read
    fun s _ => contributions_ne_nil s, same]
  rfl

theorem resolve_alternation_grouped :
    let es := ["?int", "User[]"]
    let written := " ?int |( (User[]) )".toList
    (∀ e ∈ es, IsBalanced e.toList ∧ ({} : Resolver).resolve e.toList ≠ .unknown) ∧
    ({} : Resolver).resolve written =
      .nullable (.union [.scalar "int", .arrayOf (.classRef "User")]) ∧
    ({} : Resolver).resolveAll es =
      .nullable (.union [.scalar "int", .arrayOf (.classRef "User")]) := by
  intro es written
  have int : ({} : Resolver).resolve "?int".toList = .nullable (.scalar "int") := by
    have known : (Ty.nullable (.scalar "int")).Known IsWritable :=
      .nullable (by decide : "int" ≠ "null") (.scalar (by decide))
    exact resolve_chars {} known
  have users : ({} : Resolver).resolve "User[]".toList = .arrayOf (.classRef "User") := by
    have user : IsWritable "User" := ⟨isClassPath_iff.2 (by decide), by decide⟩
    exact resolve_chars {} (.arrayOf (.classRef user))
  have balanced : ∀ e ∈ es, IsBalanced e.toList := by decide
  have known : ∀ e ∈ es, ({} : Resolver).resolve e.toList ≠ .unknown := by
    simp only [es, List.forall_mem_cons, int, users]
    exact ⟨nofun, nofun, nofun⟩
  have space : ∀ c ∈ [' '], Text.isBlank c = true := by decide
  have spelled : List.Forall₂ Spells (es.map String.toList)
      [" ?int ".toList, "( (User[]) )".toList] :=
    .cons (.spaced .bare space space) (.cons (.grouped (.spaced (.grouped .bare) space space)) .nil)
  have read := resolve_alternation (List.cons_ne_nil _ _) balanced known spelled
  simp only [List.map_cons, List.map_nil, int, users] at read
  exact ⟨fun e mem => ⟨balanced e mem, known e mem⟩, read⟩

/-! ### Tokens that are no types -/

theorem splitUnion_of_isUndivided (token : IsUndivided '|' e) : splitUnion e = [Text.trim e] := by
  rw [splitUnion, (isUndivided_iff (by decide)).1 token, List.map_singleton]

/-- A token adds what it reads as. -/
theorem contributions_of_isUndivided (token : IsUndivided '|' e) :
    r.contributions e = if r.resolve e = .unknown then r.unrecognised else [r.resolve e] := by
  have single := splitUnion_of_isUndivided token
  rw [contributions, resolve_token single, single, List.flatMap_singleton, contribution]
  cases found : r.resolveToken (Text.trim e) with
  | none => rfl
  | some t => exact (if_neg (known_of_token found).ne_unknown).symm

/-- A bar outside brackets makes more than one token. -/
theorem several_of_not_isUndivided (divided : ¬ IsUndivided '|' e) (token : List Char) :
    splitUnion e ≠ [token] := by
  intro single
  apply divided
  intro before after cut outside
  rw [cut, splitUnion, splitTop_append_separator (by decide) outside, List.map_append] at single
  have parts := congrArg List.length single
  have front := List.length_pos_iff.2 (splitTop_ne_nil '|' before 0)
  have back := List.length_pos_iff.2 (splitTop_ne_nil '|' after 0)
  simp only [List.length_append, List.length_map, List.length_singleton] at parts
  omega

section
variable {ts : List (List Char)} (two : 2 ≤ ts.length)
  (tokens : ∀ t ∈ ts, IsBalanced t ∧ IsUndivided '|' t)
include two tokens

theorem known_tokens : r.resolve (['|'].intercalate ts) ≠ .unknown :=
  (known_of_several (several_intercalate two fun t mem => (tokens t mem).1.closed)).ne_unknown

theorem contributions_tokens :
    r.contributions (['|'].intercalate ts) =
      ts.flatMap fun t => if r.resolve t = .unknown then r.unrecognised else [r.resolve t] := by
  have some : ts ≠ [] := List.ne_nil_of_length_pos (Nat.lt_of_lt_of_le Nat.two_pos two)
  rw [contributions_intercalate some fun t mem => (tokens t mem).1.closed]
  exact List.flatMap_congr fun t mem => contributions_of_isUndivided (tokens t mem).2

theorem resolve_tokens_mixed (anything : r.unrecognised = [.mixed]) {t : List Char} (mem : t ∈ ts)
    (unknown : r.resolve t = .unknown) : r.resolve (['|'].intercalate ts) = .mixed := by
  have mixed : Ty.mixed ∈ r.contributions (['|'].intercalate ts) := by
    rw [contributions_tokens two tokens]
    refine List.mem_flatMap.2 ⟨t, mem, ?_⟩
    rw [if_pos unknown, anything]
    exact List.mem_singleton_self _
  rw [resolve_eq_join (List.ne_nil_of_mem mixed) (known_tokens two tokens)]
  apply join_of_mixed
  rw [leavesAll_eq_flatMap]
  exact List.mem_flatMap.2 ⟨.mixed, mixed, List.mem_singleton_self _⟩

end

/-- The tokens that are types on their own. -/
def recognised (r : Resolver) (ts : List (List Char)) : List (List Char) :=
  ts.filter fun t => r.resolve t ≠ .unknown

theorem mem_recognised {ts : List (List Char)} {t : List Char} :
    t ∈ r.recognised ts ↔ t ∈ ts ∧ r.resolve t ≠ .unknown := by
  simp [recognised]

/-- Where tokens that are no types are left out, the others add what they read as. -/
theorem flatMap_recognised (nothing : r.unrecognised = []) (ts : List (List Char)) :
    (ts.flatMap fun t => if r.resolve t = .unknown then r.unrecognised else [r.resolve t]) =
      (r.recognised ts).map r.resolve := by
  induction ts with
  | nil => rfl
  | cons t ts ih =>
    rw [List.flatMap_cons, ih, recognised, recognised]
    by_cases unknown : r.resolve t = .unknown
    · rw [if_pos unknown, nothing, List.filter_cons_of_neg (by simpa using unknown)]
      rfl
    · rw [if_neg unknown, List.filter_cons_of_pos (by simpa using unknown)]
      rfl

theorem resolve_tokens_recognised (nothing : r.unrecognised = []) {ts : List (List Char)}
    (two : 2 ≤ ts.length) (tokens : ∀ t ∈ ts, IsBalanced t ∧ IsUndivided '|' t) :
    r.resolve (['|'].intercalate ts) =
      if r.recognised ts = [] then .mixed
      else r.resolve (['|'].intercalate (r.recognised ts)) := by
  have adds := (contributions_tokens two tokens).trans (flatMap_recognised nothing ts)
  split
  · rename_i none
    rw [resolve_tokens (several_intercalate two fun t mem => (tokens t mem).1.closed), adds, none]
    rfl
  · rename_i any
    have more : r.contributions (['|'].intercalate ts) ≠ [] := by
      rw [adds, Ne, List.map_eq_nil_iff]
      exact any
    have alone : ∀ t ∈ r.recognised ts, r.contributions t ≠ [] := by
      intro t mem
      obtain ⟨mem, known⟩ := mem_recognised.1 mem
      rw [contributions_of_isUndivided (tokens t mem).2, if_neg known]
      exact List.cons_ne_nil _ _
    have closed : ∀ t ∈ r.recognised ts, depth t = 0 :=
      fun t mem => (tokens t (mem_recognised.1 mem).1).1.closed
    rw [resolve_eq_join more (known_tokens two tokens), adds,
      resolve_intercalate any closed (fun t mem => (mem_recognised.1 mem).2) alone]

/-- Two or more tokens, some of which may be no types. Where these stand for anything, one of them
makes the union `mixed`. Where they are left out, the union is that of the others alone, and
`mixed` if there are no others. Either way it is not unknown, as is no other expression with a
bar outside brackets. -/
theorem resolve_unrecognised {ts : List (List Char)} (two : 2 ≤ ts.length)
    (tokens : ∀ t ∈ ts, IsBalanced t ∧ IsUndivided '|' t) :
    ((∃ t ∈ ts, (mk .mixed).resolve t = .unknown) →
      (mk .mixed).resolve (['|'].intercalate ts) = .mixed) ∧
    (mk .ignore).resolve (['|'].intercalate ts) =
      (if (mk .ignore).recognised ts = [] then .mixed
        else (mk .ignore).resolve (['|'].intercalate ((mk .ignore).recognised ts))) ∧
    ∀ r : Resolver, ∀ e, ¬ IsUndivided '|' e → r.resolve e ≠ .unknown := by
  refine ⟨?_, resolve_tokens_recognised rfl two tokens, fun r e divided => ?_⟩
  · rintro ⟨t, mem, unknown⟩
    exact resolve_tokens_mixed two tokens rfl mem unknown
  · exact (known_of_several (several_of_not_isUndivided divided)).ne_unknown

theorem resolve_unrecognised_garbled :
    let ts := ["string".toList, "12abc".toList, "null".toList]
    (2 ≤ ts.length ∧ ∀ t ∈ ts, IsBalanced t ∧ IsUndivided '|' t) ∧
    (mk .mixed).resolve "string|12abc|null".toList = .mixed ∧
    (mk .ignore).resolve "string|12abc|null".toList =
      (mk .ignore).resolve "string|null".toList ∧
    (mk .ignore).resolve "1a|2b".toList ≠ .unknown := by
  intro ts
  have two : 2 ≤ ts.length := by decide
  have tokens : ∀ t ∈ ts, IsBalanced t ∧ IsUndivided '|' t := by decide
  have garbled (r : Resolver) : r.resolve "12abc".toList = .unknown := by
    rw [resolve_word r ⟨by decide, by decide, by decide⟩]
    decide
  have string := resolve_scalar (mk .ignore) (by decide : "string" ∈ scalarNames)
  have null := resolve_scalar (mk .ignore) (by decide : "null" ∈ scalarNames)
  have others : (mk .ignore).recognised ts = ["string".toList, "null".toList] := by
    simp only [ts, recognised, List.filter_cons, string, garbled, null]
    rfl
  have read := resolve_unrecognised two tokens
  rw [others] at read
  exact ⟨⟨two, tokens⟩, read.1 ⟨"12abc".toList, by decide, garbled _⟩, read.2.1,
    read.2.2 _ _ (by decide)⟩

end PhpSymbols.Resolver
