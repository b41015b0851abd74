import PhpSymbols.Php.Cursor

/-!
# What a parser gives

* `Parser.Yields`: a parser succeeds from one cursor with a result and another cursor;
* `Parser.Gives`: whatever a parser succeeds with has a property, one lemma for each way in which
  parsers are put together;
* `Gives.itemsUntil`: the items of a list that goes on after faults have the property of an item.
-/

namespace PhpSymbols.Php.Parser
variable {α β : Type} {ts : Array Token}

/-- Over the tokens `ts`, the parser succeeds from the cursor `c` with `a` and leaves `c'`. -/
def Yields (ts : Array Token) (p : Parser α) (c : Cursor) (a : α) (c' : Cursor) : Prop :=
  (p.run ts).run.run c = (.ok a, c')

/-- The token `k` places behind the cursor, or the end token. -/
def tokenAt (ts : Array Token) (c : Cursor) (k : Nat) : Token :=
  ts.getD (c.index + k) ⟨.ending, "", ⟨c.stop, c.stop⟩, ""⟩

theorem mem_of_tokenAt {c : Cursor} {k : Nat} (h : (tokenAt ts c k).kind ≠ .ending) :
    tokenAt ts c k ∈ ts := by
  rw [tokenAt, Array.getD_eq_getD_getElem?] at *
  cases found : ts[c.index + k]? with
  | none =>
    rw [found] at h
    exact absurd rfl h
  | some t => exact Array.mem_of_getElem? found

/-! ### Steps -/

theorem yields_pure {a b : α} {c c' : Cursor} :
    Yields ts (pure a : Parser α) c b c' ↔ a = b ∧ c = c' := by
  change (Except.ok a, c) = (Except.ok b, c') ↔ _
  rw [Prod.mk.injEq, Except.ok.injEq]

theorem yields_bind {p : Parser α} {f : α → Parser β} {c c'' : Cursor} {b : β} :
    Yields ts (p >>= f) c b c'' ↔ ∃ a c', Yields ts p c a c' ∧ Yields ts (f a) c' b c'' := by
  change ((p.run ts).run >>= ExceptT.bindCont fun a => (f a).run ts).run c = _ ↔ _
  rw [StateT.run_bind]
  simp only [Yields]
  rcases (p.run ts).run.run c with ⟨result, c'⟩
  cases result with
  | error e =>
    constructor
    · intro h
      exact absurd (congrArg Prod.fst h) nofun
    · rintro ⟨a, c', h, -⟩
      exact absurd (congrArg Prod.fst h) nofun
  | ok a =>
    constructor
    · intro h
      exact ⟨a, c', rfl, h⟩
    · rintro ⟨a', c₁, h, h'⟩
      obtain ⟨same, rfl⟩ := Prod.mk.inj h
      obtain rfl := Except.ok.inj same
      exact h'

theorem yields_peekAt {k : Nat} {c c' : Cursor} {t : Token} :
    Yields ts (peekAt k) c t c' ↔ tokenAt ts c k = t ∧ c = c' := by
  change (Except.ok (tokenAt ts c k), c) = (Except.ok t, c') ↔ _
  rw [Prod.mk.injEq, Except.ok.injEq]

theorem not_yields_fail {expected : Option String} {c c' : Cursor} {a : α} :
    ¬ Yields ts (fail expected) c a c' := by
  intro h
  exact absurd (congrArg Prod.fst h) nofun

/-- The token is taken, unless it is the end token. -/
theorem yields_take {c c' : Cursor} {t : Token} (h : Yields ts take c t c') :
    t = tokenAt ts c 0 ∧ (t.kind ≠ .ending → c'.stop = t.span.stop) := by
  obtain ⟨t', c₁, peeked, h⟩ := yields_bind.1 h
  obtain ⟨rfl, rfl⟩ := yields_peekAt.1 peeked
  dsimp only at h
  split at h
  · rename_i taken
    obtain ⟨_, c₂, moved, h⟩ := yields_bind.1 h
    obtain ⟨rfl, rfl⟩ := yields_pure.1 h
    obtain rfl := (Prod.mk.inj moved).2
    exact ⟨rfl, fun _ => rfl⟩
  · rename_i ended
    obtain ⟨rfl, rfl⟩ := yields_pure.1 h
    refine ⟨rfl, fun notEnded => absurd ?_ ended⟩
    simpa using notEnded

theorem yields_here {c c' : Cursor} {start : Nat} (h : Yields ts here c start c') :
    start = (tokenAt ts c 0).span.start ∧ c = c' := by
  obtain ⟨t, c₁, peeked, h⟩ := yields_bind.1 h
  obtain ⟨rfl, rfl⟩ := yields_peekAt.1 peeked
  obtain ⟨rfl, rfl⟩ := yields_pure.1 h
  exact ⟨rfl, rfl⟩

theorem yields_spanFrom {c c' : Cursor} {start : Nat} {span : Span}
    (h : Yields ts (spanFrom start) c span c') : span = ⟨start, c.stop⟩ ∧ c = c' := by
  obtain ⟨same, rfl⟩ := Prod.mk.inj h
  exact ⟨(Except.ok.inj same).symm, rfl⟩

theorem yields_expect {key : String} {c c' : Cursor} {t : Token}
    (h : Yields ts (expect key) c t c') :
    t = tokenAt ts c 0 ∧ t.key = key ∧ (t.kind ≠ .ending → c'.stop = t.span.stop) := by
  obtain ⟨seen, c₁, sees, h⟩ := yields_bind.1 h
  obtain ⟨t', c₂, peeked, sees⟩ := yields_bind.1 sees
  obtain ⟨rfl, rfl⟩ := yields_peekAt.1 peeked
  obtain ⟨rfl, rfl⟩ := yields_pure.1 sees
  split at h
  · rename_i here
    obtain ⟨rfl, stop⟩ := yields_take h
    exact ⟨rfl, beq_iff_eq.1 here, stop⟩
  · exact absurd h not_yields_fail

/-! ### Results -/

/-- Whatever the parser succeeds with, from any cursor, has the property. -/
def Gives (ts : Array Token) (p : Parser α) (P : α → Prop) : Prop :=
  ∀ c a c', Yields ts p c a c' → P a

namespace Gives
variable {P : α → Prop} {Q : β → Prop} {p : Parser α} {f : α → Parser β}

theorem pure {a : α} (h : P a) : Gives ts (Pure.pure a) P := by
  intro c b c' yields
  obtain ⟨rfl, -⟩ := yields_pure.1 yields
  exact h

theorem fail {expected : Option String} : Gives ts (fail expected) P :=
  fun _ _ _ yields => absurd yields not_yields_fail

theorem bind (first : Gives ts p P) (then_ : ∀ a, P a → Gives ts (f a) Q) :
    Gives ts (p >>= f) Q := by
  intro c b c'' yields
  obtain ⟨a, c', yields, yields'⟩ := yields_bind.1 yields
  exact then_ a (first c a c' yields) c' b c'' yields'

/-- Only the last step of a parser decides what it gives. -/
theorem last (then_ : ∀ a, Gives ts (f a) Q) : Gives ts (p >>= f) Q := by
  intro c b c'' yields
  obtain ⟨a, c', -, yields⟩ := yields_bind.1 yields
  exact then_ a c' b c'' yields

theorem map {g : α → β} (h : Gives ts p fun a => Q (g a)) : Gives ts (g <$> p) Q := by
  rw [← bind_pure_comp]
  exact bind h fun a => pure

theorem tryCatch {handler : Fault → Parser α} (h : Gives ts p P)
    (handled : ∀ e, Gives ts (handler e) P) : Gives ts (MonadExcept.tryCatch p handler) P := by
  intro c a c' yields
  change (ExceptT.tryCatch (p.run ts) fun e => (handler e).run ts).run.run c = _ at yields
  rw [ExceptT.tryCatch, ExceptT.run_mk, StateT.run_bind] at yields
  have h := h c
  simp only [Yields, ExceptT.run] at h
  generalize StateT.run (p.run ts) c = reached at h yields
  obtain ⟨result, c₁⟩ := reached
  cases result with
  | error e => exact handled e c₁ a c' yields
  | ok b => exact h a c' yields

theorem many {step : Parser (Option α)} (h : Gives ts step fun found => ∀ a ∈ found, P a) :
    Gives ts (Parser.many step) fun as => ∀ a ∈ as, P a := by
  refine last fun n => ?_
  induction n with
  | zero => exact pure nofun
  | succ n ih =>
    refine bind h fun found holds => ?_
    cases found with
    | none => exact pure nofun
    | some a =>
      refine bind ih fun as all => pure ?_
      intro b mem
      rcases List.mem_cons.1 mem with rfl | mem
      · exact holds b rfl
      · exact all b mem

theorem mapSome (h : Gives ts p P) :
    Gives ts (Option.some <$> p) fun found => ∀ a ∈ found, P a := by
  refine map fun c a c' yields b same => ?_
  obtain rfl := Option.some.inj same
  exact h c a c' yields

theorem commaSeparated {closing : List String} (h : Gives ts p P) :
    Gives ts (Parser.commaSeparated closing p) fun as => ∀ a ∈ as, P a := by
  have more : Gives ts (do
      if closing.contains (← peek).key then return none else return Option.some (← p))
      fun found => ∀ a ∈ found, P a := by
    refine last fun t => ?_
    split
    · exact pure nofun
    · exact bind h fun a holds => pure fun b same => Option.some.inj same ▸ holds
  refine bind more fun found holds => ?_
  cases found with
  | none => exact pure nofun
  | some first =>
    refine bind (many (P := P) (last fun comma => ?_)) fun rest all => pure ?_
    · split
      · exact more
      · exact pure nofun
    · exact List.forall_mem_cons.2 ⟨holds first rfl, all⟩

theorem recovered (h : Gives ts p P) :
    Gives ts (Parser.recovered p) fun found => ∀ a ∈ found, P a := by
  refine last fun before => ?_
  refine bind (P := fun found => ∀ a ∈ found, P a) ?_ fun found holds => last fun after => ?_
  · exact tryCatch (mapSome h) fun fault => last fun _ => pure nofun
  · dsimp only
    split
    · exact last fun _ => pure holds
    · exact pure holds

theorem itemsUntil {stops : Token → Bool} (h : Gives ts p P) :
    Gives ts (Parser.itemsUntil stops p) fun as => ∀ a ∈ as, P a := by
  refine bind (many (P := fun found => ∀ a ∈ found, P a) (last fun t => ?_))
    fun items all => pure ?_
  · split
    · exact pure nofun
    · refine bind (recovered h) fun found holds => pure ?_
      intro b same
      obtain rfl := Option.some.inj same
      exact holds
  · intro a mem
    obtain ⟨found, mem, same⟩ := List.mem_filterMap.1 mem
    exact all found mem a same

end Gives

end PhpSymbols.Php.Parser
