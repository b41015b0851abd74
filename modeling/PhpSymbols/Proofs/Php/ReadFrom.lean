import PhpSymbols.Proofs.Php.Gives
import PhpSymbols.Reflect.Declaration

/-!
# What declarations take from tokens

* `Declared.ReadFrom`: the name of a declaration is a word of the source, and the body of a
  class-like stands between two braces of it;
* `gives_statement`: what holds of every declaration that the grammar reads holds of those in a
  statement, one lemma for each rule;
* `Declared.holds_parse`: and so of all that a program declares;
* `Declared.readFrom_parse`: all of this is read from its tokens.
-/

namespace PhpSymbols
open Php Php.Parser

/-- One of the tokens is this word. -/
def IsWordAmong (ts : Array Token) (name : String) : Prop :=
  ∃ t ∈ ts, t.kind = .word ∧ t.text = name

/-- The span is from an opening brace among the tokens to a closing one. -/
def AreBracesAmong (ts : Array Token) (span : Span) : Prop :=
  (∃ t ∈ ts, t.key = "\x7b" ∧ t.span.start = span.start) ∧
    ∃ t ∈ ts, t.key = "\x7d" ∧ t.span.stop = span.stop

/-- What a declaration takes from the tokens. -/
def Declared.ReadFrom (ts : Array Token) : Declared → Prop
  | .classLike _ (.mk _ _ _ name _ _ braces _) => IsWordAmong ts name ∧ AreBracesAmong ts braces
  | .function _ (.mk _ name _ _ _) => IsWordAmong ts name

/-- All declarations in the statement have the property. -/
def Php.Stmt.Declares (P : Declared → Prop) (s : Stmt) : Prop :=
  ∀ ns, ∀ d ∈ declaredBy ns s, P d

/-- All declarations in the branch have the property. -/
def Php.ElseIf.Declares (P : Declared → Prop) : ElseIf → Prop
  | .mk _ ss => ∀ s ∈ ss, s.Declares P

variable {ts : Array Token} {P : Declared → Prop}

theorem Declared.holds_all {ss : List Stmt} (all : ∀ s ∈ ss, s.Declares P) (ns : Option String) :
    ∀ d ∈ declaredByAll ns ss, P d := by
  induction ss with
  | nil => exact nofun
  | cons s ss ih =>
    intro d mem
    rcases List.mem_append.1 mem with mem | mem
    · exact all s List.mem_cons_self ns d mem
    · exact ih (fun s mem => all s (List.mem_cons_of_mem _ mem)) d mem

theorem Declared.holds_elseIfs {es : List ElseIf} (all : ∀ e ∈ es, e.Declares P)
    (ns : Option String) : ∀ d ∈ declaredByElseIfs ns es, P d := by
  induction es with
  | nil => exact nofun
  | cons e es ih =>
    obtain ⟨c, ss⟩ := e
    intro d mem
    rcases List.mem_append.1 mem with mem | mem
    · exact holds_all (all _ List.mem_cons_self) ns d mem
    · exact ih (fun e mem => all e (List.mem_cons_of_mem _ mem)) d mem

namespace Php.Stmt

theorem declares_single {s : Stmt} (declares : s.Declares P) : ∀ t ∈ [s], t.Declares P := by
  intro t mem
  rw [List.mem_singleton.1 mem]
  exact declares

theorem declares_classLike {d : ClassDecl} (holds : ∀ ns, P (.classLike ns d)) :
    (classLike d).Declares P := by
  intro ns declared mem
  obtain rfl := List.mem_singleton.1 mem
  exact holds ns

theorem declares_function {d : FunctionDecl} (holds : ∀ ns, P (.function ns d)) :
    (function d).Declares P := by
  intro ns declared mem
  obtain rfl := List.mem_singleton.1 mem
  exact holds ns

theorem declares_ns {span : Span} {name : Option String} {ss : List Stmt}
    (all : ∀ s ∈ ss, s.Declares P) : (ns span name ss).Declares P :=
  fun outer => Declared.holds_all all (innerNamespace outer name)

theorem declares_block {span : Span} {ss : List Stmt} (all : ∀ s ∈ ss, s.Declares P) :
    (block span ss).Declares P :=
  fun ns => Declared.holds_all all ns

theorem declares_ifElse {span : Span} {c : Expr} {ss otherwise : List Stmt} {es : List ElseIf}
    (body : ∀ s ∈ ss, s.Declares P) (branches : ∀ e ∈ es, e.Declares P)
    (last : ∀ s ∈ otherwise, s.Declares P) : (ifElse span c ss es otherwise).Declares P := by
  intro ns d mem
  rcases List.mem_append.1 mem with mem | mem
  · exact Declared.holds_all body ns d mem
  · rcases List.mem_append.1 mem with mem | mem
    · exact Declared.holds_elseIfs branches ns d mem
    · exact Declared.holds_all last ns d mem

end Php.Stmt

namespace Php.Grammar

/-! ### Names and braces -/

theorem gives_word : Gives ts word (IsWordAmong ts) := by
  intro c name c' yields
  obtain ⟨t, c₁, peeked, yields⟩ := yields_bind.1 yields
  obtain ⟨rfl, rfl⟩ := yields_peekAt.1 peeked
  split at yields
  · rename_i isWord
    obtain ⟨t, c₂, taken, yields⟩ := yields_bind.1 yields
    obtain ⟨rfl, -⟩ := yields_take taken
    obtain ⟨rfl, -⟩ := yields_pure.1 yields
    have isWord := beq_iff_eq.1 isWord
    refine ⟨_, mem_of_tokenAt ?_, isWord, rfl⟩
    rw [isWord]
    decide
  · exact absurd yields not_yields_fail

/-- An end token is known by nothing. -/
def EndsHaveNoKey (ts : Array Token) : Prop := ∀ t ∈ ts, t.kind = .ending → t.key = ""

/-- A token that is known by something is one of the tokens, and not their end. -/
theorem mem_of_key (ends : EndsHaveNoKey ts) {c : Cursor} (known : (tokenAt ts c 0).key ≠ "") :
    tokenAt ts c 0 ∈ ts ∧ (tokenAt ts c 0).kind ≠ .ending := by
  rw [tokenAt, Array.getD_eq_getD_getElem?] at *
  cases found : ts[c.index + 0]? with
  | none =>
    rw [found] at known
    exact absurd rfl known
  | some t =>
    rw [found] at known
    have mem := Array.mem_of_getElem? found
    exact ⟨mem, fun ended => known (ends t mem ended)⟩

theorem gives_members (ends : EndsHaveNoKey ts) (g : Nested) :
    Gives ts (members g) fun found => AreBracesAmong ts found.1 := by
  intro c found c' yields
  obtain ⟨start, c₁, here, yields⟩ := yields_bind.1 yields
  obtain ⟨rfl, rfl⟩ := yields_here here
  obtain ⟨opening, c₂, opened, yields⟩ := yields_bind.1 yields
  obtain ⟨rfl, key, -⟩ := yields_expect opened
  obtain ⟨ms, c₃, -, yields⟩ := yields_bind.1 yields
  obtain ⟨closing, c₄, closed, yields⟩ := yields_bind.1 yields
  obtain ⟨rfl, key', stop⟩ := yields_expect closed
  obtain ⟨span, c₅, spanned, yields⟩ := yields_bind.1 yields
  obtain ⟨rfl, rfl⟩ := yields_spanFrom spanned
  obtain ⟨rfl, -⟩ := yields_pure.1 yields
  obtain ⟨mem, -⟩ := mem_of_key ends (c := c) (by rw [key]; decide)
  obtain ⟨mem', notEnd⟩ := mem_of_key ends (c := c₃) (by rw [key']; decide)
  exact ⟨⟨_, mem, key, rfl⟩, ⟨_, mem', key', (stop notEnd).symm⟩⟩

theorem gives_classDecl (ends : EndsHaveNoKey ts) (g : Nested) (start : Nat) :
    Gives ts (classDecl g start) fun d => ∀ ns, (Declared.classLike ns d).ReadFrom ts := by
  refine .last fun ms => .last fun t => ?_
  split
  · exact .fail
  · rename_i kind _
    refine .last fun _ => .bind gives_word fun name isWord => ?_
    have body (parents interfaces : List String) : Gives ts (do
        let found ← members g
        return ClassDecl.mk (← spanFrom start) kind ms name parents interfaces found.1 found.2)
        fun d => ∀ ns, (Declared.classLike ns d).ReadFrom ts :=
      .bind (gives_members ends g) fun found braces => .last fun span => .pure fun _ =>
        ⟨isWord, braces⟩
    dsimp only
    split
    · refine .last fun _ => ?_
      split <;> refine .last fun parents => ?_ <;> split <;> exact .last (body parents)
    · split <;> refine .last fun parents => ?_ <;> split <;> exact .last (body parents)

theorem gives_functionDecl (g : Nested) (start : Nat) :
    Gives ts (functionDecl g start) fun d => ∀ ns, (Declared.function ns d).ReadFrom ts := by
  refine .last fun _ => .last fun _ => .bind gives_word fun name isWord => ?_
  exact .last fun ps => .last fun type => .last fun b => .last fun span => .pure fun _ => isWord

/-! ### Statements -/

section
variable {g : Nested} (inner : Gives ts g.statement (Stmt.Declares P))
include inner

theorem gives_statementsUntil (keys : List String) :
    Gives ts (statementsUntil g keys) fun ss => ∀ s ∈ ss, s.Declares P :=
  .itemsUntil inner

theorem gives_body :
    Gives ts (body g) fun | .mk _ ss => ∀ s ∈ ss, s.Declares P :=
  .last fun _ => .last fun _ => .bind (.itemsUntil inner) fun _ all => .last fun _ =>
    .last fun _ => .pure all

theorem gives_block : Gives ts (block g) fun ss => ∀ s ∈ ss, s.Declares P :=
  .bind (gives_body inner) fun (.mk _ _) all => .pure all

theorem gives_namespaceStatement (start : Nat) :
    Gives ts (namespaceStatement g start) (Stmt.Declares P) := by
  refine .last fun _ => .last fun t => ?_
  have rest (path : Option String) : Gives ts (do
      if ← sees "\x7b" then
        let ss ← block g
        return .ns (← spanFrom start) path ss
      else
        terminator
        let ss ← statementsUntil g ["namespace"]
        return .ns (← spanFrom start) path ss) (Stmt.Declares P) := by
    refine .last fun braced => ?_
    split
    · exact .bind (gives_block inner) fun ss all => .last fun span => .pure (Stmt.declares_ns all)
    · exact .last fun _ => .bind (gives_statementsUntil inner _) fun ss all =>
        .last fun span => .pure (Stmt.declares_ns all)
  dsimp only
  split <;> exact .last rest

/-! ### Branches -/

theorem gives_elseBranches :
    Gives ts (elseBranches g) fun (es, otherwise) =>
      (∀ e ∈ es, e.Declares P) ∧ ∀ s ∈ otherwise, s.Declares P := by
  refine .bind (P := fun es => ∀ e ∈ es, e.Declares P) (.many (.last fun more => ?_)) ?_
  · split
    · refine .last fun c => .bind inner fun s read => .pure ?_
      intro e same
      obtain rfl := Option.some.inj same
      exact Stmt.declares_single read
    · exact .pure nofun
  · intro es branches
    have rest (otherwise : List Stmt) (all : ∀ s ∈ otherwise, s.Declares P) :
        Gives ts (pure (es, otherwise)) fun (es, otherwise) =>
          (∀ e ∈ es, e.Declares P) ∧ ∀ s ∈ otherwise, s.Declares P :=
      .pure ⟨branches, all⟩
    refine .last fun more => ?_
    dsimp only
    split
    · exact .bind (.map (fun c s c' yields => Stmt.declares_single (inner c s c' yields))) rest
    · exact .bind (.pure nofun) rest

theorem gives_colonBranches :
    Gives ts (colonBranches g) fun (es, otherwise) =>
      (∀ e ∈ es, e.Declares P) ∧ ∀ s ∈ otherwise, s.Declares P := by
  refine .bind (P := fun es => ∀ e ∈ es, e.Declares P) (.many (.last fun more => ?_)) ?_
  · split
    · refine .last fun c => .last fun _ =>
        .bind (gives_statementsUntil inner _) fun ss all => .pure ?_
      intro e same
      obtain rfl := Option.some.inj same
      exact all
    · exact .pure nofun
  · intro es branches
    have rest (otherwise : List Stmt) (all : ∀ s ∈ otherwise, s.Declares P) :
        Gives ts (do
          let _ ← expect "endif"
          terminator
          return (es, otherwise)) fun (es, otherwise) =>
          (∀ e ∈ es, e.Declares P) ∧ ∀ s ∈ otherwise, s.Declares P :=
      .last fun _ => .last fun _ => .pure ⟨branches, all⟩
    refine .last fun more => ?_
    dsimp only
    split
    · exact .last fun _ => .bind (gives_statementsUntil inner _) rest
    · exact .bind (.pure nofun) rest

theorem gives_ifStatement (start : Nat) :
    Gives ts (ifStatement g start) (Stmt.Declares P) := by
  refine .last fun _ => .last fun c => .last fun colon => ?_
  split
  · refine .bind (gives_statementsUntil inner _) fun ss all => ?_
    refine .bind (gives_colonBranches inner) fun (es, otherwise) branches => ?_
    exact .last fun span => .pure (Stmt.declares_ifElse all branches.1 branches.2)
  · refine .bind inner fun s read => ?_
    refine .bind (gives_elseBranches inner) fun (es, otherwise) branches => ?_
    exact .last fun span =>
      .pure (Stmt.declares_ifElse (Stmt.declares_single read) branches.1 branches.2)

end

theorem gives_unlisted {s : Stmt} (h : ∀ ns, declaredBy ns s = []) :
    Gives ts (pure s) (Stmt.Declares P) := by
  refine .pure fun ns d mem => ?_
  rw [h] at mem
  exact absurd mem List.not_mem_nil

/-! ### All statements -/

/-- The property holds of all class-likes and functions that the grammar reads. -/
structure GivesDeclared (ts : Array Token) (P : Declared → Prop) : Prop where
  classDecl : ∀ g start, Gives ts (classDecl g start) fun d => ∀ ns, P (.classLike ns d)
  functionDecl : ∀ g start, Gives ts (functionDecl g start) fun d => ∀ ns, P (.function ns d)

section
variable {g : Nested} (leaves : GivesDeclared ts P)
include leaves

section
variable (inner : Gives ts g.statement (Stmt.Declares P))
include inner

theorem gives_wordStatement (start : Nat) :
    Gives ts (wordStatement g start) (Stmt.Declares P) := by
  refine .last fun isClass => ?_
  split
  · exact .bind (leaves.classDecl g start) fun d holds => .pure (Stmt.declares_classLike holds)
  refine .last fun isFunction => ?_
  split
  · exact .bind (leaves.functionDecl g start) fun d holds => .pure (Stmt.declares_function holds)
  refine .last fun t => .last fun ahead => ?_
  split
  case h_1 => exact gives_ifStatement inner start
  case h_8 => exact gives_namespaceStatement inner start
  -- every other rule ends with a statement that declares nothing
  all_goals repeat' first | exact gives_unlisted fun _ => rfl | refine .last fun _ => ?_ | split

theorem gives_statement : Gives ts (statement g) (Stmt.Declares P) := by
  refine .last fun start => .last fun t => ?_
  have expression : Gives ts (expressionStatement g start) (Stmt.Declares P) :=
    .last fun _ => .last fun _ => .last fun _ => gives_unlisted fun _ => rfl
  split
  case h_5 => exact gives_wordStatement leaves inner start
  case h_6 =>
    split
    · exact .bind (gives_body inner) fun (.mk _ _) all => .pure (Stmt.declares_block all)
    · exact .last fun _ => gives_unlisted fun _ => rfl
    · refine .last fun before => .last fun _ => .last fun next => .last fun _ => .last fun _ => ?_
      split
      · exact gives_wordStatement leaves inner start
      · exact .last fun _ => expression
    · exact expression
  case h_4 => exact .last fun _ => .last fun _ => .last fun _ => .last fun _ =>
    gives_unlisted fun _ => rfl
  all_goals exact .last fun _ => gives_unlisted fun _ => rfl

end

/-- Whatever the depth of nesting, the property holds of the declarations in a statement. -/
theorem gives_nested (depth : Nat) : Gives ts (nested depth).statement (Stmt.Declares P) := by
  induction depth with
  | zero => exact .fail
  | succ depth ih => exact gives_statement leaves ih

theorem gives_program (depth : Nat) :
    Gives ts (program depth) fun ss => ∀ s ∈ ss, s.Declares P :=
  .itemsUntil (gives_nested leaves depth)

end

end Php.Grammar

/-- What holds of all class-likes and functions that the grammar reads holds of all that a program
declares. -/
theorem Declared.holds_parse {source : String}
    (leaves : Grammar.GivesDeclared (scan source).tokens P) (ns : Option String) :
    ∀ d ∈ declaredByAll ns (Program.parse source).statements, P d := by
  have given := Grammar.gives_program leaves (2 * (scan source).tokens.size + 2) {}
  simp only [Yields] at given
  have statements_eq : (Program.parse source).statements =
      ((((Grammar.program (2 * (scan source).tokens.size + 2)).run (scan source).tokens).run.run
        {}).1.toOption).getD [] := rfl
  rw [statements_eq]
  refine holds_all ?_ ns
  generalize ((Grammar.program _).run _).run.run {} = reached at given ⊢
  obtain ⟨result, c⟩ := reached
  cases result with
  | error => exact fun _ mem => (List.not_mem_nil mem).elim
  | ok ss => exact given ss c rfl

/-- All that a program declares is read from the tokens of its source. -/
theorem Declared.readFrom_parse {source : String}
    (ends : Grammar.EndsHaveNoKey (scan source).tokens) (ns : Option String) :
    ∀ d ∈ declaredByAll ns (Program.parse source).statements,
      d.ReadFrom (scan source).tokens :=
  holds_parse ⟨Grammar.gives_classDecl ends, Grammar.gives_functionDecl⟩ ns

end PhpSymbols
