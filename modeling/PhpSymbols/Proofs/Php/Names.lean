import Mathlib.Data.List.TakeWhile
import PhpSymbols.Proofs.Php.ReadFrom
import PhpSymbols.Proofs.Php.Tokens
import PhpSymbols.Proofs.Text.LineBreaks

/-!
# Names stand on one line

* `single_of_mem_lexemes`, `isOneLine_of_name`: no name of a source has a line break in it;
* `Declared.names`: the names that a declaration gives and refers to;
* `gives_classNames`, `gives_functionNames`: the grammar takes each of them from the text of a
  token;
* `Declared.isOneLine_of_parse`: so each of them stands on one line.
-/

namespace PhpSymbols.Php
open Text

theorem isLineBreak_of_isNameChar {c : Char} (name : isNameChar c = true) :
    isLineBreak c = false := by
  apply Bool.eq_false_iff.2
  intro breaks
  simp only [isLineBreak, Bool.or_eq_true, beq_iff_eq] at breaks
  rcases breaks with rfl | rfl <;> exact absurd name (by decide)

theorem single_take_nameLength (s : List Char) :
    ∀ c ∈ s.take (nameLength s), isLineBreak c = false := by
  fun_induction nameLength s with
  | case1 => simp
  | case2 c rest starts ih =>
    have start : isNameChar c = true := by simp [isNameChar, starts]
    rw [Nat.add_comm, List.take_succ_cons, List.take_succ_cons]
    exact List.forall_mem_cons.2 ⟨by decide,
      List.forall_mem_cons.2 ⟨isLineBreak_of_isNameChar start, ih⟩⟩
  | case3 c rest notStart => simp
  | case4 c rest _ name ih =>
    rw [Nat.add_comm, List.take_succ_cons]
    exact List.forall_mem_cons.2 ⟨isLineBreak_of_isNameChar name, ih⟩
  | case5 c rest => simp

/-- What is a word in lower case breaks no line either. -/
theorem single_of_startsIgnoringCase {word : String} (single : IsOneLine word) {s : List Char}
    (starts : startsIgnoringCase word s = true) :
    ∀ c ∈ s.take word.length, isLineBreak c = false := by
  obtain ⟨behind, same⟩ := List.isPrefixOf_iff_prefix.1 starts
  have all : lower (s.take word.length) = word.toList := by
    have lengths := congrArg List.length same
    have short : (lower (s.take word.length)).length ≤ word.length := by
      rw [lower, List.length_map, List.length_take]
      exact Nat.min_le_left _ _
    rw [List.length_append, String.length_toList] at lengths
    obtain rfl := List.eq_nil_of_length_eq_zero (by omega : behind.length = 0)
    rw [← same, List.append_nil]
  intro c mem
  apply Bool.eq_false_iff.2
  intro breaks
  have lowered : c.toLower ∈ word.toList := by
    rw [← all]
    exact List.mem_map_of_mem mem
  have kept : isLineBreak c.toLower = true := by
    simp only [isLineBreak, Bool.or_eq_true, beq_iff_eq] at breaks
    rcases breaks with rfl | rfl <;> decide
  simp [isOneLine_iff.1 single _ lowered] at kept

theorem single_take_wordLength (s : List Char) :
    ∀ c ∈ s.take (wordLength s), isLineBreak c = false := by
  unfold wordLength
  dsimp only
  split
  · rename_i writes
    rw [List.take_add]
    exact List.forall_mem_append.2 ⟨single_take_nameLength s,
      single_of_startsIgnoringCase (by decide) writes.2⟩
  · exact single_take_nameLength s

theorem single_take_runLength (s : List Char) :
    ∀ c ∈ s.take (runLength isNameChar s), isLineBreak c = false := by
  have run : s.take (runLength isNameChar s) = s.takeWhile isNameChar :=
    List.prefix_iff_eq_take.1 (List.takeWhile_prefix _) |>.symm
  rw [run]
  exact fun c mem => isLineBreak_of_isNameChar (List.mem_takeWhile_imp mem)

theorem single_codeLexeme {c : Char} {rest : List Char}
    (name : (codeLexeme (c :: rest)).1.isName = true) :
    ∀ d ∈ c :: rest.take ((codeLexeme (c :: rest)).2 - 1), isLineBreak d = false := by
  rcases codeLexeme_name name with ⟨rfl, is⟩ | ⟨rfl, is⟩ | ⟨starts, is⟩
  · rw [is, Nat.add_sub_cancel_left]
    exact List.forall_mem_cons.2 ⟨by decide, single_take_nameLength rest⟩
  · rw [is, Nat.add_sub_cancel_left]
    exact List.forall_mem_cons.2 ⟨by decide, single_take_runLength rest⟩
  · rw [is]
    have start : isNameChar c = true := by simp [isNameChar, starts]
    have all := single_take_wordLength (c :: rest)
    dsimp only
    cases length : wordLength (c :: rest) with
    | zero => simp [isLineBreak_of_isNameChar start]
    | succ n => rwa [length, List.take_succ_cons] at all

theorem single_of_mem_lexemes {inCode : Bool} {s : List Char} {l : Lexeme}
    (mem : l ∈ lexemes inCode s) (name : l.kind.isName = true) :
    ∀ c ∈ l.text, isLineBreak c = false := by
  fun_induction lexemes inCode s with
  | case1 => exact absurd mem List.not_mem_nil
  | case2 inCode c rest kind n head ih =>
    rcases List.mem_cons.1 mem with rfl | mem
    · cases inCode with
      | false =>
        have other := isName_headLexeme (c :: rest)
        rw [head] at other
        simp [other] at name
      | true =>
        have code : codeLexeme (c :: rest) = (kind, n) := head
        have isName : (codeLexeme (c :: rest)).1.isName = true := by rwa [code]
        have single := single_codeLexeme isName
        rwa [code] at single
    · exact ih mem

/-- A name of a source stands on one line. -/
theorem isOneLine_of_name {source : String} {t : Token} (mem : t ∈ (scan source).tokens)
    (name : t.kind.isName = true) : IsOneLine t.text := by
  rcases mem_tokens_scan mem with ⟨ends, -⟩ | ⟨before, l, behind, split, rfl⟩
  · rw [ends] at name
    exact absurd name nofun
  · have mem : l ∈ lexemes false source.toList := by simp [split]
    apply isOneLine_iff.2
    change ∀ c ∈ (String.ofList l.text).toList, _
    rw [String.toList_ofList]
    exact single_of_mem_lexemes mem name

/-- The text of a token that is a name. -/
def IsNameAmong (ts : Array Token) (name : String) : Prop :=
  ∃ t ∈ ts, t.kind.isName = true ∧ t.text = name

/-! ### Names in declarations -/

def Param.name : Param → String
  | .mk _ _ _ _ name _ _ => name

def PropertyItem.name : PropertyItem → String
  | .mk name _ => name

def ConstantItem.name : ConstantItem → String
  | .mk name _ => name

/-- The names that a member declares or refers to, as written. -/
def Member.names : Member → List String
  | .method _ _ name ps _ _ => name :: ps.map Param.name
  | .property _ _ _ items => items.map PropertyItem.name
  | .hookedProperty _ _ _ name => [name]
  | .constant _ _ _ items => items.map ConstantItem.name
  | .enumCase _ name _ => [name]
  | .traitUse _ names => names

end PhpSymbols.Php

namespace PhpSymbols
open Php Php.Parser

/-- The names in a declaration. -/
def Declared.names : Declared → List String
  | .classLike _ (.mk _ _ _ name parents interfaces _ members) =>
    name :: parents ++ interfaces ++ members.flatMap Member.names
  | .function _ (.mk _ name ps _ _) => name :: ps.map Param.name

namespace Php.Grammar
variable {ts : Array Token}

/-- What is taken as a name is the text of one. -/
theorem isNameAmong_of_take {c c' : Cursor} {name : String}
    (isName : (tokenAt ts c 0).kind.isName = true)
    (yields : Yields ts (do return (← take).text) c name c') : IsNameAmong ts name := by
  obtain ⟨t, c₁, taken, yields⟩ := yields_bind.1 yields
  obtain ⟨rfl, -⟩ := yields_take taken
  obtain ⟨rfl, -⟩ := yields_pure.1 yields
  refine ⟨_, mem_of_tokenAt fun ends => ?_, isName, rfl⟩
  rw [ends] at isName
  cases isName

theorem gives_name : Gives ts name (IsNameAmong ts) := by
  intro c name c' yields
  obtain ⟨t, c₁, peeked, yields⟩ := yields_bind.1 yields
  obtain ⟨rfl, rfl⟩ := yields_peekAt.1 peeked
  split at yields
  · rename_i isName
    refine isNameAmong_of_take ?_ yields
    simp only [isNameToken, Bool.or_eq_true, beq_iff_eq] at isName
    rcases isName with (kind | kind) | kind <;> rw [kind] <;> rfl
  · exact absurd yields not_yields_fail

theorem gives_writtenVariable : Gives ts writtenVariable (IsNameAmong ts) := by
  intro c name c' yields
  obtain ⟨t, c₁, peeked, yields⟩ := yields_bind.1 yields
  obtain ⟨rfl, rfl⟩ := yields_peekAt.1 peeked
  split at yields
  · rename_i isVariable
    refine isNameAmong_of_take ?_ yields
    rw [beq_iff_eq.1 isVariable]
    rfl
  · exact absurd yields not_yields_fail

theorem gives_simpleName : Gives ts word (IsNameAmong ts) := by
  intro c name c' yields
  obtain ⟨t, mem, kind, same⟩ := gives_word c name c' yields
  exact ⟨t, mem, by rw [kind]; rfl, same⟩

theorem gives_nameList : Gives ts nameList fun names => ∀ n ∈ names, IsNameAmong ts n := by
  refine .bind gives_name fun first isName => ?_
  refine .bind (.many (P := IsNameAmong ts) (.last fun comma => ?_)) fun more all => .pure ?_
  · split
    · exact .mapSome gives_name
    · exact .pure nofun
  · exact List.forall_mem_cons.2 ⟨isName, all⟩

theorem gives_parameter (g : Nested) :
    Gives ts (parameter g) fun p => IsNameAmong ts p.name := by
  refine .last fun _ => .last fun ms => .last fun hint => .last fun isReference => ?_
  refine .last fun isVariadic => .bind gives_writtenVariable fun name isName => ?_
  refine .last fun initial => .last fun hasHooks => ?_
  dsimp only
  split
  · exact .last fun _ => .pure isName
  · exact .pure isName

theorem gives_parameters (g : Nested) :
    Gives ts (parameters g) fun ps => ∀ n ∈ ps.map Param.name, IsNameAmong ts n := by
  refine .last fun _ => .bind (.commaSeparated (gives_parameter g)) fun ps all => ?_
  exact .last fun _ => .pure (List.forall_mem_map.2 all)

/-! ### Members -/

section
variable {g : Nested} {start : Nat} {ms : List Modifier}

theorem gives_constantMember :
    Gives ts (constantMember g start ms) fun m => ∀ n ∈ m.names, IsNameAmong ts n := by
  have item : Gives ts (constantItem g) fun i => IsNameAmong ts i.name :=
    .bind gives_simpleName fun name isName => .last fun _ => .last fun value => .pure isName
  refine .last fun _ => .last fun ahead => ?_
  have rest (type : Option Span) : Gives ts (do
      let items ← commaSeparated [";"] (constantItem g)
      terminator
      return Member.constant (← spanFrom start) ms type items)
      fun m => ∀ n ∈ m.names, IsNameAmong ts n :=
    .bind (.commaSeparated item) fun items all => .last fun _ => .last fun span =>
      .pure (List.forall_mem_map.2 all)
  dsimp only
  split <;> exact .last rest

theorem gives_methodMember :
    Gives ts (methodMember g start ms) fun m => ∀ n ∈ m.names, IsNameAmong ts n := by
  refine .last fun _ => .last fun _ => .bind gives_simpleName fun name isName => ?_
  refine .bind (gives_parameters g) fun ps all => .last fun type => .last fun ends => ?_
  have named (b : Option Body) (span : Span) :
      ∀ n ∈ (Member.method span ms name ps type b).names, IsNameAmong ts n :=
    List.forall_mem_cons.2 ⟨isName, all⟩
  split
  · exact .last fun span => .pure (named none span)
  · exact .last fun b => .last fun span => .pure (named (some b) span)

theorem gives_propertyMember :
    Gives ts (propertyMember g start ms) fun m => ∀ n ∈ m.names, IsNameAmong ts n := by
  have item : Gives ts (propertyItem g) fun i => IsNameAmong ts i.name :=
    .bind gives_writtenVariable fun name isName => .last fun initial => .pure isName
  refine .last fun _ => .last fun type => .bind item fun (.mk name initial) isName => ?_
  refine .last fun hooked => ?_
  split
  · exact .last fun _ => .last fun span => .pure (List.forall_mem_singleton.2 isName)
  · refine .bind (.many (P := fun i => IsNameAmong ts i.name) (.last fun comma => ?_))
      fun more all => .last fun _ => .last fun span => .pure ?_
    · split
      · exact .mapSome item
      · exact .pure nofun
    · exact List.forall_mem_cons.2 ⟨isName, List.forall_mem_map.2 all⟩

theorem gives_caseMember :
    Gives ts (caseMember g start) fun m => ∀ n ∈ m.names, IsNameAmong ts n :=
  .last fun _ => .last fun _ => .bind gives_simpleName fun _ isName => .last fun _ =>
    .last fun _ => .last fun _ => .last fun _ => .pure (List.forall_mem_singleton.2 isName)

theorem gives_traitUseMember :
    Gives ts (traitUseMember start) fun m => ∀ n ∈ m.names, IsNameAmong ts n := by
  refine .last fun _ => .bind gives_nameList fun names all => .last fun braced => ?_
  dsimp only
  split <;> exact .last fun _ => .last fun span => .pure all

theorem gives_member (g : Nested) :
    Gives ts (member g) fun m => ∀ n ∈ m.names, IsNameAmong ts n := by
  refine .last fun start => .last fun _ => .last fun after => .last fun ms => .last fun t => ?_
  split
  · exact gives_constantMember
  · exact gives_methodMember
  · exact gives_caseMember
  · exact gives_traitUseMember
  · exact gives_propertyMember

end

theorem gives_memberList (g : Nested) :
    Gives ts (members g) fun found => ∀ n ∈ found.2.flatMap Member.names, IsNameAmong ts n := by
  refine .last fun start => .last fun _ => .bind (.itemsUntil (gives_member g)) fun ms all => ?_
  refine .last fun _ => .last fun span => .pure fun n mem => ?_
  obtain ⟨m, among, named⟩ := List.mem_flatMap.1 mem
  exact all m among n named

/-! ### Declarations -/

theorem gives_namesAfter (keyword : String) :
    Gives ts (namesAfter keyword) fun names => ∀ n ∈ names, IsNameAmong ts n := by
  refine .last fun here => ?_
  split
  · exact gives_nameList
  · exact .pure nofun

theorem gives_classNames (g : Nested) (start : Nat) :
    Gives ts (classDecl g start) fun d =>
      ∀ ns, ∀ n ∈ (Declared.classLike ns d).names, IsNameAmong ts n := by
  refine .last fun ms => .last fun t => ?_
  split
  · exact .fail
  · rename_i kind _
    refine .last fun _ => .bind gives_simpleName fun name isName => ?_
    have noNames : Gives ts (pure []) fun names => ∀ n ∈ names, IsNameAmong ts n := .pure nofun
    have body (parents : List String) (up : ∀ n ∈ parents, IsNameAmong ts n)
        (interfaces : List String) (beside : ∀ n ∈ interfaces, IsNameAmong ts n) :
        Gives ts (do
          let found ← members g
          return ClassDecl.mk (← spanFrom start) kind ms name parents interfaces found.1 found.2)
        fun d => ∀ ns, ∀ n ∈ (Declared.classLike ns d).names, IsNameAmong ts n := by
      refine .bind (gives_memberList g) fun found all => .last fun span => .pure fun _ => ?_
      simp only [Declared.names, List.forall_mem_append, List.forall_mem_cons]
      exact ⟨⟨⟨isName, up⟩, beside⟩, all⟩
    have behind (parents : List String) (up : ∀ n ∈ parents, IsNameAmong ts n) :
        Gives ts (do
          let interfaces ←
            if kind = .classDecl ∨ kind = .enumDecl then namesAfter "implements" else pure []
          let found ← members g
          return ClassDecl.mk (← spanFrom start) kind ms name parents interfaces found.1 found.2)
        fun d => ∀ ns, ∀ n ∈ (Declared.classLike ns d).names, IsNameAmong ts n := by
      dsimp only
      split
      · exact .bind (gives_namesAfter _) (body parents up)
      · exact .bind noNames (body parents up)
    dsimp only
    split
    · refine .last fun _ => ?_
      split
      · exact .bind (gives_namesAfter _) behind
      · exact .bind noNames behind
    · split
      · exact .bind (gives_namesAfter _) behind
      · exact .bind noNames behind

theorem gives_functionNames (g : Nested) (start : Nat) :
    Gives ts (functionDecl g start) fun d =>
      ∀ ns, ∀ n ∈ (Declared.function ns d).names, IsNameAmong ts n := by
  refine .last fun _ => .last fun _ => .bind gives_simpleName fun name isName => ?_
  refine .bind (gives_parameters g) fun ps all => .last fun type => .last fun b => ?_
  exact .last fun span => .pure fun _ => List.forall_mem_cons.2 ⟨isName, all⟩

end Php.Grammar

/-- The names in all that a program declares stand on one line. -/
theorem Declared.isOneLine_of_parse {source : String} (ns : Option String) :
    ∀ d ∈ declaredByAll ns (Program.parse source).statements,
      ∀ n ∈ d.names, Text.IsOneLine n := by
  have taken := holds_parse (P := fun d => ∀ n ∈ d.names, IsNameAmong (scan source).tokens n)
    ⟨Grammar.gives_classNames, Grammar.gives_functionNames⟩ ns
  intro d mem n named
  obtain ⟨t, among, isName, rfl⟩ := taken d mem n named
  exact isOneLine_of_name among isName

end PhpSymbols
