import Mathlib.Data.List.Flatten
import PhpSymbols.Proofs.Reflect.Lookup

/-!
# What a source declares, in order

* `Node.Exposes`: a statement stands in a node with nothing but namespaces, blocks and branches
  around it;
* `Node.mem_declaredByAll_iff`: these are the statements that a source lists, each in the
  innermost namespace around it that has a name;
* `Placed.listed`: they stand one after another, in the order in which they are listed;
* `enumerates_classesIn`: so a reflector finds each class-like and each function once, in source
  order, and no two class-likes open at the same byte.
-/

namespace PhpSymbols
open Php

/-! ### Where declarations are seen -/

namespace Node

/-- The statement `t` stands in the node, and what is around it are blocks, branches and namespaces.
These have the `names`, the outermost first. -/
inductive Exposes (t : Stmt) : (names : List (Option String)) → Node → Prop where
  | here : Exposes t [] (.stmt t)
  | branch {names : List (Option String)} {n k : Node} : k ∈ n.branches → Exposes t names k →
      Exposes t names n
  | space {names : List (Option String)} {span : Span} {name : Option String} {ss : List Stmt}
      {s : Stmt} : s ∈ ss → Exposes t names (.stmt s) →
      Exposes t (name :: names) (.stmt (.ns span name ss))

end Node

/-- The last name that is not empty. -/
def innermostName (names : List (Option String)) : Option String :=
  names.reverse.findSome? (·.filter (!·.isEmpty))

theorem innermostName_cons (name : Option String) (names : List (Option String)) :
    innermostName (name :: names) = (innermostName names).or (name.filter (!·.isEmpty)) := by
  rw [innermostName, List.reverse_cons, List.findSome?_append, List.findSome?_cons]
  cases name.filter (!·.isEmpty) <;> rfl

namespace Node
variable {d : Declared} {ns : Option String} {n : Node}

theorem lists_iff : Lists d ns n ↔
    ∃ names, Exposes d.stmt names n ∧ d.space = (innermostName names).or ns := by
  constructor
  · intro lists
    induction lists with
    | here space same =>
      subst same
      exact ⟨[], .here, by simp [innermostName, space]⟩
    | branch part _ ih =>
      obtain ⟨names, exposes, space⟩ := ih
      exact ⟨names, .branch part exposes, space⟩
    | @space outer name span ss s member _ ih =>
      obtain ⟨names, exposes, space⟩ := ih
      refine ⟨name :: names, .space member exposes, ?_⟩
      rw [space, innermostName_cons, innerNamespace, Option.or_assoc]
  · rintro ⟨names, exposes, space⟩
    induction exposes generalizing ns with
    | here => exact .here (by simpa [innermostName] using space.symm) rfl
    | branch part _ ih => exact .branch part (ih space)
    | @space names span name ss s member _ ih =>
      refine .space member (ih ?_)
      rw [space, innermostName_cons, innerNamespace, Option.or_assoc]

/-- The declarations that a source lists for the node. -/
def listed (ns : Option String) : Node → List Declared
  | .stmt s => declaredBy ns s
  | .elseIf e => declaredByElseIf ns e
  | .expr _ | .element _ | .iteration .. | .catch_ _ | .ensure _ | .case_ _ | .body _ => []

theorem declaredByAll_eq (ns : Option String) (ss : List Stmt) :
    declaredByAll ns ss = (ss.map Node.stmt).flatMap (listed ns) := by
  induction ss with
  | nil => rw [declaredByAll]; rfl
  | cons s ss ih => rw [declaredByAll, ih]; rfl

theorem declaredByElseIfs_eq (ns : Option String) (es : List ElseIf) :
    declaredByElseIfs ns es = (es.map Node.elseIf).flatMap (listed ns) := by
  induction es with
  | nil => rw [declaredByElseIfs]; rfl
  | cons e es ih => rw [declaredByElseIfs, ih]; rfl

/-- A node lists itself, what a namespace holds, or what its branches list. -/
theorem listed_cases (ns : Option String) (n : Node) :
    (∃ d, n = .stmt d.stmt ∧ d.space = ns ∧ n.listed ns = [d]) ∨
    (∃ span name ss, n = .stmt (.ns span name ss) ∧
      n.listed ns = (ss.map Node.stmt).flatMap (listed (innerNamespace ns name))) ∨
    n.listed ns = n.branches.flatMap (listed ns) := by
  cases n with
  | stmt s =>
    cases s with
    | classLike d => exact .inl ⟨.classLike ns d, rfl, rfl, by rw [listed, declaredBy]⟩
    | function d => exact .inl ⟨.function ns d, rfl, rfl, by rw [listed, declaredBy]⟩
    | ns span name ss =>
      exact .inr (.inl ⟨span, name, ss, rfl, by rw [listed, declaredBy, declaredByAll_eq]⟩)
    | block span ss => exact .inr (.inr (by rw [listed, declaredBy, declaredByAll_eq]; rfl))
    | ifElse span c ss elseIfs otherwise =>
      refine .inr (.inr ?_)
      rw [listed, declaredBy, declaredByAll_eq, declaredByAll_eq, declaredByElseIfs_eq, branches,
        List.flatMap_append, List.flatMap_append]
    | _ => exact .inr (.inr (by rw [listed, declaredBy.eq_def]; rfl))
  | elseIf e =>
    obtain ⟨c, ss⟩ := e
    exact .inr (.inr (by rw [listed, declaredByElseIf, declaredByAll_eq]; rfl))
  | _ => exact .inr (.inr rfl)

theorem branches_sublist (n : Node) : n.branches.Sublist n.parts := by
  unfold branches
  split
  · exact .refl _
  · exact .cons _ (.refl _)
  · exact .cons _ (.refl _)
  · exact List.nil_sublist _

theorem mem_of_lists (lists : Lists d ns n) : d ∈ n.listed ns := by
  induction lists with
  | here space same =>
    subst same space
    cases d <;> simp [Declared.stmt, Declared.space, listed, declaredBy]
  | @branch ns n k part _ ih =>
    rcases listed_cases ns n with ⟨d, rfl, -, -⟩ | ⟨span, name, ss, rfl, -⟩ | listed
    · cases d <;> cases part
    · cases part
    · rw [listed]
      exact List.mem_flatMap.2 ⟨k, part, ih⟩
  | @space outer name span ss s member _ ih =>
    rw [listed, declaredBy, declaredByAll_eq]
    exact List.mem_flatMap.2 ⟨_, List.mem_map_of_mem member, ih⟩

/-- A source lists what its statements expose, in the innermost namespace around it that has a
name. -/
theorem mem_declaredByAll_iff {ss : List Stmt} : d ∈ declaredByAll none ss ↔
    ∃ s ∈ ss, ∃ names, Exposes d.stmt names (.stmt s) ∧ d.space = innermostName names := by
  constructor
  · intro member
    obtain ⟨s, part, lists⟩ := lists_of_mem ss none member
    obtain ⟨names, exposes, space⟩ := lists_iff.1 lists
    exact ⟨s, part, names, exposes, by rw [space, Option.or_none]⟩
  · rintro ⟨s, part, names, exposes, space⟩
    rw [declaredByAll_eq]
    refine List.mem_flatMap.2 ⟨_, List.mem_map_of_mem part, mem_of_lists ?_⟩
    exact lists_iff.2 ⟨names, exposes, by rw [space, Option.or_none]⟩

end Node

/-! ### Their order -/

namespace Placed
variable {lo mid hi : Nat}

theorem append {ms ns : List Node} (first : Placed lo mid ms) (rest : Placed mid hi ns) :
    Placed lo hi (ms ++ ns) := by
  induction first with
  | nil le => exact rest.weaken le (Nat.le_refl _)
  | spanned span start inside _ _ ih => exact .spanned span start inside (ih rest)
  | bare span inside _ _ ih => exact .bare span inside (ih rest)

/-- What nodes list stands in them, and in their order. -/
theorem listed {ns : List Node} (h : Placed lo hi ns) (space : Option String) :
    Placed lo hi ((ns.flatMap (Node.listed space)).map fun d => .stmt d.stmt) := by
  induction h generalizing space with
  | nil le => exact .nil le
  | @spanned lo hi n ns span same start inside rest ih_inside ih_rest =>
    rw [List.flatMap_cons, List.map_append]
    refine append ?_ (ih_rest space)
    rcases Node.listed_cases space n with ⟨d, rfl, -, own⟩ | ⟨_, name, ss, rfl, inner⟩ | branches
    · rw [own]
      exact .spanned same start inside (.nil (Nat.le_refl _))
    · rw [inner]
      exact (ih_inside _).weaken start (Nat.le_refl _)
    · rw [branches]
      have sub := (n.branches_sublist.flatMap (Node.listed space)).map fun d => Node.stmt d.stmt
      exact ((ih_inside space).sublist sub).weaken start (Nat.le_refl _)
  | @bare lo mid hi n ns none inside rest ih_inside ih_rest =>
    rw [List.flatMap_cons, List.map_append]
    refine append ?_ (ih_rest space)
    rcases Node.listed_cases space n with ⟨d, rfl, -, -⟩ | ⟨_, name, ss, rfl, -⟩ | branches
    · cases none
    · cases none
    · rw [branches]
      have sub := (n.branches_sublist.flatMap (Node.listed space)).map fun d => Node.stmt d.stmt
      exact (ih_inside space).sublist sub

/-- Of statements in their places each ends before the next starts. -/
theorem pairwise {ss : List Stmt} (h : Placed lo hi (ss.map .stmt)) :
    ss.Pairwise fun a b => a.span.stop ≤ b.span.start := by
  induction ss generalizing lo with
  | nil => exact .nil
  | cons s ss ih =>
    cases h with
    | bare none => cases none
    | spanned same _ _ rest =>
      obtain rfl := Option.some.inj same
      refine List.pairwise_cons.2 ⟨fun t member => ?_, ih rest⟩
      exact rest.start_le (List.mem_map_of_mem member) rfl

end Placed

/-- The body of a declaration, with its braces. -/
def Php.Stmt.braces? : Stmt → Option Span
  | .classLike d => some d.braces
  | .function d => some d.body.span
  | _ => none

/-- Statements in source order, each around its parts, where the body of a declaration opens in
the bytes of the declaration. -/
structure Nested (ss : List Stmt) : Prop where
  placed : ∃ lo hi, Placed lo hi (ss.map .stmt)
  opens : ∀ s ∈ ss, ∀ t names, Node.Exposes t names (.stmt s) → ∀ braces, t.braces? = some braces →
    t.span.start ≤ braces.start ∧ braces.start < t.span.stop

namespace Declared

def braces : Declared → Span
  | .classLike _ d => d.braces
  | .function _ d => d.body.span

theorem braces?_stmt (d : Declared) : d.stmt.braces? = some d.braces := by
  cases d <;> rfl

theorem exists_of_braces? {t : Stmt} {braces : Span} (has : t.braces? = some braces)
    (ns : Option String) : ∃ d : Declared, d.stmt = t ∧ d.braces = braces ∧ d.space = ns := by
  cases t with
  | classLike d => exact ⟨.classLike ns d, rfl, Option.some.inj has, rfl⟩
  | function d => exact ⟨.function ns d, rfl, Option.some.inj has, rfl⟩
  | _ => cases has

def classLike? : Declared → Option (Option String × ClassDecl)
  | .classLike ns d => some (ns, d)
  | .function .. => none

def function? : Declared → Option (Option String × FunctionDecl)
  | .function ns d => some (ns, d)
  | .classLike .. => none

end Declared

/-- It is enough to look at the bodies of the declarations that are listed. -/
theorem nested_of_listed {ss : List Stmt} {lo hi : Nat} (placed : Placed lo hi (ss.map .stmt))
    (opens : ∀ d ∈ declaredByAll none ss,
      d.stmt.span.start ≤ d.braces.start ∧ d.braces.start < d.stmt.span.stop) : Nested ss where
  placed := ⟨lo, hi, placed⟩
  opens s part t names exposes braces has := by
    obtain ⟨d, rfl, rfl, space⟩ := Declared.exists_of_braces? has (innermostName names)
    exact opens d (Node.mem_declaredByAll_iff.2 ⟨s, part, names, exposes, space⟩)

/-- No two declarations that a source lists start at one byte, nor do their bodies. -/
theorem Nested.pairwise {ss : List Stmt} (nested : Nested ss) :
    (declaredByAll none ss).Pairwise fun a b =>
      a.stmt.span.start < b.stmt.span.start ∧ a.braces.start < b.braces.start := by
  obtain ⟨lo, hi, placed⟩ := nested.placed
  have listed : Placed lo hi (((declaredByAll none ss).map Declared.stmt).map .stmt) := by
    rw [List.map_map, Node.declaredByAll_eq]
    exact placed.listed none
  have opens : ∀ d ∈ declaredByAll none ss,
      d.stmt.span.start ≤ d.braces.start ∧ d.braces.start < d.stmt.span.stop := by
    intro d member
    obtain ⟨s, part, names, exposes, -⟩ := Node.mem_declaredByAll_iff.1 member
    exact nested.opens s part d.stmt names exposes d.braces d.braces?_stmt
  refine (List.pairwise_map.1 listed.pairwise).imp_of_mem ?_
  intro a b first second apart
  have := opens a first
  have := opens b second
  constructor <;> omega

/-! ### What is listed -/

def Php.ClassDecl.kind : ClassDecl → ClassKind
  | .mk _ kind _ _ _ _ _ _ => kind

/-- The class-like is read from the declaration in the namespace. -/
def Php.ClassDecl.IsReadAs (ns : Option String) (d : ClassDecl) (c : ClassLike) : Prop :=
  c.kind = d.kind ∧ c.name = d.name ∧ c.ns = ns ∧ c.startOffset = d.braces.start ∧
    c.endOffset = d.braces.stop

/-- The function is read from the declaration in the namespace. -/
def Php.FunctionDecl.IsReadAs (ns : Option String) (d : FunctionDecl) (f : Function) : Prop :=
  f.name = d.name ∧ f.ns = ns

/-- The symbols are those of the declarations that the statements expose, each once and in source
order, with the namespace that it is declared in. -/
structure Enumerates (ss : List Stmt) (classes : List ClassLike) (functions : List Function) :
    Prop where
  each : ∃ ds : List Declared,
    (∀ d, d ∈ ds ↔
      ∃ s ∈ ss, ∃ names, Node.Exposes d.stmt names (.stmt s) ∧ d.space = innermostName names) ∧
    (ds.Pairwise fun a b => a.stmt.span.start < b.stmt.span.start) ∧
    List.Forall₂ (fun (ns, d) c => d.IsReadAs ns c) (ds.filterMap Declared.classLike?) classes ∧
    List.Forall₂ (fun (ns, d) f => d.IsReadAs ns f) (ds.filterMap Declared.function?) functions
  offsets : classes.Pairwise fun a b => a.startOffset < b.startOffset

/-- Class-likes that are read from declarations one after another open one after another. -/
theorem pairwise_of_isReadAs {ds : List (Option String × ClassDecl)} {cs : List ClassLike}
    (read : List.Forall₂ (fun (ns, d) c => Php.ClassDecl.IsReadAs ns d c) ds cs)
    (opens : ds.Pairwise fun a b => a.2.braces.start < b.2.braces.start) :
    cs.Pairwise fun a b => a.startOffset < b.startOffset := by
  induction read with
  | nil => exact .nil
  | @cons d c ds cs first rest ih =>
    obtain ⟨before, opens⟩ := List.pairwise_cons.1 opens
    refine List.pairwise_cons.2 ⟨fun c' member => ?_, ih opens⟩
    obtain ⟨d', part, second⟩ := exists_of_forall₂ rest member
    rw [first.2.2.2.1, second.2.2.2.1]
    exact before d' part

theorem forall₂_trans {α β γ : Type} {R : α → β → Prop} {S : β → γ → Prop} {T : α → γ → Prop}
    (comp : ∀ a b c, R a b → S b c → T a c) {as : List α} {bs : List β} {cs : List γ}
    (first : List.Forall₂ R as bs) (second : List.Forall₂ S bs cs) : List.Forall₂ T as cs := by
  induction first generalizing cs with
  | nil =>
    cases second
    exact .nil
  | cons head _ ih =>
    cases second with
    | cons next rest => exact .cons (comp _ _ _ head next) (ih rest)

/-- Symbols that are read from what a source lists enumerate it. -/
theorem Nested.enumerates {ss : List Stmt} (nested : Nested ss) {classes : List ClassLike}
    {functions : List Function}
    (read : List.Forall₂ (fun (ns, d) c => Php.ClassDecl.IsReadAs ns d c)
      ((declaredByAll none ss).filterMap Declared.classLike?) classes)
    (same : List.Forall₂ (fun (ns, d) f => Php.FunctionDecl.IsReadAs ns d f)
      ((declaredByAll none ss).filterMap Declared.function?) functions) :
    Enumerates ss classes functions where
  each := by
    refine ⟨declaredByAll none ss, fun d => Node.mem_declaredByAll_iff, ?_, read, same⟩
    exact nested.pairwise.imp And.left
  offsets := by
    refine pairwise_of_isReadAs read (List.pairwise_filterMap.2 ?_)
    refine nested.pairwise.imp ?_
    rintro a b ⟨-, opens⟩ c first d second
    cases a with
    | function => cases first
    | classLike =>
      cases b with
      | function => cases second
      | classLike =>
        cases first
        cases second
        exact opens

namespace Reader
variable (rd : Reader)

theorem isReadAs_classLike (ns : Option String) (d : ClassDecl) :
    d.IsReadAs ns (rd.classLike ns d).symbol := by
  cases d
  exact ⟨rfl, rfl, rfl, rfl, rfl⟩

theorem forall₂_classes : List.Forall₂ (fun (ns, d) c => Php.ClassDecl.IsReadAs ns d c.symbol)
    (rd.listed.filterMap Declared.classLike?) rd.declarations.classes := by
  refine List.rel_filterMap (R := Eq) ?_ (List.forall₂_refl _)
  rintro d _ rfl
  cases d with
  | classLike ns d => exact .some (rd.isReadAs_classLike ns d)
  | function => exact .none

theorem forall₂_functions : List.Forall₂ (fun (ns, d) f => Php.FunctionDecl.IsReadAs ns d f)
    (rd.listed.filterMap Declared.function?) rd.declarations.functions := by
  refine List.rel_filterMap (R := Eq) ?_ (List.forall₂_refl _)
  rintro d _ rfl
  cases d with
  | classLike => exact .none
  | function ns d => exact .some (rd.name_function ns d)

end Reader

namespace ReflectorBy

theorem isReadAs_of_completes {κ : Type} {key : String → κ} {r : ReflectorBy key}
    {ns : Option String} {d : ClassDecl} {declared : DeclaredClass} {c : ClassLike}
    (read : d.IsReadAs ns declared.symbol) (completes : r.Completes declared c) :
    d.IsReadAs ns c := by
  obtain ⟨parents, interfaces, traits, rfl⟩ := completes
  rw [DeclaredClass.withVirtualMembers_eq]
  exact read

/-- A source is enumerated by the declarations that are read from it, and by the symbols that a
reflector finds in it. -/
theorem enumerates_classesIn [Frontend] [Walker] {ss : List Stmt} (nested : Nested ss) :
    (∀ rd : Reader, rd.reading.program.statements = ss →
      Enumerates ss (rd.declarations.classes.map (·.symbol)) rd.declarations.functions) ∧
    ∀ {κ : Type} {key : String → κ} [DecidableEq κ] (r : ReflectorBy key) (s : SessionBy key)
      (source : String), (Reading.of source).program.statements = ss →
        s.FaithfulTo r.resolver source →
        Enumerates ss ((r.classesIn source).run s).1.toList
          ((r.functionsIn source).run s).1.toList := by
  constructor
  · rintro rd rfl
    refine nested.enumerates ?_ rd.forall₂_functions
    exact List.forall₂_map_right_iff.2 rd.forall₂_classes
  · rintro κ key _ r s source rfl faithful
    have classes := (r.reader source).forall₂_classes
    refine nested.enumerates (forall₂_trans ?_ classes (r.toList_classesIn faithful)) ?_
    · intro _ _ _ read completes
      exact isReadAs_of_completes read completes
    · rw [r.toList_functionsIn faithful]
      exact (r.reader source).forall₂_functions

/-! ### Declarations in both branches of a condition -/

def conditional : String :=
  "<?php namespace N{if(1):class A{}elseif(2):interface B{}endif;}namespace{function f(){}}"

def conditionalFirst : ClassDecl := .mk ⟨24, 33⟩ .classDecl [] "A" [] [] ⟨31, 33⟩ []

def conditionalSecond : ClassDecl := .mk ⟨43, 56⟩ .interfaceDecl [] "B" [] [] ⟨54, 56⟩ []

def conditionalFunction : FunctionDecl := .mk ⟨73, 87⟩ "f" [] none (.mk ⟨85, 87⟩ [])

def conditionalStatements : List Stmt := [
  .markup ⟨0, 5⟩,
  .ns ⟨6, 63⟩ (some "N") [
    .ifElse ⟨18, 62⟩ (.literal ⟨21, 22⟩ .integer) [.classLike conditionalFirst]
      [.mk (.literal ⟨40, 41⟩ .integer) [.classLike conditionalSecond]] []],
  .ns ⟨63, 88⟩ none [.function conditionalFunction]]

set_option maxRecDepth 100000 in
theorem reading_conditional : Reading.of conditional =
    { text := conditional.toList, program := { statements := conditionalStatements } } := by
  cbv

theorem nested_conditional : Nested conditionalStatements := by
  refine nested_of_listed (placed_of_end? (show Node.end? 20 0 _ = some 88 by decide)) ?_
  intro d listed
  have listed : d ∈ [Declared.classLike (some "N") conditionalFirst,
    .classLike (some "N") conditionalSecond, .function none conditionalFunction] := listed
  simp only [List.mem_cons, List.not_mem_nil, or_false] at listed
  rcases listed with rfl | rfl | rfl <;> decide

theorem enumerates_classesIn_conditional :
    Nested conditionalStatements ∧
    (Reading.of conditional).program.statements = conditionalStatements ∧
    ({} : Session).FaithfulTo ({} : Reflector).resolver conditional ∧
    Enumerates conditionalStatements
      ((({} : Reflector).classesIn conditional).run {}).1.toList
      ((({} : Reflector).functionsIn conditional).run {}).1.toList := by
  have same : (Reading.of conditional).program.statements = conditionalStatements := by
    rw [reading_conditional]
  have faithful : ({} : Session).FaithfulTo ({} : Reflector).resolver conditional :=
    SessionBy.faithfulTo_of_uncached rfl conditional
  refine ⟨nested_conditional, same, faithful, ?_⟩
  exact (enumerates_classesIn nested_conditional).2 {} {} conditional same faithful

end ReflectorBy
end PhpSymbols
