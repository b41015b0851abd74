import PhpSymbols.Proofs.Reflect.Offset

/-!
# Declarations in their places

What the places of nodes do not say, because members and namespaces are not nodes of their
own:

* `ClassDecl.Arranged`: the methods of a class-like stand one after another, each around
  its body;
* `Arranged`: so they do in a whole tree, and namespaces only stand in namespaces;
* `Spaces`, `around_of_spaces`: the code of a namespace is the code around an offset that
  is in it and in no other namespace in it.
-/

namespace PhpSymbols
open Php

namespace Php

def Member.methodSpan? : Member → Option Span
  | .method span .. => some span
  | .property .. | .hookedProperty .. | .constant .. | .enumCase .. | .traitUse .. => none

/-- A method stands around its body. -/
def Member.HoldsBody : Member → Prop
  | .method span _ _ _ _ (some b) => span.start ≤ b.span.start ∧ b.span.stop ≤ span.stop
  | _ => True

instance (m : Member) : Decidable m.HoldsBody := by
  unfold Member.HoldsBody
  split <;> infer_instance

/-- The body of a class-like opens inside it. Its methods stand one after another behind the
opening brace, each around its own body. -/
structure ClassDecl.Arranged (d : ClassDecl) : Prop where
  opens : d.span.start ≤ d.braces.start ∧ d.braces.start < d.span.stop
  behind : ∀ span ∈ d.members.filterMap Member.methodSpan?, d.braces.start < span.start
  ordered : (d.members.filterMap Member.methodSpan?).Pairwise fun a b => a.stop ≤ b.start
  bodies : ∀ m ∈ d.members, m.HoldsBody

instance (d : ClassDecl) : Decidable d.Arranged :=
  decidable_of_iff ((d.span.start ≤ d.braces.start ∧ d.braces.start < d.span.stop) ∧
      (∀ span ∈ d.members.filterMap Member.methodSpan?, d.braces.start < span.start) ∧
      ((d.members.filterMap Member.methodSpan?).Pairwise fun a b => a.stop ≤ b.start) ∧
      ∀ m ∈ d.members, m.HoldsBody)
    ⟨fun h => ⟨h.1, h.2.1, h.2.2.1, h.2.2.2⟩,
      fun h => ⟨h.opens, h.behind, h.ordered, h.bodies⟩⟩

end Php

namespace Node

def isNamespace : Node → Bool
  | .stmt (.ns ..) => true
  | _ => false

/-- What stands in the node directly stands where the grammar lets it. -/
def IsArranged : Node → Prop
  | .stmt (.classLike d) => d.Arranged
  | .stmt (.ns ..) => True
  | n => ∀ k ∈ n.parts, k.isNamespace = false

instance (n : Node) : Decidable n.IsArranged := by
  unfold IsArranged
  split <;> infer_instance

theorem IsArranged.part {n k : Node} (h : n.IsArranged) (other : n.isNamespace = false)
    (part : k ∈ n.parts) : k.isNamespace = false := by
  unfold IsArranged at h
  split at h
  · obtain ⟨b, -, rfl⟩ := List.mem_map.1 part
    rfl
  · cases other
  · exact h k part

end Node

/-- All that stands in the nodes is arranged. -/
inductive Arranged : List Node → Prop where
  | nil : Arranged []
  | cons {n : Node} {ns : List Node} : n.IsArranged → Arranged n.parts → Arranged ns →
      Arranged (n :: ns)

namespace Arranged

theorem of_mem {n : Node} {ns : List Node} (h : Arranged ns) (member : n ∈ ns) :
    n.IsArranged ∧ Arranged n.parts := by
  induction h with
  | nil => cases member
  | cons here parts _ _ ih =>
    cases member with
    | head => exact ⟨here, parts⟩
    | tail _ member => exact ih member

theorem of_within {m n : Node} {ns : List Node} (h : Arranged ns) (member : n ∈ ns)
    (stands : Node.Within m n) : m.IsArranged ∧ Arranged m.parts := by
  induction stands generalizing ns with
  | here => exact h.of_mem member
  | part part _ ih => exact ih (h.of_mem member).2 part

end Arranged

/-- A check that all is arranged; the fuel bounds how many nodes stand in one another and
next to each other. -/
def Node.areArranged : (fuel : Nat) → List Node → Bool
  | _, [] => true
  | 0, _ :: _ => false
  | fuel + 1, n :: ns => decide n.IsArranged && areArranged fuel n.parts && areArranged fuel ns

theorem arranged_of_areArranged {fuel : Nat} {ns : List Node}
    (h : Node.areArranged fuel ns = true) : Arranged ns := by
  induction fuel generalizing ns with
  | zero =>
    cases ns with
    | nil => exact .nil
    | cons => cases h
  | succ fuel ih =>
    cases ns with
    | nil => exact .nil
    | cons n ns =>
      rw [Node.areArranged, Bool.and_eq_true, Bool.and_eq_true, decide_eq_true_eq] at h
      exact .cons h.1.1 (ih h.1.2) (ih h.2)

/-! ### The method around an offset -/

theorem Php.Member.exists_span_of_isMethodAround {m : Member} {offset : Nat}
    (around : m.isMethodAround offset = true) :
    ∃ span, m.methodSpan? = some span ∧ span.start ≤ offset ∧ offset < span.stop := by
  cases m with
  | method span => exact ⟨span, rfl, Span.encloses_iff.1 around⟩
  | property | hookedProperty | constant | enumCase | traitUse => cases around

/-- No two methods hold the same offset. -/
theorem find?_isMethodAround {members : List Member} {m : Member} {offset : Nat}
    (ordered : (members.filterMap Member.methodSpan?).Pairwise fun a b => a.stop ≤ b.start)
    (member : m ∈ members) (around : m.isMethodAround offset = true) :
    members.find? (Member.isMethodAround offset) = some m := by
  obtain ⟨span, spanned, inside⟩ := Member.exists_span_of_isMethodAround around
  induction members with
  | nil => cases member
  | cons first rest ih =>
    by_cases here : first.isMethodAround offset = true
    · rw [List.find?_cons_of_pos here]
      cases member with
      | head => rfl
      | tail _ member =>
        obtain ⟨other, other_spanned, other_inside⟩ := Member.exists_span_of_isMethodAround here
        rw [List.filterMap_cons_some other_spanned, List.pairwise_cons] at ordered
        have := ordered.1 span (List.mem_filterMap.2 ⟨m, member, spanned⟩)
        omega
    · rw [List.find?_cons_of_neg here]
      have later : m ∈ rest := by
        cases member with
        | head => exact absurd around here
        | tail _ member => exact member
      exact ih (ordered.sublist ((List.sublist_cons_self first rest).filterMap _)) later

/-! ### Nodes that hold the offset -/

namespace Walk
variable {w : Walk} {lo hi : Nat}

/-- The offset is in the node, wherever that is. -/
def At (w : Walk) (n : Node) : Prop :=
  ∀ lo hi, Placed lo hi [n] → lo ≤ w.offset ∧ w.offset < hi

theorem At.of_within {m n : Node} (h : w.At m) (stands : Node.Within m n) : w.At n :=
  fun lo hi placed => h lo hi (stands.placed placed)

theorem at_of_encloses {t : Stmt} (inside : t.span.encloses w.offset = true) : w.At (.stmt t) := by
  intro lo hi placed
  have := placed.span_le List.mem_cons_self rfl
  have := Span.encloses_iff.1 inside
  omega

/-! ### Namespaces -/

/-- The statements `code` are those of a namespace `ns`, among the statements `all` of the
namespace `outer`. -/
inductive Spaces : Option String → List Stmt → Option String → List Stmt → Prop where
  | top {ns : Option String} {all : List Stmt} : Spaces ns all ns all
  | inner {outer ns name : Option String} {all ss code : List Stmt} {span : Span} :
      .ns span name ss ∈ all → Spaces (innerNamespace outer name) ss ns code →
      Spaces outer all ns code

theorem Spaces.within {outer ns : Option String} {all code : List Stmt} {t : Stmt}
    (h : Spaces outer all ns code) (member : t ∈ code) :
    ∃ s ∈ all, Node.Within (.stmt t) (.stmt s) := by
  induction h with
  | top => exact ⟨t, member, .here⟩
  | inner stands _ ih =>
    obtain ⟨s, part, within⟩ := ih member
    exact ⟨_, stands, .part (List.mem_map_of_mem part) within⟩

theorem At.encloses {t : Stmt} (h : w.At (.stmt t)) (placed : Placed lo hi [.stmt t]) :
    t.span.encloses w.offset = true :=
  Span.encloses_iff.2 (h _ _ (placed.own List.mem_cons_self rfl))

/-- Of statements one after another, a scan goes into none but the one that holds the offset. -/
theorem eq_of_at {all pre rest : List Stmt} {s t : Stmt} (split : all = pre ++ s :: rest)
    (placed : Placed lo hi (all.map .stmt)) (member : t ∈ all) (inside : w.At (.stmt t))
    (around : (s.span.encloses w.offset || (rest.isEmpty && s.span.stop ≤ w.offset)) = true) :
    t = s := by
  have nodes : all.map Node.stmt = pre.map .stmt ++ ([.stmt s] ++ rest.map .stmt) := by
    rw [split, List.map_append, List.map_cons, List.singleton_append]
  obtain ⟨start, before, place⟩ := Placed.of_append (nodes ▸ placed)
  obtain ⟨stop, here, behind⟩ := place.of_append
  have bounds := here.span_le List.mem_cons_self rfl
  rw [Bool.or_eq_true, Span.encloses_iff, Bool.and_eq_true, decide_eq_true_eq] at around
  rw [split] at member
  rcases List.mem_append.1 member with member | member
  · have := inside _ _ (before.of_mem (List.mem_map_of_mem member))
    omega
  · rcases List.mem_cons.1 member with same | member
    · exact same
    · have := inside _ _ (behind.of_mem (List.mem_map_of_mem member))
      rcases around with encloses | ⟨last, -⟩
      · omega
      · rw [List.isEmpty_iff] at last
        rw [last] at member
        cases member

/-- A scan stays in the code that holds the offset outside of every namespace in it. -/
theorem around_of_at (ns : Option String) {all pre rest : List Stmt} {t : Stmt}
    (split : all = pre ++ rest) (placed : Placed lo hi (all.map .stmt)) (member : t ∈ all)
    (inside : w.At (.stmt t)) (other : (Node.stmt t).isNamespace = false) :
    w.around all rest = all ∧ w.space ns all rest = ns := by
  induction rest generalizing pre with
  | nil => exact ⟨by rw [around], by rw [space]⟩
  | cons s rest ih =>
    have rest_eq := ih (split.trans (List.append_cons _ _ _))
    cases s with
    | ns span name ss =>
      have apart : ¬ (span.encloses w.offset || (rest.isEmpty && span.stop ≤ w.offset)) = true := by
        intro around
        rw [eq_of_at split placed member inside around] at other
        cases other
      rw [around, if_neg apart, space, if_neg apart]
      exact rest_eq
    | _ =>
      rw [around.eq_def, space.eq_def]
      exact rest_eq

/-- A scan goes into a namespace that holds the offset. -/
theorem around_of_namespace (ns : Option String) {all pre rest ss : List Stmt} {span : Span}
    {name : Option String} (split : all = pre ++ rest) (placed : Placed lo hi (all.map .stmt))
    (member : .ns span name ss ∈ rest) (inside : w.At (.stmt (.ns span name ss))) :
    w.around all rest = w.around ss ss ∧
      w.space ns all rest = w.space (innerNamespace ns name) ss ss := by
  have stands : .ns span name ss ∈ all := by
    rw [split]
    exact List.mem_append_right pre member
  have encloses : span.encloses w.offset = true :=
    inside.encloses (placed.of_mem (List.mem_map_of_mem stands))
  induction rest generalizing pre with
  | nil => cases member
  | cons s rest ih =>
    have later : s ≠ .ns span name ss → _ := fun different =>
      ih (split.trans (List.append_cons _ _ _))
        ((List.mem_cons.1 member).resolve_left (Ne.symm different))
    cases s with
    | ns other_span other_name other =>
      by_cases around : (other_span.encloses w.offset ||
          (rest.isEmpty && other_span.stop ≤ w.offset)) = true
      · obtain ⟨rfl, rfl, rfl⟩ := Stmt.ns.inj (eq_of_at split placed stands inside around)
        rw [Walk.around, if_pos around, space, if_pos around]
        exact ⟨rfl, rfl⟩
      · have different : Stmt.ns other_span other_name other ≠ .ns span name ss := by
          rintro ⟨⟩
          rw [encloses] at around
          exact around rfl
        rw [Walk.around, if_neg around, space, if_neg around]
        exact later different
    | _ =>
      rw [Walk.around.eq_def, space.eq_def]
      exact later (by simp)

/-- The code of a namespace is that around an offset which is in it, and in no other
namespace in it. -/
theorem around_of_spaces {outer ns : Option String} {all code : List Stmt} {t : Stmt}
    (h : Spaces outer all ns code) (placed : Placed lo hi (all.map .stmt)) (member : t ∈ code)
    (inside : w.At (.stmt t)) (other : (Node.stmt t).isNamespace = false) :
    w.around all all = code ∧ w.space outer all all = ns := by
  induction h generalizing lo hi with
  | @top ns all => exact around_of_at ns (List.nil_append all).symm placed member inside other
  | @inner outer ns name all ss code span stands code_of ih =>
    obtain ⟨s, part, within⟩ := code_of.within member
    have holds : w.At (.stmt (.ns span name ss)) :=
      inside.of_within (.part (List.mem_map_of_mem part) within)
    obtain ⟨around_eq, space_eq⟩ :=
      around_of_namespace outer (List.nil_append all).symm placed stands holds
    rw [around_eq, space_eq]
    exact ih (placed.of_mem (List.mem_map_of_mem stands)).parts member

/-- What stands in statements stands in the code of a namespace, in another statement. -/
theorem exists_spaces (outer : Option String) {all : List Stmt} {m n : Node} {s : Stmt}
    (member : s ∈ all) (stands : Node.Within m n) (same : n = .stmt s)
    (other : m.isNamespace = false) :
    ∃ ns code, Spaces outer all ns code ∧
      ∃ t ∈ code, Node.Within m (.stmt t) ∧ (Node.stmt t).isNamespace = false := by
  induction stands generalizing outer all s with
  | here =>
    subst same
    exact ⟨outer, all, .top, s, member, .here, other⟩
  | @part n k part within ih =>
    subst same
    cases namespace_ : (Node.stmt s).isNamespace with
    | false => exact ⟨outer, all, .top, s, member, .part part within, namespace_⟩
    | true =>
      cases s with
      | ns span name ss =>
        obtain ⟨t, stands, rfl⟩ := List.mem_map.1 part
        obtain ⟨ns, code, code_of, found⟩ := ih (innerNamespace outer name) stands rfl
        exact ⟨ns, code, .inner member code_of, found⟩
      | _ => cases namespace_

end Walk
end PhpSymbols
