import PhpSymbols.Proofs.Php.Evaluation
import PhpSymbols.Proofs.Reflect.Resolution

/-!
# Compound assignments

* `Compound.results`: the values that a compound assignment may give its variable;
* `Compound.keeps`, `eq_of_keeps`, `exists_of_not_keeps`: the operands that every result is like,
  whatever the variable held;
* `Ty.Describes`: the values that a type is right for;
* `expr_compound`: a compound assignment records the type of its right operand, so the type that
  is recorded is right where the operator keeps the operand, and else it may be wrong.
-/

namespace PhpSymbols
open Php

namespace Php

/-! ### Operators -/

inductive Compound where
  | concat
  | add
  | sub
  | mul
  | div
  | mod
  | pow
  | coalesce
  | bitAnd
  | bitOr
  | bitXor
  | shiftLeft
  | shiftRight
  deriving DecidableEq, Repr

/-- The operator as it is written. -/
def Compound.sign : Compound → String
  | .concat => ".="
  | .add => "+="
  | .sub => "-="
  | .mul => "*="
  | .div => "/="
  | .mod => "%="
  | .pow => "**="
  | .coalesce => "??="
  | .bitAnd => "&="
  | .bitOr => "|="
  | .bitXor => "^="
  | .shiftLeft => "<<="
  | .shiftRight => ">>="

/-- Whether a value is no array and no object. -/
def Value.isScalar : Value → Bool
  | .array | .object _ => false
  | _ => true

def Value.isNull : Value → Bool
  | .unset | .null => true
  | _ => false

namespace Compound

/-- What arithmetic gives: an integer that does not fit becomes a float, and a string is read as a
number. Arrays and objects are refused. -/
def numbers (p q : Value) : List Value :=
  if p.isScalar && q.isScalar then
    if p = .float ∨ q = .float then [.float] else [.int, .float]
  else []

/-- What arithmetic on integers gives. -/
def integers (p q : Value) : List Value := if p.isScalar && q.isScalar then [.int] else []

/-- The values that a variable may have behind a compound assignment, if it held `p` and the right
operand is `q`; none if this always is an error, as a division by null is. Classes that overload
operators are left out. -/
def results (p q : Value) : Compound → List Value
  | .concat => [.string]
  | .coalesce => [if p.isNull then q else p]
  | .add => if p = .array ∧ q = .array then [.array] else numbers p q
  | .sub | .mul | .pow => numbers p q
  | .div => if q.isNull then [] else numbers p q
  | .mod => if q.isNull then [] else integers p q
  | .shiftLeft | .shiftRight => integers p q
  | .bitAnd | .bitOr | .bitXor =>
    if p = .string ∧ q = .string then [.string] else integers p q

/-- Whether a compound assignment with the right operand `q` gives nothing but what is like `q`,
whatever the variable held. Many only do because they refuse it. -/
def keeps (q : Value) : Compound → Bool
  | .concat => q = .string
  | .coalesce => false
  | .add | .sub | .mul | .pow => q = .float || !q.isScalar
  | .div => q = .float || !q.isScalar || q.isNull
  | .mod => q = .int || !q.isScalar || q.isNull
  | .shiftLeft | .shiftRight | .bitAnd | .bitOr | .bitXor => q = .int || !q.isScalar

theorem eq_of_mem_numbers {p q r : Value} (kept : (q = .float || !q.isScalar) = true)
    (result : r ∈ numbers p q) : r = q := by
  rw [numbers] at result
  split at result
  · rename_i scalar
    obtain ⟨-, scalar⟩ := Bool.and_eq_true_iff.1 scalar
    have float : q = .float := by simpa [scalar] using kept
    rw [if_pos (.inr float)] at result
    exact (List.mem_singleton.1 result).trans float.symm
  · cases result

theorem eq_of_mem_integers {p q r : Value} (kept : (q = .int || !q.isScalar) = true)
    (result : r ∈ integers p q) : r = q := by
  rw [integers] at result
  split at result
  · rename_i scalar
    obtain ⟨-, scalar⟩ := Bool.and_eq_true_iff.1 scalar
    have int : q = .int := by simpa [scalar] using kept
    exact (List.mem_singleton.1 result).trans int.symm
  · cases result

/-- An integer and what is neither a float nor refused give an integer that may not fit. -/
theorem exists_mem_numbers {q : Value} (lost : (q = .float || !q.isScalar) = false) :
    ∃ r ∈ numbers .int q, r ≠ q := by
  simp only [Bool.or_eq_false_iff, decide_eq_false_iff_not, Bool.not_eq_false'] at lost
  refine ⟨.float, ?_, Ne.symm lost.1⟩
  have int : Value.int.isScalar = true := rfl
  simp [numbers, lost, int]

theorem exists_mem_integers {q : Value} (lost : (q = .int || !q.isScalar) = false) :
    ∃ r ∈ integers .int q, r ≠ q := by
  simp only [Bool.or_eq_false_iff, decide_eq_false_iff_not, Bool.not_eq_false'] at lost
  refine ⟨.int, ?_, Ne.symm lost.1⟩
  have int : Value.int.isScalar = true := rfl
  simp [integers, lost, int]

theorem eq_of_keeps {o : Compound} {p q r : Value} (kept : o.keeps q = true)
    (result : r ∈ o.results p q) : r = q := by
  cases o with
  | concat =>
    have string : q = .string := of_decide_eq_true kept
    exact (List.mem_singleton.1 result).trans string.symm
  | coalesce => cases kept
  | add =>
    rw [results] at result
    split at result
    · rename_i arrays
      exact (List.mem_singleton.1 result).trans arrays.2.symm
    · exact eq_of_mem_numbers kept result
  | sub | mul | pow => exact eq_of_mem_numbers kept result
  | div =>
    rw [results] at result
    split at result
    · cases result
    · rename_i some
      exact eq_of_mem_numbers (by simpa [keeps, some] using kept) result
  | mod =>
    rw [results] at result
    split at result
    · cases result
    · rename_i some
      exact eq_of_mem_integers (by simpa [keeps, some] using kept) result
  | shiftLeft | shiftRight => exact eq_of_mem_integers kept result
  | bitAnd | bitOr | bitXor =>
    rw [results] at result
    split at result
    · rename_i strings
      exact (List.mem_singleton.1 result).trans strings.2.symm
    · exact eq_of_mem_integers kept result

/-- Else the variable may have held something with which it does. -/
theorem exists_of_not_keeps {o : Compound} {q : Value} (lost : o.keeps q = false) :
    ∃ p, ∃ r ∈ o.results p q, r ≠ q := by
  cases o with
  | concat => exact ⟨.int, .string, List.mem_singleton_self _, Ne.symm (of_decide_eq_false lost)⟩
  | coalesce =>
    by_cases int : q = .int
    · exact ⟨.string, .string, List.mem_singleton_self _, by simp [int]⟩
    · exact ⟨.int, .int, List.mem_singleton_self _, Ne.symm int⟩
  | add | sub | mul | pow => exact ⟨.int, exists_mem_numbers lost⟩
  | div =>
    obtain ⟨lost, some⟩ := Bool.or_eq_false_iff.1 lost
    refine ⟨.int, ?_⟩
    rw [results, if_neg (Bool.eq_false_iff.1 some)]
    exact exists_mem_numbers lost
  | mod =>
    obtain ⟨lost, some⟩ := Bool.or_eq_false_iff.1 lost
    refine ⟨.int, ?_⟩
    rw [results, if_neg (Bool.eq_false_iff.1 some)]
    exact exists_mem_integers lost
  | shiftLeft | shiftRight | bitAnd | bitOr | bitXor => exact ⟨.int, exists_mem_integers lost⟩

end Compound

/-! ### Types of values -/

theorem Value.eq_of_ty {v q : Value} (same : v.ty = q.ty) : v = q := by
  cases v <;> cases q <;> simp_all [Value.ty, Ty.null]

end Php

namespace Ty

/-- A type is right for a value, as far as values go here: the elements of arrays are left out. -/
inductive Describes (v : Value) : Ty → Prop where
  | same : Describes v v.ty
  | array {t : Ty} : v = .array → Describes v (.arrayOf t)
  | null {t : Ty} : v = .null → Describes v (.nullable t)
  | inner {t : Ty} : Describes v t → Describes v (.nullable t)
  | member {t : Ty} {ts : List Ty} : t ∈ ts → Describes v t → Describes v (.union ts)
  | mixed : Describes v .mixed
  | unknown : Describes v .unknown

/-- The type of a value that was assigned is right for no other. -/
theorem Describes.eq {v q : Value} (known : q ≠ .unset) (h : Describes v q.ty) : v = q := by
  generalize same : q.ty = t at h
  cases h with
  | same => exact Value.eq_of_ty same.symm
  | unknown => exact absurd (Value.eq_of_ty (q := .unset) same) known
  | array | null | inner | member | mixed => cases q <;> cases same

end Ty

namespace Walk

/-- A compound assignment that ends by the offset gives its variable the type of its right operand,
whatever the variable had, and has this type itself, as the right side of another assignment. So
the type is right for whatever the variable held, if it is right for an operand that the operator
keeps. Where it is the type of one that the operator does not keep, it is wrong for some result. -/
theorem expr_compound (w : Walk) {s : Scope} (o : Compound) {span place : Span} {x : String}
    {e : Expr} {lo hi : Nat} (placed : Placed lo hi [.expr (.assign span o.sign (.var place x) e)])
    (isOpen : s.isClosed = false) (ended : span.stop ≤ w.offset) :
    let after := w.expr s (.assign span o.sign (.var place x) e)
    let t := (w.expr s e).valueTy e
    after.locals.get? x = some t ∧
    after.valueTy (.assign span o.sign (.var place x) e) = t ∧
    (∀ q, t.Describes q → o.keeps q = true → ∀ p, ∀ r ∈ o.results p q, t.Describes r) ∧
    ∀ q, q ≠ .unset → t = q.ty → o.keeps q = false →
      ∃ p, ∃ r ∈ o.results p q, ¬ t.Describes r := by
  have inside : Placed span.start span.stop [.expr e] := (placed.own List.mem_cons_self rfl).parts
  have before : (w.expr s e).isClosed = false := by
    have apart : ¬ (span.start ≤ w.offset ∧ w.offset < span.stop) := by omega
    exact (sound_of_placed inside _ (.refl _)).isClosed_nodes apart isOpen
  have walked : w.expr s (.assign span o.sign (.var place x) e) =
      (w.expr s e).bind x ((w.expr s e).valueTy e) := by
    have ended : ¬ ((w.expr s e).isClosed || w.offset < span.stop) = true := by
      simpa [before] using ended
    rw [expr, if_neg (Bool.eq_false_iff.1 isOpen)]
    simp only [if_neg ended, Scope.bindTarget]
  dsimp only
  rw [walked]
  refine ⟨?_, (w.expr s e).valueTy_bind x e, ?_, ?_⟩
  · rw [Scope.bind, Bindings.get?_bind, if_pos rfl]
  · intro q right kept p r result
    rw [Compound.eq_of_keeps kept result]
    exact right
  · intro q known type lost
    obtain ⟨p, r, result, other⟩ := Compound.exists_of_not_keeps lost
    rw [type]
    exact ⟨p, r, result, fun right => other (right.eq known)⟩

/-- `$v+=$u=1.5` -/
def sum : Expr :=
  .assign ⟨0, 10⟩ Compound.add.sign (.var ⟨0, 2⟩ "v")
    (.assign ⟨4, 10⟩ "=" (.var ⟨4, 6⟩ "u") (.literal ⟨7, 10⟩ .float))

/-- Whatever `$v` held, the sum with a float is one, if there is any. -/
theorem expr_compound_sum : let w : Walk := ⟨⟨{}, {}⟩, 10⟩
    let s : Scope := ({} : Scope).bind "v" (.scalar "int")
    let e : Expr := .assign ⟨4, 10⟩ "=" (.var ⟨4, 6⟩ "u") (.literal ⟨7, 10⟩ .float)
    Placed 0 10 [.expr sum] ∧ s.isClosed = false ∧ 10 ≤ w.offset ∧
    (w.expr s e).valueTy e = .scalar "float" ∧
    (w.expr s sum).locals.get? "v" = some ((w.expr s e).valueTy e) ∧
    (w.expr s sum).valueTy sum = (w.expr s e).valueTy e ∧
    (∀ q, ((w.expr s e).valueTy e).Describes q → Compound.add.keeps q = true →
      ∀ p, ∀ r ∈ Compound.add.results p q, ((w.expr s e).valueTy e).Describes r) ∧
    ∀ q, q ≠ .unset → (w.expr s e).valueTy e = q.ty → Compound.add.keeps q = false →
      ∃ p, ∃ r ∈ Compound.add.results p q, ¬ ((w.expr s e).valueTy e).Describes r := by
  intro w s e
  have placed : Placed 0 10 [.expr sum] :=
    placed_of_end? (show Node.end? 20 0 _ = some 10 by decide)
  have ended : 10 ≤ w.offset := Nat.le_refl 10
  refine ⟨placed, rfl, ended, by decide, ?_⟩
  exact expr_compound w .add placed rfl ended

end Walk

namespace Reflector
open ReflectorBy

/-! ### A string with a number behind it -/

def concatenated : String := "<?php $s='a';$s.=1;"

def concatenatedStatements : List Stmt := [
  .markup ⟨0, 5⟩,
  .expression ⟨6, 13⟩ (.assign ⟨6, 12⟩ "=" (.var ⟨6, 8⟩ "s") (.literal ⟨9, 12⟩ .string)),
  .expression ⟨13, 19⟩ (.assign ⟨13, 18⟩ ".=" (.var ⟨13, 15⟩ "s") (.literal ⟨17, 18⟩ .integer))]

set_option maxRecDepth 100000 in
theorem reading_concatenated : Reading.of concatenated =
    { text := concatenated.toList, program := { statements := concatenatedStatements } } := by
  cbv

/-- The variable holds a string, and is recorded as an integer. -/
theorem expr_compound_concatenated :
    (Reading.of concatenated).program.statements = concatenatedStatements ∧
    Compound.concat.results .string .int = [.string] ∧
    ((({} : Reflector).resolutionAt concatenated 19).run {}).1.map (·.locals.get? "s") =
      .ok (some (.scalar "int")) ∧
    ¬ (Ty.scalar "int").Describes .string := by
  rw [resolutionAt, Scope.at, reading_concatenated]
  refine ⟨rfl, rfl, ?_, ?_⟩
  · cbv
  · intro right
    cases right.eq (q := .int) (by decide)

end Reflector
end PhpSymbols
