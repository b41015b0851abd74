import PhpSymbols.Proofs.Text.LineBreaks
import PhpSymbols.Proofs.Ty.Printing
import PhpSymbols.Symbol.Signature

/-!
# The lines of signatures

* `Symbol.copied`: the texts that a signature takes over as they are written;
* `Symbol.IsInline`: a signature is broken where these texts are, and nowhere else;
* `IsInline.isOneLine_iff`: so it stands on one line exactly if they do;
* `Symbol.IsTakenFrom`: and the texts that break it stand in a source;
* `isOneLine_text`: types are written on one line;
* `Function.isInline`, `Method.isInline`, `Property.isInline`, `Constant.isInline`,
  `ClassLike.isInline`: so signatures are inline if the names in them stand on one line.
-/

namespace PhpSymbols
open Text

/-! ### Texts of a signature -/

/-- What is taken over of a parameter: its default value, and for a documented parameter its
name. -/
def Parameter.copied (isVirtual : Bool) (p : Parameter) : List String :=
  (if isVirtual then [p.name] else []) ++ p.initial.toList

namespace Symbol

/-- Class-likes and functions are never virtual. -/
def isVirtual : Symbol → Bool
  | .classLike _ | .function _ => false
  | .method m => m.isVirtual
  | .property p => p.isVirtual
  | .constant c => c.isVirtual

/-- The texts that a signature takes over as they are written: default values and the values of
constants. -/
def copied : Symbol → List String
  | .classLike _ => []
  | .function f => f.parameters.flatMap (·.copied false)
  | .method m => m.parameters.flatMap (·.copied m.isVirtual)
  | .property p => p.initial.toList
  | .constant c => [c.value]

/-- The line breaks of the signature are those of the texts that it takes over. -/
def IsInline (x : Symbol) : Prop := lineBreaks x.signature = x.copied.flatMap lineBreaks

theorem IsInline.isOneLine_iff {x : Symbol} (isInline : x.IsInline) :
    IsOneLine x.signature ↔ ∀ text ∈ x.copied, IsOneLine text := by
  rw [IsOneLine, isInline, List.flatMap_eq_nil_iff]
  rfl

/-- The signature is inline, and what breaks it is a stretch of `s`. -/
structure IsTakenFrom (s : List Char) (x : Symbol) : Prop where
  isInline : x.IsInline
  stretches : ∀ text ∈ x.copied, IsOneLine text ∨ text.toList <:+: s

end Symbol

/-! ### Types -/

theorem Ty.isOneLine_text {t : Ty} (known : t.Known IsClassPath) : IsOneLine t.text := by
  apply isOneLine_of_visible
  rw [text, String.toList_ofList]
  exact fun c mem => not_isBlank_of_isWritten ((printed_chars known).written c mem)

/-! ### Parts of a signature -/

namespace Signature

/-- None of the words and signs of a signature breaks the line. -/
theorem lineBreaks_literals :
    (lineBreaks "function " = [] ∧ lineBreaks "final " = [] ∧ lineBreaks "abstract " = [] ∧
      lineBreaks "static " = [] ∧ lineBreaks "readonly " = [] ∧ lineBreaks " const " = [] ∧
      lineBreaks "extends" = [] ∧ lineBreaks "implements" = []) ∧
    lineBreaks "&" = [] ∧ lineBreaks "..." = [] ∧ lineBreaks "$" = [] ∧ lineBreaks " = " = [] ∧
      lineBreaks "(" = [] ∧ lineBreaks ")" = [] ∧ lineBreaks " " = [] ∧ lineBreaks ": " = [] := by
  decide

theorem lineBreaks_only (condition : Bool) (text : String) :
    lineBreaks (only condition text) = if condition then lineBreaks text else [] := by
  cases condition <;> rfl

theorem lineBreaks_initialised (initial : Option String) :
    lineBreaks (initialised initial) = initial.toList.flatMap lineBreaks := by
  cases initial <;> simp [initialised, lineBreaks_literals]

theorem lineBreaks_commas (texts : List String) :
    lineBreaks (", ".intercalate texts) = texts.flatMap lineBreaks :=
  lineBreaks_intercalate (by decide) texts

theorem lineBreaks_listed {keyword : String} (single : lineBreaks keyword = [])
    {names : List Supertype} (named : ∀ s ∈ names, IsOneLine s.name) :
    lineBreaks (listed keyword names) = [] := by
  have none : (names.map (·.name)).flatMap lineBreaks = [] := by
    simpa [IsOneLine] using named
  simp [listed, lineBreaks_only, lineBreaks_literals, lineBreaks_commas, single, none]

variable {t : Ty} (canonical : t.Canonical Ty.IsClassPath)
include canonical

theorem lineBreaks_typed : lineBreaks (typed t) = [] := by
  rcases canonical with rfl | known
  · rfl
  · have single : lineBreaks t.text = [] := Ty.isOneLine_text known
    simp [typed, lineBreaks_only, lineBreaks_literals, single]

theorem lineBreaks_returning : lineBreaks (returning t) = [] := by
  rcases canonical with rfl | known
  · rfl
  · have single : lineBreaks t.text = [] := Ty.isOneLine_text known
    simp [returning, lineBreaks_only, lineBreaks_literals, single]

end Signature

/-! ### Signatures -/

open Signature

theorem Visibility.lineBreaks_word (v : Visibility) : lineBreaks v.word = [] := by
  cases v <;> rfl

theorem ClassKind.lineBreaks_word (k : ClassKind) : lineBreaks k.word = [] := by
  cases k <;> rfl

/-- A parameter that may stand in a signature: its type can be written, and its name stands on one
line or is taken over. -/
structure Parameter.IsShown (isVirtual : Bool) (p : Parameter) : Prop where
  typed : p.ty.Canonical Ty.IsClassPath
  named : isVirtual = false → IsOneLine p.name

theorem Parameter.lineBreaks_signature {isVirtual : Bool} {p : Parameter}
    (shown : p.IsShown isVirtual) :
    lineBreaks p.signature = (p.copied isVirtual).flatMap lineBreaks := by
  have name : lineBreaks p.name = (if isVirtual then [p.name] else []).flatMap lineBreaks := by
    cases isVirtual
    · exact shown.named rfl
    · simp
  rw [copied, List.flatMap_append, ← name]
  simp [signature, lineBreaks_only, lineBreaks_literals, lineBreaks_typed shown.typed,
    lineBreaks_initialised]

theorem lineBreaks_parameters {isVirtual : Bool} {ps : List Parameter}
    (shown : ∀ p ∈ ps, p.IsShown isVirtual) :
    lineBreaks (Signature.parameters ps) =
      (ps.flatMap (·.copied isVirtual)).flatMap lineBreaks := by
  have each : (ps.map (·.signature)).flatMap lineBreaks =
      (ps.flatMap (·.copied isVirtual)).flatMap lineBreaks := by
    rw [List.flatMap_map, List.flatMap_assoc]
    exact List.flatMap_congr fun p mem => Parameter.lineBreaks_signature (shown p mem)
  rw [Signature.parameters, lineBreaks_append, lineBreaks_append, lineBreaks_commas, each]
  simp [lineBreaks_literals]

theorem Function.isInline {f : Function} (named : IsOneLine f.name)
    (shown : ∀ p ∈ f.parameters, p.IsShown false)
    (returns : f.returnType.Canonical Ty.IsClassPath) : (Symbol.function f).IsInline := by
  change lineBreaks f.name = [] at named
  change lineBreaks f.signature = (f.parameters.flatMap (·.copied false)).flatMap lineBreaks
  simp only [signature, lineBreaks_append, lineBreaks_literals, named, lineBreaks_parameters shown,
    lineBreaks_returning returns, List.nil_append, List.append_nil]

theorem Method.isInline {m : Method} (named : IsOneLine m.name)
    (shown : ∀ p ∈ m.parameters, p.IsShown m.isVirtual)
    (returns : m.returnType.Canonical Ty.IsClassPath) : (Symbol.method m).IsInline := by
  change lineBreaks m.name = [] at named
  change lineBreaks m.signature = (m.parameters.flatMap (·.copied m.isVirtual)).flatMap lineBreaks
  simp only [signature, lineBreaks_append, lineBreaks_only, lineBreaks_literals, named,
    Visibility.lineBreaks_word, lineBreaks_parameters shown, lineBreaks_returning returns, ite_self,
    List.nil_append, List.append_nil]

theorem Property.isInline {p : Property} (named : IsOneLine p.name)
    (typed : p.ty.Canonical Ty.IsClassPath) : (Symbol.property p).IsInline := by
  change lineBreaks p.name = [] at named
  change lineBreaks p.signature = p.initial.toList.flatMap lineBreaks
  simp only [signature, lineBreaks_append, lineBreaks_only, lineBreaks_literals, named,
    Visibility.lineBreaks_word, lineBreaks_typed typed, lineBreaks_initialised, ite_self,
    List.nil_append]

theorem Constant.isInline {c : Constant} (named : IsOneLine c.name) :
    (Symbol.constant c).IsInline := by
  change lineBreaks c.name = [] at named
  change lineBreaks c.signature = [c.value].flatMap lineBreaks
  simp [signature, lineBreaks_literals, named, Visibility.lineBreaks_word]

theorem ClassLike.isInline {c : ClassLike} (named : IsOneLine c.name)
    (parents : ∀ s ∈ c.parents, IsOneLine s.name)
    (interfaces : ∀ s ∈ c.interfaces, IsOneLine s.name) : (Symbol.classLike c).IsInline := by
  change lineBreaks c.name = [] at named
  change lineBreaks c.signature = []
  simp [signature, lineBreaks_only, lineBreaks_literals, named, ClassKind.lineBreaks_word,
    lineBreaks_listed _ parents, lineBreaks_listed _ interfaces]

end PhpSymbols
