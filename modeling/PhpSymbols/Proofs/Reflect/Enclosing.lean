import PhpSymbols.Proofs.Reflect.Innermost
import PhpSymbols.Proofs.Reflect.Lookup

/-!
# Enclosing symbols

* `enclosing_isSome`: in the innermost declaration around a place there is an enclosing
  symbol exactly if the source lists a declaration that is known in the same way;
* `Reader.Reflects`: functions and methods that a source lists, with their symbols;
* `enclosing_reflects`: in the body of one of these its own symbol is the enclosing one, and
  the parameters in scope are those of the symbol;
* a function that is listed again has the symbol of the first.
-/

namespace PhpSymbols
open Php

theorem Declared.isKnownAs_of_declares {w : Walk} {d : Declared} {key : Enclosing}
    (declared : w.declares d.space (.stmt d.stmt) = some key) : d.IsKnownAs key := by
  cases d with
  | classLike ns d =>
    obtain ⟨_, same, -, rfl⟩ | ⟨_, other, -⟩ := Walk.declares_eq_some declared
    · cases same
      rcases d.enclosing_cases w.offset with known | ⟨_, _, _, _, _, _, -, known⟩
      · rw [known]
        rfl
      · rw [known]
        rfl
    · cases other
  | function ns d =>
    obtain ⟨_, other, -⟩ | ⟨_, same, -, rfl⟩ := Walk.declares_eq_some declared
    · cases other
    · cases same
      exact ⟨rfl, rfl⟩

theorem Declared.exists_declares {w : Walk} {d : Declared}
    (inside : d.stmt.span.encloses w.offset = true) :
    ∃ key, w.declares d.space (.stmt d.stmt) = some key := by
  cases d with
  | classLike => exact ⟨_, if_pos inside⟩
  | function => exact ⟨_, if_pos inside⟩

namespace Walk
variable {w : Walk} {lo hi : Nat}

theorem declares_function {ns : Option String} {d : FunctionDecl}
    (placed : Placed lo hi [.stmt (.function d)])
    (inside : d.body.span.insideBraces w.offset = true) :
    w.declares ns (.stmt (.function d)) = some (.function ns d.name) := by
  have around := (inside_of_functionLike .function inside).at.encloses placed
  exact if_pos around

theorem declares_method {ns : Option String} {d : ClassDecl} {span : Span} {ms : List Modifier}
    {name : String} {ps : List Param} {hint : Option Span} {b : Body} (arranged : d.Arranged)
    (placed : Placed lo hi [.stmt (.classLike d)])
    (member : .method span ms name ps hint (some b) ∈ d.members)
    (inside : b.span.insideBraces w.offset = true) :
    w.declares ns (.stmt (.classLike d)) = some (.method d.braces.start name) := by
  have around := (inside_of_functionLike (.method member) inside).at.encloses placed
  have found := find?_of_insideBraces arranged member inside
  refine (if_pos around).trans (congrArg some ?_)
  obtain ⟨_, _, _, _, _, _, _, members⟩ := d
  rw [ClassDecl.members] at found
  rw [ClassDecl.enclosing, found]
  rfl

end Walk

namespace Reflector
open ReflectorBy
variable (r : Reflector) {session : Session} (source : String) (offset : Nat) {lo hi : Nat}

/-- At a place of a source there is an answer. If the innermost declaration around the place
is one that the source lists, there is an enclosing symbol. Whatever this declaration is, there
is one exactly if the source lists a declaration that is known in the same way. -/
theorem enclosing_isSome [Frontend] [Walker] (place : Text.isOffset offset source.toList = true)
    (placed : Placed lo hi ((Reading.of source).program.statements.map .stmt))
    (arranged : Arranged ((Reading.of source).program.statements.map .stmt))
    (faithful : session.Faithful r.resolver) :
    let w := r.walk source offset
    let all := (Reading.of source).program.statements
    ∃ found, ((r.resolutionAt source offset).run session).1 = .ok found ∧
      (∀ d ∈ (r.reader source).listed, d.stmt.span.encloses w.offset = true →
        w.Innermost (.stmt d.stmt) → found.enclosing.isSome = true) ∧
      ∀ s ∈ all, ∀ n, Node.Within n (.stmt s) → w.Inside n → w.Innermost n →
        ∀ key, w.declares (w.space none all all) n = some key →
          (found.enclosing.isSome = true ↔ ∃ d ∈ (r.reader source).listed, d.IsKnownAs key) := by
  intro w all
  refine ⟨_, r.run_resolutionAt session source place, ?_, ?_⟩
  · intro d listed inside inner
    obtain ⟨key, declared⟩ := Declared.exists_declares (w := w) inside
    obtain ⟨s, member, lists⟩ := Node.lists_of_mem all none listed
    have scan : (Scope.at r.resolver source offset).enclosing = some key :=
      Walk.enclosing_of_listed (w := w) listed placed arranged declared inner
    rw [scan, r.isSome_symbolOf_iff faithful source placed arranged member lists.within declared]
    exact ⟨d, listed, Declared.isKnownAs_of_declares declared⟩
  · intro s member n stands inside inner key declared
    have scan : (Scope.at r.resolver source offset).enclosing = some key :=
      Walk.enclosing_of_within (w := w) member stands placed arranged inside declared inner
    rw [scan]
    exact r.isSome_symbolOf_iff faithful source placed arranged member stands declared

/-! ### A function in both branches of a condition -/

def polyfill : String := "<?php if(1){function f($b){}}else{function f(){}}"

def polyfillFirst : FunctionDecl :=
  .mk ⟨12, 28⟩ "f" [.mk [] none false false "$b" none false] none (.mk ⟨26, 28⟩ [])

def polyfillSecond : FunctionDecl := .mk ⟨34, 48⟩ "f" [] none (.mk ⟨46, 48⟩ [])

def polyfillStatements : List Stmt := [
  .markup ⟨0, 5⟩,
  .ifElse ⟨6, 49⟩ (.literal ⟨9, 10⟩ .integer) [.block ⟨11, 29⟩ [.function polyfillFirst]] []
    [.block ⟨33, 49⟩ [.function polyfillSecond]]]

set_option maxRecDepth 100000 in
theorem reading_polyfill : Reading.of polyfill =
    { text := polyfill.toList, program := { statements := polyfillStatements } } := by
  cbv

theorem placed_polyfill : Placed 0 49 ((Reading.of polyfill).program.statements.map .stmt) := by
  rw [reading_polyfill]
  exact placed_of_end? (show Node.end? 9 0 _ = some 49 by decide)

theorem arranged_polyfill : Arranged ((Reading.of polyfill).program.statements.map .stmt) := by
  rw [reading_polyfill]
  exact arranged_of_areArranged (show Node.areArranged 9 _ = true by decide)

theorem listed_polyfill : (({} : Reflector).reader polyfill).listed =
    [] ++ .function none polyfillFirst :: [.function none polyfillSecond] := by
  rw [reader, Reader.listed, reading_polyfill]
  rfl

theorem walk_polyfill (offset : Nat) : (({} : Reflector).walk polyfill offset).offset =
    ({ text := polyfill.toList, program := {} } : Reading).shifted offset := by
  rw [walk, reading_polyfill]
  rfl

theorem innermost_function (w : Walk) (span braces : Span) (name : String) (ps : List Param)
    (hint : Option Span) :
    w.Innermost (.stmt (.function (.mk span name ps hint (.mk braces [])))) := by
  intro k part n stands space
  obtain rfl := List.mem_singleton.1 part
  cases stands with
  | here => rfl
  | part part => cases part

theorem faithful_empty [Frontend] (resolver : Resolver) : ({} : Session).Faithful resolver := by
  intro known cached
  cases cached

theorem enclosing_isSome_polyfill :
    Text.isOffset 27 polyfill.toList = true ∧
    Placed 0 49 ((Reading.of polyfill).program.statements.map .stmt) ∧
    Arranged ((Reading.of polyfill).program.statements.map .stmt) ∧
    ({} : Session).Faithful ({} : Reflector).resolver ∧
    ∃ found, ((({} : Reflector).resolutionAt polyfill 27).run {}).1 = .ok found ∧
      found.enclosing.isSome = true ∧
      (found.enclosing.isSome = true ↔
        ∃ d ∈ (({} : Reflector).reader polyfill).listed, d.IsKnownAs (.function none "f")) := by
  have place : Text.isOffset 27 polyfill.toList = true := by decide
  have faithful := faithful_empty ({} : Reflector).resolver
  have listed : .function none polyfillFirst ∈ (({} : Reflector).reader polyfill).listed := by
    simp [listed_polyfill]
  have inside : polyfillFirst.body.span.insideBraces
      (({} : Reflector).walk polyfill 27).offset = true := by
    rw [walk_polyfill]
    decide
  have inner : (({} : Reflector).walk polyfill 27).Innermost (.stmt (.function polyfillFirst)) :=
    innermost_function _ _ _ _ _ _
  have space : ∀ w : Walk, w.space none (Reading.of polyfill).program.statements
      (Reading.of polyfill).program.statements = none := by
    intro w
    simp [reading_polyfill, polyfillStatements, Walk.space]
  obtain ⟨s, member, lists⟩ := Node.lists_of_mem _ none listed
  have node := lists.within.placed (placed_polyfill.of_mem (List.mem_map_of_mem member))
  have strictly := Walk.inside_of_functionLike .function inside
  obtain ⟨found, ok, isSome, iff⟩ := enclosing_isSome {} polyfill 27 place placed_polyfill
    arranged_polyfill faithful
  refine ⟨place, placed_polyfill, arranged_polyfill, faithful, found, ok, ?_, ?_⟩
  · exact isSome _ listed (strictly.at.encloses node) inner
  · apply iff s member _ lists.within strictly inner
    rw [space]
    exact Walk.declares_function node inside

/-! ### A function in the body of a loop -/

def looped : String := "<?php while(1){function f($x){}}"

def loopedFunction : FunctionDecl :=
  .mk ⟨15, 31⟩ "f" [.mk [] none false false "$x" none false] none (.mk ⟨29, 31⟩ [])

def loopedStatements : List Stmt := [
  .markup ⟨0, 5⟩,
  .whileLoop ⟨6, 32⟩ (.literal ⟨12, 13⟩ .integer) [.block ⟨14, 32⟩ [.function loopedFunction]]]

set_option maxRecDepth 100000 in
theorem reading_looped : Reading.of looped =
    { text := looped.toList, program := { statements := loopedStatements } } := by
  cbv

/-- The scan goes into the loop and finds the function there, with its parameter, but the
source does not list it. -/
theorem enclosing_isSome_looped :
    (Reading.of looped).program.statements = loopedStatements ∧
    loopedFunction.body.span.insideBraces ((Reading.of looped).shifted 30) = true ∧
    ((({} : Reflector).resolutionAt looped 30).run {}).1.map
      (fun found => (found.enclosing, found.locals.names)) = .ok (none, ["x"]) := by
  have place : Text.isOffset 30 looped.toList = true := by decide
  have scan : (Scope.at ({} : Reflector).resolver looped 30).enclosing =
      some (.function none "f") := by
    rw [Scope.at, reading_looped]
    cbv
  have names : (Scope.at ({} : Reflector).resolver looped 30).locals.names = ["x"] := by
    rw [Scope.at, reading_looped]
    cbv
  have unlisted : (({} : Reflector).reader looped).declarations.functions = [] := by
    rw [reader, Reader.functions_eq, Reader.listed, reading_looped]
    rfl
  refine ⟨by rw [reading_looped], by rw [reading_looped]; decide, ?_⟩
  rw [run_resolutionAt {} {} looped place, scan, symbolOf_function {} (faithful_empty _), unlisted,
    Except.map, names]
  rfl

end Reflector

/-! ### Functions and methods that a source lists -/

/-- The names of the parameters of a function or method. -/
def Symbol.parameterNames : Symbol → List String
  | .function f => f.parameters.map (·.name)
  | .method m => m.parameters.map (·.name)
  | .classLike _ | .property _ | .constant _ => []

/-- The first function of a name and namespace, or a method that the source lists: the
declaration in which it stands, what it binds at its start besides its parameters, its body,
and its symbol. -/
inductive Reader.Reflects (r : Reader) : Node → List String → Body → Symbol → Prop where
  | function {before after : List Declared} {ns : Option String} {d : FunctionDecl} :
      r.listed = before ++ .function ns d :: after →
      (∀ c ∈ before, ¬ c.IsKnownAs (.function ns d.name)) →
      Reflects r (.stmt (.function d)) [] d.body (.function (r.function ns d))
  | method {ns : Option String} {d : ClassDecl} {span : Span} {ms : List Modifier}
      {name : String} {ps : List Param} {hint : Option Span} {b : Body} :
      .classLike ns d ∈ r.listed → .method span ms name ps hint (some b) ∈ d.members →
      r.method d.name span ms name ps hint ∈ (r.classLike ns d).symbol.methods.toList →
      Reflects r (.stmt (.classLike d)) (if ms.contains .static then [] else ["this"]) b
        (.method (r.method d.name span ms name ps hint))

theorem Reader.Reflects.functionLike {r : Reader} {n : Node} {this : List String} {b : Body}
    {symbol : Symbol} (h : r.Reflects n this b symbol) :
    FunctionLike n (this ++ symbol.parameterNames) b := by
  cases h with
  | @function _ _ ns d =>
    have names : (r.function ns d).parameters.map (·.name) = d.parameters.map Param.local_ := by
      cases d
      exact Walk.names_parameters r _ _
    rw [Symbol.parameterNames, names]
    exact .function
  | @method _ _ span _ _ ps _ _ _ member =>
    rw [Symbol.parameterNames, Reader.method, Walk.names_parameters]
    exact .method member

namespace Reflector
variable (r : Reflector) {session : Session} (source : String) (offset : Nat) {lo hi : Nat}

theorem symbolOf_first [Frontend] [Walker] (faithful : session.Faithful r.resolver)
    {before after : List Declared} {ns : Option String} {d : FunctionDecl}
    (split : (r.reader source).listed = before ++ .function ns d :: after)
    (first : ∀ c ∈ before, ¬ c.IsKnownAs (.function ns d.name)) :
    r.symbolOf source session (some (.function ns d.name)) =
      some (.function ((r.reader source).function ns d)) := by
  rw [r.symbolOf_function faithful, (r.reader source).find?_function split first]
  rfl

section
variable [Frontend] (placed : Placed lo hi ((Reading.of source).program.statements.map .stmt))
  (arranged : Arranged ((Reading.of source).program.statements.map .stmt))
include placed arranged

/-- In the body of a listed function, and in no declaration inside it, the scan knows the
declaration by its name and namespace. -/
theorem enclosing_function {ns : Option String} {d : FunctionDecl}
    (listed : .function ns d ∈ (r.reader source).listed)
    (inside : d.body.span.insideBraces (r.walk source offset).offset = true)
    (inner : (r.walk source offset).Innermost (.stmt (.function d))) :
    (Scope.at r.resolver source offset).enclosing = some (.function ns d.name) := by
  obtain ⟨s, member, lists⟩ := Node.lists_of_mem _ none listed
  have place := lists.within.placed (placed.of_mem (List.mem_map_of_mem member))
  exact Walk.enclosing_of_listed (w := r.walk source offset) listed placed arranged
    (Walk.declares_function place inside) inner

theorem symbolOf_reflects [Walker] (faithful : session.Faithful r.resolver) {n : Node}
    {this : List String} {b : Body} {symbol : Symbol}
    (reflects : (r.reader source).Reflects n this b symbol)
    (inside : b.span.insideBraces (r.walk source offset).offset = true)
    (inner : (r.walk source offset).Innermost n) :
    r.symbolOf source session (Scope.at r.resolver source offset).enclosing = some symbol := by
  cases reflects with
  | @function before after ns d split first =>
    have listed : .function ns d ∈ (r.reader source).listed := by
      rw [split]
      simp
    rw [r.enclosing_function source offset placed arranged listed inside inner]
    exact r.symbolOf_first source faithful split first
  | @method ns d span ms name ps hint b listed method kept =>
    obtain ⟨s, member, lists⟩ := Node.lists_of_mem _ none listed
    have part : .stmt s ∈ (Reading.of source).program.statements.map Node.stmt :=
      List.mem_map_of_mem member
    have place := lists.within.placed (placed.of_mem part)
    have here : d.Arranged := (arranged.of_within part lists.within).1
    have scan : (Scope.at r.resolver source offset).enclosing =
        some (.method d.braces.start name) :=
      Walk.enclosing_of_listed (w := r.walk source offset) listed placed arranged
        (Walk.declares_method here place method inside) inner
    rw [scan]
    exact r.symbolOf_kept faithful source placed arranged listed kept rfl

theorem names_reflects {n : Node} {this : List String} {b : Body} {symbol : Symbol}
    (reflects : (r.reader source).Reflects n this b symbol)
    (inside : b.span.insideBraces (r.walk source offset).offset = true) (x : String) :
    x ∈ (Scope.at r.resolver source offset).locals.names ↔
      x ∈ this ++ symbol.parameterNames ∧ (r.walk source offset).Passes [.body b] ∨
        (r.walk source offset).IntroducesIn x [.body b] := by
  rw [r.names_resolutionAt offset placed]
  obtain ⟨d, listed, rfl⟩ : ∃ d ∈ (r.reader source).listed, n = .stmt d.stmt := by
    cases reflects with
    | @function before after ns d split first =>
      refine ⟨.function ns d, ?_, rfl⟩
      rw [split]
      simp
    | method listed => exact ⟨_, listed, rfl⟩
  obtain ⟨s, member, lists⟩ := Node.lists_of_mem _ none listed
  exact Walk.introducesIn_of_functionLike placed arranged member lists.within
    reflects.functionLike inside

end

/-- At a place in the body of a function or method that the source lists, and in no declaration
inside it, the enclosing symbol is that of the function or method; the names in scope are its
parameters, unless another scope starts inside, and what its body introduces. In the body of a
function that is listed again the symbol is that of the first of the same name and
namespace. -/
theorem enclosing_reflects [Frontend] [Walker] (place : Text.isOffset offset source.toList = true)
    (placed : Placed lo hi ((Reading.of source).program.statements.map .stmt))
    (arranged : Arranged ((Reading.of source).program.statements.map .stmt))
    (faithful : session.Faithful r.resolver) :
    let w := r.walk source offset
    ∃ found, ((r.resolutionAt source offset).run session).1 = .ok found ∧
      (∀ n this b symbol, (r.reader source).Reflects n this b symbol →
        b.span.insideBraces w.offset = true → w.Innermost n →
        found.enclosing = some symbol ∧
          ∀ x, x ∈ found.locals.names ↔
            x ∈ this ++ symbol.parameterNames ∧ w.Passes [.body b] ∨ w.IntroducesIn x [.body b]) ∧
      ∀ before ns d after again, (r.reader source).listed = before ++ .function ns d :: after →
        (∀ c ∈ before, ¬ c.IsKnownAs (.function ns d.name)) →
        .function ns again ∈ (r.reader source).listed → again.name = d.name →
        again.body.span.insideBraces w.offset = true → w.Innermost (.stmt (.function again)) →
        found.enclosing = some (.function ((r.reader source).function ns d)) := by
  intro w
  refine ⟨_, r.run_resolutionAt session source place, ?_, ?_⟩
  · intro n this b symbol reflects inside inner
    exact ⟨r.symbolOf_reflects source offset placed arranged faithful reflects inside inner,
      r.names_reflects source offset placed arranged reflects inside⟩
  · intro before ns d after again split first listed same inside inner
    rw [r.enclosing_function source offset placed arranged listed inside inner, same]
    exact r.symbolOf_first source faithful split first

theorem enclosing_reflects_polyfill :
    let r : Reflector := {}
    let w := r.walk polyfill 27
    let symbol : Symbol := .function ((r.reader polyfill).function none polyfillFirst)
    Text.isOffset 27 polyfill.toList = true ∧ Text.isOffset 47 polyfill.toList = true ∧
    Placed 0 49 ((Reading.of polyfill).program.statements.map .stmt) ∧
    Arranged ((Reading.of polyfill).program.statements.map .stmt) ∧
    ({} : Session).Faithful r.resolver ∧
    (∃ found, ((r.resolutionAt polyfill 27).run {}).1 = .ok found ∧
      found.enclosing = some symbol ∧
      ∀ x, x ∈ found.locals.names ↔
        x ∈ ["b"] ∧ w.Passes [.body polyfillFirst.body] ∨
          w.IntroducesIn x [.body polyfillFirst.body]) ∧
    ∃ found, ((r.resolutionAt polyfill 47).run {}).1 = .ok found ∧
      found.enclosing = some symbol := by
  intro r w symbol
  have first_place : Text.isOffset 27 polyfill.toList = true := by decide
  have second_place : Text.isOffset 47 polyfill.toList = true := by decide
  have faithful := faithful_empty r.resolver
  have alone : ∀ c ∈ ([] : List Declared), ¬ c.IsKnownAs (.function none polyfillFirst.name) := by
    intro c member
    cases member
  have reflects : (r.reader polyfill).Reflects (.stmt (.function polyfillFirst)) []
      polyfillFirst.body symbol := .function listed_polyfill alone
  have first_inside : polyfillFirst.body.span.insideBraces w.offset = true := by
    rw [walk_polyfill]
    decide
  have again : .function none polyfillSecond ∈ (r.reader polyfill).listed := by
    simp [r, listed_polyfill]
  have second_inside : polyfillSecond.body.span.insideBraces (r.walk polyfill 47).offset =
      true := by
    rw [walk_polyfill]
    decide
  obtain ⟨first, first_ok, reflected, -⟩ := enclosing_reflects r polyfill 27 first_place
    placed_polyfill arranged_polyfill faithful
  obtain ⟨second, second_ok, -, repeated⟩ := enclosing_reflects r polyfill 47 second_place
    placed_polyfill arranged_polyfill faithful
  refine ⟨first_place, second_place, placed_polyfill, arranged_polyfill, faithful,
    ⟨first, first_ok, ?_⟩, second, second_ok, ?_⟩
  · exact reflected _ _ _ _ reflects first_inside (innermost_function _ _ _ _ _ _)
  · exact repeated _ _ _ _ _ listed_polyfill alone again rfl second_inside
      (innermost_function _ _ _ _ _ _)

/-- In the body of the second function the symbol is that of the first, though the parameter of
the first is not in scope there. -/
theorem enclosing_reflects_again :
    .function none polyfillSecond ∈ (({} : Reflector).reader polyfill).listed ∧
    polyfillSecond.body.span.insideBraces ((Reading.of polyfill).shifted 47) = true ∧
    ((({} : Reflector).resolutionAt polyfill 47).run {}).1.map
      (fun found => (found.enclosing.map Symbol.parameterNames, found.locals.names)) =
        .ok (some ["b"], []) := by
  have place : Text.isOffset 47 polyfill.toList = true := by decide
  have scan : (Scope.at ({} : Reflector).resolver polyfill 47).enclosing =
      some (.function none "f") := by
    rw [Scope.at, reading_polyfill]
    cbv
  have names : (Scope.at ({} : Reflector).resolver polyfill 47).locals.names = [] := by
    rw [Scope.at, reading_polyfill]
    cbv
  have first : ({} : Reflector).symbolOf polyfill {} (some (.function none "f")) =
      some (.function ((({} : Reflector).reader polyfill).function none polyfillFirst)) :=
    symbolOf_first {} polyfill (faithful_empty _) listed_polyfill (by simp)
  refine ⟨by simp [listed_polyfill], by rw [reading_polyfill]; decide, ?_⟩
  rw [run_resolutionAt {} {} polyfill place, scan, first, Except.map, names]
  rfl

end Reflector
end PhpSymbols
