import PhpSymbols.Proofs.Reflect.Offset
import PhpSymbols.Reflect.Session

/-!
# Answers at places of a source

* `run_resolutionAt`: at a place of a source there always is an answer, with the variables
  and the enclosing declaration that the scan finds;
* `names_resolutionAt`: the variables are those that the walk towards the place introduces.
-/

namespace PhpSymbols
open Php

namespace ReflectorBy
variable {κ : Type} {key : String → κ} (r : ReflectorBy key)

/-- The walk through a source towards a place of it. -/
def walk [Frontend] (source : String) (offset : Nat) : Walk :=
  ⟨⟨.of source, r.resolver⟩, (Reading.of source).shifted offset⟩

/-- The symbol of the declaration that a scan finds around an offset. -/
def symbolOf [Frontend] [Walker] [DecidableEq κ] (source : String) (session : SessionBy key) :
    Option Enclosing → Option Symbol
  | none => none
  | some enclosing => ((r.enclosingSymbol source enclosing).run session).1

end ReflectorBy

namespace Reflector

theorem run_resolutionAt [Frontend] [Walker] (r : Reflector) (session : Session) (source : String)
    {offset : Nat} (place : Text.isOffset offset source.toList = true) :
    ((r.resolutionAt source offset).run session).1 =
      .ok ⟨r.symbolOf source session (Scope.at r.resolver source offset).enclosing,
        (Scope.at r.resolver source offset).locals⟩ := by
  rw [ReflectorBy.resolutionAt, if_pos place]
  dsimp only
  cases (Scope.at r.resolver source offset).enclosing <;> rfl

theorem names_resolutionAt [Frontend] (r : Reflector) {source : String} (offset : Nat) {lo hi : Nat}
    (placed : Placed lo hi ((Reading.of source).program.statements.map .stmt)) (x : String) :
    x ∈ (Scope.at r.resolver source offset).locals.names ↔
      (r.walk source offset).IntroducesIn x (r.walk source offset).home :=
  Walk.names_scopeAmong none (List.nil_append _).symm placed

end Reflector
end PhpSymbols
