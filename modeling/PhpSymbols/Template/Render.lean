import PhpSymbols.Template.Basic
import PhpSymbols.Template.Value

/-!
Rendering. Loops and `with` blocks make a value the current one; a reference may leave such blocks
again, up to the data as a whole. Conditions leave the current value alone.
-/

namespace PhpSymbols.Template

/-- A value that a block made the current one. -/
structure Frame where
  current : Value
  /-- What a loop tells about its round. -/
  locals : List (String × Value) := []
  deriving Repr, Inhabited

/-- The whole data and the frames of the blocks around, the innermost first. -/
structure Context where
  root : Value
  frames : List Frame := []
  deriving Repr, Inhabited

namespace Context

/-- The values that the blocks made current, the innermost first, and the whole data. -/
def currents (c : Context) : List Value := c.frames.map (·.current) ++ [c.root]

/-- The current value as seen from `up` blocks further out. What leaves more blocks than there are
stays in the innermost. -/
def currentAt (c : Context) (up : Nat) : Value := (c.currents[up]?.or c.currents.head?).getD c.root

/-- What a reference finds, if it leads anywhere. -/
def find? (c : Context) (r : Reference) : Except RenderFault (Option Value) :=
  if r.isLocal then
    match r.segments with
    | [] => .ok none
    | name :: steps =>
      match (c.frames[r.up]?).bind (·.locals.lookup name) with
      | some v => v.descend steps
      | none => .ok none
  else (c.currentAt r.up).descend r.segments

/-- What a reference finds, or null. -/
def get (c : Context) (r : Reference) : Except RenderFault Value := do
  return (← c.find? r).getD .null

def enter (c : Context) (f : Frame) : Context := { c with frames := f :: c.frames }

/-- The first argument of a call. -/
def argument (c : Context) (call : Call) : Except RenderFault Value :=
  match call.arguments with
  | [] => .error (.missingArgument call.name)
  | r :: _ => c.get r

end Context

/-- The frames of the rounds of a loop: `items` with their keys, from round `i` of `count` on. -/
def roundsFrom (count : Nat) (i : Nat) : List (Option String × Value) → List Frame
  | [] => []
  | (key, v) :: rest =>
    { current := v
      locals := [
        ("index", .number i), ("first", .bool (i == 0)), ("last", .bool (i + 1 == count))] ++
        (key.map fun k => ("key", Value.text k)).toList } :: roundsFrom count (i + 1) rest

/-- The rounds of a loop over a value. A record is walked in the order of its field names. -/
def rounds : Value → List Frame
  | .list vs => roundsFrom vs.length 0 (vs.map fun v => (none, v))
  | .record fields =>
    let sorted := fields.mergeSort fun a b => decide (a.1 ≤ b.1)
    roundsFrom sorted.length 0 (sorted.map fun (k, v) => (some k, v))
  | .null | .bool _ | .number _ | .text _ => []

mutual

def Node.render (c : Context) : Node → Except RenderFault String
  | .text s => .ok s
  | .value r =>
    match r with
    | ⟨0, false, [name]⟩ =>
      match Helper.ofName name with
      | .unknown _ => return (← c.get r).print
      | _ => .error (.missingArgument name)
    | _ => return (← c.get r).print
  | .call call =>
    match call.helper with
    | .unknown name => .error (.unknownHelper name)
    | _ => do
      let _ ← c.argument call
      return ""
  | .block call body otherwise =>
    match call.helper with
    | .ifTrue => do
      if (← c.argument call).isTruthy then renderAll c body else renderAll c otherwise
    | .unlessTrue => do
      if (← c.argument call).isTruthy then renderAll c otherwise else renderAll c body
    | .within => do
      let v ← c.argument call
      if v.isTruthy then renderAll (c.enter ⟨v, []⟩) body else renderAll c otherwise
    | .each => do
      match rounds (← c.argument call) with
      | [] => renderAll c otherwise
      | frames => return String.join (← frames.mapM fun f => renderAll (c.enter f) body)
    | .unknown name => .error (.unknownHelper name)

def renderAll (c : Context) : List Node → Except RenderFault String
  | [] => .ok ""
  | n :: ns => return (← n.render c) ++ (← renderAll c ns)

end

end PhpSymbols.Template

namespace PhpSymbols

/-- Renders a template against its data. -/
def Template.render (t : Template) (data : Template.Value) : Except Template.RenderFault String :=
  Template.renderAll ⟨data, []⟩ t.nodes

/-- What compiles templates and renders them. -/
class Template.Engine where
  compile : String → Except CompileFault Template
  render : Template → Value → Except RenderFault String

/-- Unless something else is said, templates are read and rendered as above. -/
instance Template.engine : Engine := ⟨compile, render⟩

end PhpSymbols
