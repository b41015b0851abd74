import PhpSymbols.Markdown.Renderer

/-!
# What the parts of a template write

The templates of this program are made of texts, fields, conditions and lists. What these write is
all that is asked of an engine here.

* `Writes`: what nodes make of a value, with one rule for each sort of node;
* `Writes.append`, `Writes.when_`, `Writes.forEach`: templates are put together from parts;
* `Template.LawfulEngine`: an engine renders nodes by these rules;
* `renderAll_of_writes`: so does the renderer of this program, in whatever blocks the nodes stand.
-/

namespace PhpSymbols.Markdown
open Template

/-- The value has a field `name`, with `v` in it. -/
def Holds (data : Value) (name : String) (v : Value) : Prop :=
  ∃ fields, data = .record fields ∧ fields.lookup name = some v

theorem holds_of_lookup {data v : Value} {name : String} {fields : List (String × Value)}
    (current : data = .record fields) (found : fields.lookup name = some v) : Holds data name v :=
  ⟨fields, current, found⟩

/-- With `data` as the current value, the nodes render, to a text. -/
inductive Writes : (data : Value) → List Node → String → Prop
  | nil {data : Value} : Writes data [] ""
  | text {data : Value} {s t : String} {ns : List Node} (rest : Writes data ns t) :
      Writes data (.text s :: ns) (s ++ t)
  /-- A name that means a helper stands for no field. -/
  | field {data v : Value} {name t : String} {ns : List Node}
      (plain : Helper.ofName name = .unknown name) (holds : Holds data name v)
      (rest : Writes data ns t) : Writes data (field name :: ns) (v.print ++ t)
  | branch {data v : Value} {name s t : String} {body otherwise ns : List Node}
      (holds : Holds data name v) (taken : Writes data (if v.isTruthy then body else otherwise) s)
      (rest : Writes data ns t) : Writes data (when_ name body otherwise :: ns) (s ++ t)
  /-- Each entry of a list is the current value in its own round. -/
  | each {data : Value} {name t : String} {entries : List (Value × String)}
      {body ns : List Node} (holds : Holds data name (.list (entries.map (·.1))))
      (rounds : ∀ e ∈ entries, Writes e.1 body e.2) (rest : Writes data ns t) :
      Writes data (forEach name body :: ns) (String.join (entries.map (·.2)) ++ t)

namespace Writes
variable {data v : Value} {name s t : String} {ns ms : List Node}

theorem append (first : Writes data ns s) (rest : Writes data ms t) :
    Writes data (ns ++ ms) (s ++ t) := by
  induction first with
  | nil => rwa [String.empty_append]
  | text _ ih =>
    rw [String.append_assoc]
    exact .text (ih rest)
  | field plain holds _ ih =>
    rw [String.append_assoc]
    exact .field plain holds (ih rest)
  | branch holds taken _ _ ih =>
    rw [String.append_assoc]
    exact .branch holds taken (ih rest)
  | each holds rounds _ _ ih =>
    rw [String.append_assoc]
    exact .each holds rounds (ih rest)

theorem when_ {body otherwise : List Node} {b o : String} (holds : Holds data name v)
    (isBody : Writes data body b) (isOtherwise : Writes data otherwise o)
    (rest : Writes data ns t) :
    Writes data (when_ name body otherwise :: ns) ((if v.isTruthy then b else o) ++ t) := by
  refine .branch holds ?_ rest
  split
  · exact isBody
  · exact isOtherwise

theorem forEach {α : Type} {view : α → Value} {text : α → String} {body : List Node}
    {xs : List α} (holds : Holds data name (.list (xs.map view)))
    (entry : ∀ x ∈ xs, Writes (view x) body (text x)) (rest : Writes data ns t) :
    Writes data (forEach name body :: ns) (String.join (xs.map text) ++ t) := by
  have views : (xs.map fun x => (view x, text x)).map (·.1) = xs.map view := by simp
  have texts : (xs.map fun x => (view x, text x)).map (·.2) = xs.map text := by simp
  rw [← texts]
  exact .each (by rwa [views]) (List.forall_mem_map.2 entry) rest

end Writes

end PhpSymbols.Markdown

namespace PhpSymbols
open Template Markdown

/-- An engine writes what the parts of a template are there for. -/
class Template.LawfulEngine [Engine] : Prop where
  render_of_writes {t : Template} {data : Value} {s : String} :
    Writes data t.nodes s → Engine.render t data = .ok s

/-! ### The renderer of this program -/

namespace Markdown
variable {c : Context} {name s t : String} {ns : List Node}

theorem get_of_holds {v : Value} (holds : Holds (c.currentAt 0) name v) :
    c.get (fieldOf name) = .ok v := by
  obtain ⟨fields, current, found⟩ := holds
  have find : c.find? (fieldOf name) = .ok (some v) := by
    change (c.currentAt 0).descend [name] = .ok (some v)
    rw [current]
    simp only [Value.descend, Value.child?, found]
    rfl
  rw [Context.get, find]
  rfl

theorem renderAll_cons {n : Node} (first : n.render c = .ok s) (rest : renderAll c ns = .ok t) :
    renderAll c (n :: ns) = .ok (s ++ t) := by
  rw [renderAll, first, rest]
  rfl

/-- The rounds of a loop, from round `i` on. -/
theorem mapM_rounds {entries : List (Value × String)} {body : List Node}
    (each : ∀ e ∈ entries, ∀ {c : Context}, c.currentAt 0 = e.1 → renderAll c body = .ok e.2)
    (count i : Nat) :
    (roundsFrom count i (entries.map fun e => (none, e.1))).mapM
      (fun f => renderAll (c.enter f) body) = .ok (entries.map (·.2)) := by
  induction entries generalizing i with
  | nil => rfl
  | cons e entries ih =>
    have first {locals : List (String × Value)} :
        renderAll (c.enter ⟨e.1, locals⟩) body = .ok e.2 := each e List.mem_cons_self rfl
    rw [List.map_cons, roundsFrom, List.mapM_cons, first,
      ih (fun e mem => each e (List.mem_cons_of_mem _ mem)) (i + 1)]
    rfl

theorem renderAll_of_writes {data : Value} (writes : Writes data ns s)
    (current : c.currentAt 0 = data) : renderAll c ns = .ok s := by
  induction writes generalizing c with
  | nil => rfl
  | text _ ih => exact renderAll_cons rfl (ih current)
  | @field _ v name _ _ plain holds _ ih =>
    refine renderAll_cons ?_ (ih current)
    have got : c.get { segments := [name] } = .ok v := get_of_holds (current ▸ holds)
    rw [field, fieldOf, Node.render, plain, got]
    rfl
  | @branch _ v name _ _ body otherwise _ holds _ _ taken ih =>
    refine renderAll_cons ?_ (ih current)
    change (do
      if (← c.get (fieldOf name)).isTruthy then renderAll c body else renderAll c otherwise :
      Except RenderFault String) = _
    rw [get_of_holds (current ▸ holds), ← taken current]
    change (if v.isTruthy then renderAll c body else renderAll c otherwise) = _
    split <;> rfl
  | @each _ name _ entries body _ holds _ _ each ih =>
    refine renderAll_cons ?_ (ih current)
    have got : c.get (fieldOf name) = .ok (.list (entries.map (·.1))) :=
      get_of_holds (current ▸ holds)
    rw [forEach, Node.render, show (Call.mk "each" [fieldOf name]).helper = .each from rfl]
    simp only [Context.argument, got]
    have run := mapM_rounds (c := c) each (entries.map (·.1)).length 0
    cases entries with
    | nil => rfl
    | cons e entries =>
      change (do
        return String.join (← (roundsFrom _ 0 (((e :: entries).map (·.1)).map
          fun v => (none, v))).mapM fun f => renderAll (c.enter f) body) :
        Except RenderFault String) = _
      rw [List.map_map]
      exact congrArg (· >>= fun texts => pure (String.join texts)) run

end Markdown

instance Template.lawfulEngine : LawfulEngine where
  render_of_writes writes := renderAll_of_writes writes rfl

end PhpSymbols
