import PhpSymbols.Proofs.Reflect.Parses

/-!
# Histories of a session

* `Edit`: what happens to the sources of a locator from outside;
* `Request`: what a session is asked, or an edit in between; `ReflectorBy.answers` gives the
  answers to a list of requests, one after another;
* `ReflectorBy.Reads`: the declarations of these texts are asked for, for the requests
  (`exists_reads`: there always are such texts);
* `Request.scanned`: the text that is scanned for an offset, which is another reading of it.
-/

namespace PhpSymbols

/-- A change to the sources of a locator. -/
inductive Edit where
  | setSource (source : String)
  | insert (name source : String)
  | clear
  | write (path : Path) (content : Content)
  | remove (path : Path)
  | addDirectory (path : Path)

/-- Sources are set and cleared in a temporary locator, and files change under a directory
locator; an edit of the other kind of locator is none. -/
def Edit.apply [Php.Frontend] : Edit → Locator → Locator
  | .setSource source, .temporary l => .temporary (l.setSource source)
  | .insert name source, .temporary l => .temporary (l.insert name source)
  | .clear, .temporary l => .temporary l.clear
  | .write path content, .directory l => .directory { l with tree := l.tree.write path content }
  | .remove path, .directory l => .directory { l with tree := l.tree.remove path }
  | .addDirectory path, .directory l => .directory { l with tree := l.tree.addDirectory path }
  | _, l => l

inductive Request where
  | classesIn (source : String)
  | functionsIn (source : String)
  | resolutionAt (source : String) (offset : Nat)
  | classNamed (name : String)
  | functionNamed (name : String)
  /-- The source of `name`, from the locator at index `i`. -/
  | locate (i : Nat) (name : String)
  /-- An edit of the locator at index `i`. -/
  | edit (i : Nat) (e : Edit)

/-- The text that is scanned for a request: that of an offset, if the offset is one of the text. -/
def Request.scanned : Request → List String
  | .resolutionAt source offset => if Text.isOffset offset source.toList then [source] else []
  | .classesIn _ | .functionsIn _ | .classNamed _ | .functionNamed _ | .locate .. | .edit .. => []

inductive Answer where
  | classLikes (found : Collection ClassLike)
  | functions (found : Collection Function)
  | resolution (found : Except ReflectError Resolution)
  | classLike (found : Except ReflectError ClassLike)
  | function (found : Except ReflectError Function)
  | source (found : Except ReflectError String)
  | edited

namespace ReflectorBy
variable [Php.Frontend] [Walker] {κ : Type} {key : String → κ} [DecidableEq κ]
  (r : ReflectorBy key)

def answer : Request → ReflectBy key Answer
  | .classesIn source => return .classLikes (← r.classesIn source)
  | .functionsIn source => return .functions (← r.functionsIn source)
  | .resolutionAt source offset => return .resolution (← r.resolutionAt source offset)
  | .classNamed name => return .classLike (← r.classNamed name)
  | .functionNamed name => return .function (← r.functionNamed name)
  | .locate i name => return .source (← Session.locate i name)
  | .edit i e => do
    modify fun s => { s with locators := s.locators.modify i e.apply }
    return .edited

/-- The answers to requests, one after another in one session. -/
def answers (requests : List Request) : ReflectBy key (List Answer) :=
  requests.mapM r.answer

theorem run_answers_cons (request : Request) (requests : List Request) (s : SessionBy key) :
    (r.answers (request :: requests)).run s =
      let (first, s') := (r.answer request).run s
      let (rest, s'') := (r.answers requests).run s'
      (first :: rest, s'') := by
  rw [answers, List.mapM_cons]
  rfl

theorem run_answers_append (requests later : List Request) (s : SessionBy key) :
    (r.answers (requests ++ later)).run s =
      let (first, s') := (r.answers requests).run s
      let (second, s'') := (r.answers later).run s'
      (first ++ second, s'') := by
  rw [answers, List.mapM_append]
  rfl

/-- The texts whose declarations are asked for, for requests to a session, in this order. -/
inductive Reads (r : ReflectorBy key) :
    (requests : List Request) → SessionBy key → (texts : List String) → Prop where
  | nil (s : SessionBy key) : Reads r [] s []
  | question {request : Request} {requests : List Request} {s : SessionBy key}
      {ts us : List String} : r.Parses (r.answer request) s ts →
      Reads r requests ((r.answer request).run s).2 us → Reads r (request :: requests) s (ts ++ us)
  | edit {i : Nat} {e : Edit} {requests : List Request} {s : SessionBy key} {ts : List String} :
      Reads r requests { s with locators := s.locators.modify i e.apply } ts →
      Reads r (.edit i e :: requests) s ts

theorem exists_reads (requests : List Request) (s : SessionBy key) :
    ∃ texts, r.Reads requests s texts := by
  induction requests generalizing s with
  | nil => exact ⟨[], .nil s⟩
  | cons request requests ih =>
    have question (traced : r.Traced (r.answer request : ReflectBy key Answer)) :
        ∃ texts, r.Reads (request :: requests) s texts := by
      obtain ⟨ts, parsed⟩ := traced s
      obtain ⟨us, read⟩ := ih ((r.answer request).run s).2
      exact ⟨ts ++ us, .question parsed read⟩
    cases request with
    | edit i e =>
      obtain ⟨ts, read⟩ := ih { s with locators := s.locators.modify i e.apply }
      exact ⟨ts, .edit read⟩
    | classesIn source => exact question (.bind (.classesIn source) fun _ => .pure _)
    | functionsIn source => exact question (.bind (.functionsIn source) fun _ => .pure _)
    | resolutionAt source offset =>
      exact question (.bind (.resolutionAt source offset) fun _ => .pure _)
    | classNamed name => exact question (.bind (.classNamed name) fun _ => .pure _)
    | functionNamed name => exact question (.bind (.functionNamed name) fun _ => .pure _)
    | locate i name => exact question (.bind (.locate i name) fun _ => .pure _)

variable {r} in
theorem Reads.cacheSize_le {requests : List Request} {s : SessionBy key} {texts : List String}
    (h : r.Reads requests s texts) : s.cacheSize ≤ ((r.answers requests).run s).2.cacheSize := by
  induction h with
  | nil => exact Nat.le_refl _
  | question parsed _ ih =>
    rw [run_answers_cons]
    exact Nat.le_trans parsed.cacheSize_le ih
  | edit _ ih =>
    rw [run_answers_cons]
    exact ih

end ReflectorBy
end PhpSymbols
