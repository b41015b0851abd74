import PhpSymbols.Proofs.Markdown.Page

/-!
# Which template shows an item

* `TemplateSource.offer?`: what a source offers for a variant, before anything is compiled;
* `LastTemplate`: the template that the last source with an offer for a variant has for it;
* `Chooses`, `Shows`: the template chosen for a variant, and what comes of showing a view with it;
* `build_selects`: a renderer is built unless one of the offers is no template, and it shows every
  item by the template chosen among all offers.
-/

namespace PhpSymbols
open Template

section
variable {ε α β : Type} {f : α → Except ε β}

theorem forall₂_of_mapM_eq_ok {as : List α} {bs : List β} (ok : as.mapM f = .ok bs) :
    List.Forall₂ (fun a b => f a = .ok b) as bs := by
  induction as generalizing bs with
  | nil =>
    cases ok
    exact .nil
  | cons a as ih =>
    rw [List.mapM_cons] at ok
    cases here : f a with
    | error e => simp [bind, Except.bind, here] at ok
    | ok b =>
      cases rest : as.mapM f with
      | error e => simp [bind, Except.bind, here, rest] at ok
      | ok behind =>
        simp only [bind, Except.bind, pure, Except.pure, here, rest, Except.ok.injEq] at ok
        subst ok
        exact .cons here (ih rest)

theorem mapM_fails_iff {as : List α} :
    (∃ e, as.mapM f = .error e) ↔ ∃ a ∈ as, ∃ e, f a = .error e := by
  induction as with
  | nil => simp [pure, Except.pure]
  | cons a as ih =>
    rw [List.mapM_cons]
    cases here : f a with
    | error e => simp [bind, Except.bind, here]
    | ok b =>
      simp only [List.mem_cons, exists_eq_or_imp, here, reduceCtorEq, exists_false, false_or, ← ih]
      cases as.mapM f <;> simp [bind, Except.bind, pure, Except.pure]

end

/-! ### What the sources offer -/

/-- A template as a source has it: ready for use, as text to be compiled, or in a file without
text. -/
inductive Offer where
  | ready (t : Template)
  | written (text : String)
  | unreadable
  deriving Inhabited

/-- The template that an offer is for. -/
def Offer.template? [Engine] : Offer → Option Template
  | ready t => some t
  | written text => (Engine.compile text).toOption
  | unreadable => none

def Content.offer : Content → Offer
  | text s => .written s
  | binary => .unreadable

namespace TemplateSource
open Renderer

/-- What a source offers for items of a variant: a directory has a file for each of the variants
that it offers a template for. -/
def offer? (source : TemplateSource) (v : Variant) : Option Offer :=
  match source with
  | bundled => (Markdown.bundled.lookup v).map .ready
  | inline w text => if v = w then some (.written text) else none
  | directory _ tree path => (tree.read? (path ++ [fileName v])).map Content.offer

variable {source : TemplateSource} {written text : String} {tree : FileTree} {path : Path}
  {v w : Variant} {provided : List (Variant × Template)}

theorem compileFor_cases [Engine] (v : Variant) (text : String) :
    (∃ t, (Offer.written text).template? = some t ∧ compileFor v text = .ok (v, t)) ∨
    ∃ e, (Offer.written text).template? = none ∧ compileFor v text = .error e := by
  unfold compileFor Offer.template?
  cases compiled : Engine.compile text <;> simp [compiled, Except.toOption]

theorem fromDirectory_cases [Engine] (written : String) (tree : FileTree) (path : Path)
    (v : Variant) :
    (directory written tree path).offer? v = none ∧
      fromDirectory written tree path v = .ok none ∨
    ∃ o, (directory written tree path).offer? v = some o ∧
      ((∃ t, o.template? = some t ∧ fromDirectory written tree path v = .ok (some (v, t))) ∨
        ∃ e, o.template? = none ∧ fromDirectory written tree path v = .error e) := by
  unfold fromDirectory offer?
  dsimp only
  cases tree.read? (path ++ [fileName v]) with
  | none => exact .inl ⟨rfl, rfl⟩
  | some content =>
    refine .inr ⟨content.offer, rfl, ?_⟩
    cases content with
    | binary => exact .inr ⟨_, rfl, rfl⟩
    | text s =>
      rcases compileFor_cases v s with ⟨t, is, compiled⟩ | ⟨e, is, fails⟩
      · exact .inl ⟨t, is, by simp [compiled]⟩
      · exact .inr ⟨e, is, by simp [fails]⟩

/-- The files of a directory are looked for one variant at a time, and each is found under its
own. -/
theorem lookup_filterMap_fromDirectory [Engine] {vs : List Variant}
    {found : List (Option (Variant × Template))}
    (each : List.Forall₂ (fun v x => fromDirectory written tree path v = .ok x) vs found)
    (v : Variant) : (found.filterMap id).lookup v =
      if v ∈ vs then ((directory written tree path).offer? v).bind Offer.template? else none := by
  induction each with
  | nil => rfl
  | @cons w x vs found here _ ih =>
    rcases fromDirectory_cases written tree path w with
      ⟨absent, is⟩ | ⟨o, offered, ⟨t, compiled, is⟩ | ⟨e, -, is⟩⟩
    · obtain rfl : none = x := Except.ok.inj (is.symm.trans here)
      rw [List.filterMap_cons_none rfl, ih]
      by_cases same : v = w
      · simp [same, absent]
      · simp [same]
    · obtain rfl : some (w, t) = x := Except.ok.inj (is.symm.trans here)
      rw [List.filterMap_cons_some (f := id) rfl]
      by_cases same : v = w
      · simp [same, offered, compiled]
      · have other : (v == w) = false := by simpa using same
        simp only [List.lookup_cons, other, ih]
        simp [same]
    · simp [is] at here

/-- A source fails exactly if something that it offers is no template. -/
theorem templates_fails_iff [Engine] :
    (∃ e, source.templates = .error e) ↔ ∃ v o, source.offer? v = some o ∧ o.template? = none := by
  cases source with
  | bundled =>
    simp only [templates, offer?, reduceCtorEq, exists_false, false_iff]
    rintro ⟨v, o, offered, none⟩
    obtain ⟨t, -, rfl⟩ := Option.map_eq_some_iff.1 offered
    cases none
  | inline w text =>
    have own : (∃ v o, (inline w text).offer? v = some o ∧ o.template? = none) ↔
        (Offer.written text).template? = none := by simp [offer?]
    rw [own, templates]
    rcases compileFor_cases w text with ⟨t, is, compiled⟩ | ⟨e, is, fails⟩
    · simp [is, compiled]
    · simp [is, fails]
  | directory written tree path =>
    have fails : (∃ e, Variant.all.mapM (fromDirectory written tree path) = .error e) ↔ _ :=
      mapM_fails_iff
    have each (v : Variant) : (∃ e, fromDirectory written tree path v = .error e) ↔
        ∃ o, (directory written tree path).offer? v = some o ∧ o.template? = none := by
      rcases fromDirectory_cases written tree path v with
        ⟨absent, is⟩ | ⟨o, offered, ⟨t, compiled, is⟩ | ⟨e, none, is⟩⟩
      · simp [absent, is]
      · simp [offered, compiled, is]
      · simp [offered, none, is]
    simp only [each, Variant.mem_all, true_and] at fails
    rw [← fails, templates]
    cases Variant.all.mapM (fromDirectory written tree path) <;>
      simp [bind, Except.bind, pure, Except.pure]

theorem lookup_templates [Engine] (ok : source.templates = .ok provided) (v : Variant) :
    provided.lookup v = (source.offer? v).bind Offer.template? := by
  cases source with
  | bundled =>
    obtain rfl := Except.ok.inj ok
    cases offered : Markdown.bundled.lookup v <;> simp [offer?, offered, Offer.template?]
  | inline w text =>
    rcases compileFor_cases w text with ⟨t, is, compiled⟩ | ⟨e, is, fails⟩
    · simp only [templates, compiled, Except.map_ok, Except.ok.injEq] at ok
      subst ok
      by_cases same : v = w
      · simp [offer?, same, is]
      · have other : (v == w) = false := by simpa using same
        simp [offer?, same, List.lookup_cons, other]
    · simp [templates, fails] at ok
  | directory written tree path =>
    cases all : Variant.all.mapM (fromDirectory written tree path) with
    | error e => simp [templates, all, bind, Except.bind] at ok
    | ok found =>
      simp only [templates, all, bind, Except.bind, pure, Except.pure, Except.ok.injEq] at ok
      subst ok
      simpa [Variant.mem_all] using
        lookup_filterMap_fromDirectory (forall₂_of_mapM_eq_ok all) v

end TemplateSource

/-! ### The template chosen among all offers -/

/-- The template for `v` is the one that the last source with an offer for `v` has for it. -/
inductive LastTemplate [Engine] (v : Variant) : List TemplateSource → Template → Prop
  | last {source : TemplateSource} {behind : List TemplateSource} {o : Offer} {t : Template}
      (offered : source.offer? v = some o) (is : o.template? = some t)
      (none : ∀ later ∈ behind, later.offer? v = none) : LastTemplate v (source :: behind) t
  | behind {source : TemplateSource} {behind : List TemplateSource} {t : Template}
      (among : LastTemplate v behind t) : LastTemplate v (source :: behind) t

/-- Whether the template for interfaces can stand in for the one for `v`. -/
def StandsIn (sources : List TemplateSource) (usesCandidates : Bool) (v : Variant) : Prop :=
  (v = .class_ ∨ v = .trait_ ∨ v = .enum_) ∧ usesCandidates = true ∧
    ∃ source ∈ sources, ∃ o, source.offer? .interface_ = some o

/-- What is chosen for items of variant `v`: their own template, else the one for interfaces where
it can stand in, else nothing. -/
inductive Chooses [Engine] (sources : List TemplateSource) (usesCandidates : Bool) (v : Variant) :
    Except RenderError (Variant × Template) → Prop
  | own {t : Template} (last : LastTemplate v sources t) :
      Chooses sources usesCandidates v (.ok (v, t))
  | candidate {t : Template} (none : ∀ source ∈ sources, source.offer? v = none)
      (standsIn : StandsIn sources usesCandidates v) (last : LastTemplate .interface_ sources t) :
      Chooses sources usesCandidates v (.ok (.interface_, t))
  | missing (none : ∀ source ∈ sources, source.offer? v = none)
      (without : ¬ StandsIn sources usesCandidates v) :
      Chooses sources usesCandidates v (.error (.noTemplate v))

/-- What showing a view as an item of variant `v` comes to. -/
def Shows [Engine] (sources : List TemplateSource) (usesCandidates : Bool) (v : Variant)
    (view : Template.Value) (shown : Except RenderError String) : Prop :=
  ∃ choice, Chooses sources usesCandidates v choice ∧
    shown = choice.bind fun (w, t) => (Engine.render t view).mapError (.failed w)

namespace Renderer
open Markdown

variable {sources : List TemplateSource} {usesCandidates : Bool} {r : Renderer} {v : Variant}

/-- With the sources in reverse order, the first template found is the last one offered. -/
theorem lookup_provided [Engine] {provided : List (List (Variant × Template))}
    (each : List.Forall₂ (fun source ts => source.templates = .ok ts) sources provided) :
    (∀ t, provided.reverse.flatten.lookup v = some t ↔ LastTemplate v sources t) ∧
      (provided.reverse.flatten.lookup v = none ↔
        ∀ source ∈ sources, source.offer? v = none) := by
  induction each with
  | nil => exact ⟨fun t => ⟨nofun, nofun⟩, by simp⟩
  | @cons source ts sources provided ok _ ih =>
    obtain ⟨found, missed⟩ := ih
    have here := TemplateSource.lookup_templates ok v
    have compiles (o : Offer) (offered : source.offer? v = some o) : o.template? ≠ none := by
      intro none
      obtain ⟨e, fails⟩ := TemplateSource.templates_fails_iff.2 ⟨v, o, offered, none⟩
      simp [ok] at fails
    simp only [List.reverse_cons, List.flatten_append, List.flatten_singleton, List.lookup_append,
      List.forall_mem_cons, here, ← missed]
    cases later : provided.reverse.flatten.lookup v with
    | some t =>
      refine ⟨fun t' => ⟨fun is => .behind ((found t').1 (later.trans is)), fun is => ?_⟩, by simp⟩
      cases is with
      | last _ _ none => simp [missed.2 none] at later
      | behind among => exact later.symm.trans ((found t').2 among)
    | none =>
      have nothing := missed.1 later
      refine ⟨fun t' => ⟨fun is => ?_, fun is => ?_⟩, ?_⟩
      · obtain ⟨o, offered, is⟩ := Option.bind_eq_some_iff.1 is
        exact .last offered is nothing
      · cases is with
        | last offered is _ => simp [offered, is]
        | behind among => simp [(found t').2 among] at later
      · cases offered : source.offer? v with
        | none => simp
        | some o => simp [compiles o offered]

/-- What a renderer finds for a variant, and whether it finds anything. -/
theorem template?_eq_iff [Engine] (built : build sources usesCandidates = .ok r) (v : Variant) :
    (∀ t, r.template? v = some t ↔ LastTemplate v sources t) ∧
      (r.template? v = none ↔ ∀ source ∈ sources, source.offer? v = none) ∧
      r.usesCandidates = usesCandidates := by
  unfold build at built
  cases all : sources.mapM TemplateSource.templates with
  | error e => simp [all, bind, Except.bind] at built
  | ok provided =>
    simp only [all, bind, Except.bind, pure, Except.pure, Except.ok.injEq] at built
    subst built
    obtain ⟨found, missed⟩ := lookup_provided (v := v) (forall₂_of_mapM_eq_ok all)
    exact ⟨found, missed, rfl⟩

theorem candidate?_eq_some_iff {v w : Variant} :
    v.candidate? = some w ↔ (v = .class_ ∨ v = .trait_ ∨ v = .enum_) ∧ w = .interface_ := by
  cases v <;> simp [Variant.candidate?, eq_comm]

theorem choose_of_missing (missing : r.template? v = none)
    (without : ∀ w, v.candidate? = some w → r.usesCandidates = true → r.template? w = none) :
    r.choose v = .error (.noTemplate v) := by
  unfold choose
  simp only [missing]
  by_cases candidates : r.usesCandidates = true
  · cases candidate : v.candidate? with
    | none => simp [candidates]
    | some w => simp [candidates, without w candidate candidates]
  · simp [candidates]

theorem choose_eq_iff [Engine] (built : build sources usesCandidates = .ok r)
    {choice : Except RenderError (Variant × Template)} :
    r.choose v = choice ↔ Chooses sources usesCandidates v choice := by
  obtain ⟨found, missed, same⟩ := template?_eq_iff built v
  obtain ⟨foundIn, missedIn, -⟩ := template?_eq_iff built .interface_
  have chooses {t : Template} (own : r.template? v = none)
      (standsIn : StandsIn sources usesCandidates v) (other : r.template? .interface_ = some t) :
      r.choose v = .ok (.interface_, t) := by
    obtain ⟨kind, candidates, -⟩ := standsIn
    exact choose_of_candidate own (same.trans candidates)
      (candidate?_eq_some_iff.2 ⟨kind, rfl⟩) other
  have fails (own : r.template? v = none) (without : ¬ StandsIn sources usesCandidates v) :
      r.choose v = .error (.noTemplate v) := by
    apply choose_of_missing own
    intro w candidate candidates
    obtain ⟨kind, rfl⟩ := candidate?_eq_some_iff.1 candidate
    refine missedIn.2 fun source mem => Option.eq_none_iff_forall_not_mem.2 fun o offered => ?_
    exact without ⟨kind, same.symm.trans candidates, source, mem, o, offered⟩
  constructor
  · rintro rfl
    cases own : r.template? v with
    | some t =>
      rw [choose_of_template own]
      exact .own ((found t).1 own)
    | none =>
      by_cases standsIn : StandsIn sources usesCandidates v
      · cases other : r.template? .interface_ with
        | none =>
          obtain ⟨-, -, source, mem, o, offered⟩ := standsIn
          simp [missedIn.1 other source mem] at offered
        | some t =>
          rw [chooses own standsIn other]
          exact .candidate (missed.1 own) standsIn ((foundIn t).1 other)
      · rw [fails own standsIn]
        exact .missing (missed.1 own) standsIn
  · intro chosen
    cases chosen with
    | own last => exact choose_of_template ((found _).2 last)
    | candidate none standsIn last => exact chooses (missed.2 none) standsIn ((foundIn _).2 last)
    | missing none without => exact fails (missed.2 none) without

theorem show_eq_iff [Engine] (built : build sources usesCandidates = .ok r) {view : Template.Value}
    {shown : Except RenderError String} :
    r.show_ v view = shown ↔ Shows sources usesCandidates v view shown := by
  have is : r.show_ v view =
      (r.choose v).bind fun (w, t) => (Engine.render t view).mapError (.failed w) := by
    unfold show_
    cases r.choose v with
    | error e => rfl
    | ok chosen =>
      simp only [bind, Except.bind]
      cases Engine.render chosen.2 view <;> rfl
  rw [is, eq_comm]
  simp only [Shows, ← choose_eq_iff built, exists_eq_left']

/-- A renderer is built unless something that one of the sources offers is no template, whatever
the others offer in its place. It shows each item by the template chosen for it among all offers. A
hover box shows its symbol so, which may fail, and the box around it by the template for
those. -/
theorem build_selects [Engine] (sources : List TemplateSource) (usesCandidates : Bool) :
    ((∃ e, build sources usesCandidates = .error e) ↔
      ∃ source ∈ sources, ∃ v o, source.offer? v = some o ∧ o.template? = none) ∧
    ∀ r, build sources usesCandidates = .ok r →
      (∀ s shown, r.symbol s = shown ↔
        Shows sources usesCandidates s.variant (symbolView s) shown) ∧
      (∀ t shown, r.type_ t = shown ↔ Shows sources usesCandidates .type_ (typeView t) shown) ∧
      (∀ x shown, r.resolution x = shown ↔
        Shows sources usesCandidates .resolution (resolutionView x) shown) ∧
      ∀ h shown, r.hover h = shown ↔
        ∃ inner, Shows sources usesCandidates h.symbol.variant (symbolView h.symbol) inner ∧
          match inner with
          | .error e => shown = .error e
          | .ok text => Shows sources usesCandidates .hover (hoverView h text) shown := by
  refine ⟨?fails, fun r built => ⟨fun s shown => show_eq_iff built,
    fun t shown => show_eq_iff built, fun x shown => show_eq_iff built, fun h shown => ?hover⟩⟩
  case fails =>
    have fails : (∃ e, sources.mapM TemplateSource.templates = .error e) ↔ _ := mapM_fails_iff
    simp only [TemplateSource.templates_fails_iff] at fails
    rw [← fails, build]
    cases sources.mapM TemplateSource.templates <;> simp [bind, Except.bind, pure, Except.pure]
  case hover =>
    simp only [← show_eq_iff built, exists_eq_left']
    unfold hover symbol
    cases r.show_ h.symbol.variant (symbolView h.symbol) with
    | error e => simp [bind, Except.bind, eq_comm]
    | ok text => rfl

/-- A text that is no template counts although another takes its place. An enum without a template
is shown by the last one for interfaces. -/
theorem build_selects_interface :
    (∃ e, build [.inline .enum_ "\x7b\x7b#if", .inline .enum_ "E"] false = .error e) ∧
    ∃ r, build [.bundled, .inline .interface_ "I"] true = .ok r ∧
      r.symbol (.classLike { kind := .enumDecl, name := "E" }) = .ok "I" := by
  have selects := (build_selects [.bundled, .inline .interface_ "I"] true).2 _ rfl
  have last : LastTemplate .interface_ [.bundled, .inline .interface_ "I"] ⟨[.text "I"]⟩ :=
    .behind (.last rfl rfl nofun)
  have none (source : TemplateSource) (mem : source ∈ [.bundled, .inline .interface_ "I"]) :
      source.offer? .enum_ = none := by
    simp only [List.mem_cons, List.not_mem_nil, or_false] at mem
    rcases mem with rfl | rfl <;> rfl
  have standsIn : StandsIn [.bundled, .inline .interface_ "I"] true .enum_ :=
    ⟨.inr (.inr rfl), rfl, _, List.mem_cons_self, _, rfl⟩
  refine ⟨?fails, _, rfl, (selects.1 _ _).2 ⟨_, .candidate none standsIn last, rfl⟩⟩
  case fails => exact (build_selects _ false).1.2 ⟨_, List.mem_cons_self, .enum_, _, rfl, rfl⟩

end Renderer
end PhpSymbols
