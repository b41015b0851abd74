import PhpSymbols.Proofs.Reflect.Faithful
import PhpSymbols.Proofs.Reflect.Isolation
import PhpSymbols.Proofs.Reflect.Listing
import PhpSymbols.Proofs.Reflect.Merge

/-!
# Looking declarations up

A scan only says how the declaration around an offset is known; its symbol is looked up
among those that the source lists.

* `Declared.IsKnownAs`: what it means that a declaration is known in one way or another;
* `eq_of_braces`: the bodies of no two class-likes open at the same byte;
* `find?_function`, `listed_of_find?`, `exists_methods`: what is found of each kind;
* `symbolOf_kept`: a method that a source lists is found;
* `isSome_symbolOf_iff`: there is a symbol exactly if the source lists a declaration that
  is known in this way.
-/

namespace PhpSymbols
open Php

/-! ### How declarations are known -/

/-- A class-like is known by where its body opens, and so are its methods; a function is
known by its name and namespace. -/
def Declared.IsKnownAs : Declared → Enclosing → Prop
  | .classLike _ d, .classLike start => d.braces.start = start
  | .classLike _ d, .method start _ => d.braces.start = start
  | .function ns d, .function space name => d.name = name ∧ ns = space
  | .classLike .., .function .. | .function .., .classLike _ | .function .., .method .. => False

theorem Php.ClassDecl.enclosing_cases (d : ClassDecl) (offset : Nat) :
    d.enclosing offset = .classLike d.braces.start ∨
      ∃ span ms name ps hint b, .method span ms name ps hint b ∈ d.members ∧
        d.enclosing offset = .method d.braces.start name := by
  obtain ⟨_, _, _, _, _, _, braces, members⟩ := d
  rw [enclosing]
  split
  · rename_i span ms name ps hint b found
    exact .inr ⟨span, ms, name, ps, hint, b, List.mem_of_find?_eq_some found, rfl⟩
  · exact .inl rfl

namespace Walk
variable {w : Walk} {lo hi : Nat}

theorem eq_of_mem_at {m n : Node} {ns : List Node} (placed : Placed lo hi ns) (first : m ∈ ns)
    (second : n ∈ ns) (m_at : w.At m) (n_at : w.At n) : m = n := by
  induction ns generalizing lo with
  | nil => cases first
  | cons k ns ih =>
    obtain ⟨mid, head, rest⟩ := placed.of_cons
    rcases List.mem_cons.1 first with m_first | m_later
    · rcases List.mem_cons.1 second with n_first | n_later
      · exact m_first.trans n_first.symm
      · have := m_at _ _ (m_first ▸ head)
        have := n_at _ _ (rest.of_mem n_later)
        omega
    · rcases List.mem_cons.1 second with n_first | n_later
      · have := n_at _ _ (n_first ▸ head)
        have := m_at _ _ (rest.of_mem m_later)
        omega
      · exact ih rest m_later n_later

theorem at_braces {d : ClassDecl} (arranged : d.Arranged) (opens : w.offset = d.braces.start) :
    w.At (.stmt (.classLike d)) := by
  have := arranged.opens
  exact at_of_encloses (Span.encloses_iff.2 (opens ▸ this))

/-- What stands in the methods of a class-like stands behind its opening brace. -/
theorem not_at_braces {d : ClassDecl} {k m : Node} (arranged : d.Arranged)
    (placed : Placed lo hi [.stmt (.classLike d)]) (part : k ∈ (Node.stmt (.classLike d)).parts)
    (stands : Node.Within m k) (opens : w.offset = d.braces.start) : ¬ w.At m := by
  intro inside
  rcases Node.mem_parts_cases part with inner | namespace_ | ⟨_, b, function, rfl⟩ |
    ⟨_, _, _, arrow⟩
  · cases inner
  · cases namespace_
  · cases function with
    | @method _ span _ _ _ _ _ member =>
      have behind := arranged.behind span (List.mem_filterMap.2 ⟨_, member, rfl⟩)
      have around : span.start ≤ b.span.start := (arranged.bodies _ member).1
      have body := (placed.parts.of_mem part).own List.mem_cons_self rfl
      have := inside.of_within stands _ _ body
      omega
  · cases arrow

/-- The bodies of no two class-likes open at the same byte. -/
theorem eq_of_braces {c d : ClassDecl} {m n : Node} {ns : List Node} (first : m ∈ ns)
    (c_stands : Node.Within (.stmt (.classLike c)) m) (second : n ∈ ns)
    (d_stands : Node.Within (.stmt (.classLike d)) n) (placed : Placed lo hi ns)
    (arranged : Arranged ns) (c_opens : w.offset = c.braces.start)
    (d_opens : w.offset = d.braces.start) : c = d := by
  have c_at := at_braces (arranged.of_within first c_stands).1 c_opens
  have d_at := at_braces (arranged.of_within second d_stands).1 d_opens
  -- both stand in the same node, and then again in the same part of it
  induction c_stands generalizing ns n lo hi with
  | here =>
    obtain rfl := eq_of_mem_at placed first second c_at (d_at.of_within d_stands)
    cases d_stands with
    | here => rfl
    | part part within =>
      have here := (arranged.of_mem first).1
      exact absurd d_at (not_at_braces here (placed.of_mem first) part within c_opens)
  | @part m k part within ih =>
    obtain rfl := eq_of_mem_at placed first second (c_at.of_within (.part part within))
      (d_at.of_within d_stands)
    obtain ⟨here, parts⟩ := arranged.of_mem first
    cases d_stands with
    | here => exact absurd c_at (not_at_braces here (placed.of_mem first) part within d_opens)
    | part d_part d_within => exact ih part d_part d_within (placed.of_mem first).parts parts

end Walk

/-! ### What a source lists -/

namespace Reader
variable (r : Reader)

/-- The declarations that the source lists. -/
def listed : List Declared := declaredByAll none r.reading.program.statements

def function? : Declared → Option Function
  | .function ns d => some (r.function ns d)
  | .classLike .. => none

theorem functions_eq : r.declarations.functions = r.listed.filterMap r.function? := rfl

theorem mem_classes {c : DeclaredClass} :
    c ∈ r.declarations.classes ↔ ∃ ns d, .classLike ns d ∈ r.listed ∧ r.classLike ns d = c := by
  constructor
  · intro member
    obtain ⟨declared, listed, read⟩ := List.mem_filterMap.1 member
    cases declared with
    | classLike ns d => exact ⟨ns, d, listed, Option.some.inj read⟩
    | function => cases read
  · rintro ⟨ns, d, listed, rfl⟩
    exact List.mem_filterMap.2 ⟨_, listed, rfl⟩

theorem mem_functions {f : Function} :
    f ∈ r.declarations.functions ↔ ∃ ns d, .function ns d ∈ r.listed ∧ r.function ns d = f := by
  constructor
  · intro member
    obtain ⟨declared, listed, read⟩ := List.mem_filterMap.1 member
    cases declared with
    | function ns d => exact ⟨ns, d, listed, Option.some.inj read⟩
    | classLike => cases read
  · rintro ⟨ns, d, listed, rfl⟩
    exact List.mem_filterMap.2 ⟨_, listed, rfl⟩

theorem startOffset_classLike (ns : Option String) (d : ClassDecl) :
    (r.classLike ns d).symbol.startOffset = d.braces.start := by
  cases d
  rfl

theorem name_function (ns : Option String) (d : FunctionDecl) :
    (r.function ns d).name = d.name ∧ (r.function ns d).ns = ns := by
  cases d
  exact ⟨rfl, rfl⟩

/-- The first function with its name and namespace is found by them. -/
theorem find?_function {before after : List Declared} {ns : Option String} {d : FunctionDecl}
    (split : r.listed = before ++ .function ns d :: after)
    (first : ∀ c ∈ before, ¬ c.IsKnownAs (.function ns d.name)) :
    (r.declarations.functions.find? fun f => f.name == d.name && f.ns == ns) =
      some (r.function ns d) := by
  have named := r.name_function ns d
  have found : (r.listed.find? fun c =>
      (r.function? c).any fun f => f.name == d.name && f.ns == ns) = some (.function ns d) := by
    refine List.find?_eq_some_iff_append.2 ⟨?_, before, after, split, ?_⟩
    · simp [function?, named]
    · intro c member
      cases c with
      | classLike => rfl
      | function space e =>
        have other : e.name ≠ d.name ∨ space ≠ ns := not_and_or.1 (first _ member)
        simpa [function?, r.name_function space e] using other
  rw [functions_eq, List.find?_filterMap, found]
  rfl

/-! ### Methods -/

theorem toList_methods (ns : Option String) (d : ClassDecl) :
    (r.classLike ns d).symbol.methods.toList =
      Distinct.firsts Method.key (r.declaredMethods d) := by
  rw [methods_classLike]
  exact Collection.toList_foldl_insertIfAbsent fun m _ => m.answersTo_name

/-- With the methods that providers offer for a class-like. -/
theorem toList_withVirtualMethods (ns : Option String) (d : ClassDecl) (resolver : Resolver)
    (providers : List Provider) :
    ((r.classLike ns d).withVirtualMembers resolver providers).methods.toList =
      Distinct.firsts Method.key (r.declaredMethods d ++
        ((r.classLike ns d).offered resolver providers).filterMap VirtualMember.method?) := by
  rw [DeclaredClass.withVirtualMembers_eq]
  dsimp only
  rw [methods_classLike, ← List.foldl_append]
  exact Collection.toList_foldl_insertIfAbsent fun m _ => m.answersTo_name

theorem mem_declaredMethods {d : ClassDecl} {span : Span} {ms : List Modifier} {name : String}
    {ps : List Param} {hint : Option Span} {b : Option Body}
    (member : .method span ms name ps hint b ∈ d.members) :
    r.method d.name span ms name ps hint ∈ r.declaredMethods d := by
  obtain ⟨_, _, _, owner, _, _, _, members⟩ := d
  exact List.mem_flatMap.2 ⟨_, member, List.mem_singleton_self _⟩

end Reader

/-! ### What a session finds -/

def ReflectorBy.reader [Frontend] {κ : Type} {key : String → κ} (r : ReflectorBy key)
    (source : String) :
    Reader := ⟨.of source, r.resolver⟩

namespace Reflector
variable {r : Reflector} {d : DeclaredClass} {c : ClassLike}

theorem opens_of_completes (h : r.Completes d c) : d.symbol.startOffset = c.startOffset := by
  obtain ⟨_, _, _, rfl⟩ := h
  rw [DeclaredClass.withVirtualMembers_eq]

theorem methods_of_completes (h : r.Completes d c) :
    c.methods = (d.withVirtualMembers r.resolver r.providers).methods := by
  obtain ⟨_, _, _, rfl⟩ := h
  rfl

variable [Frontend] (r) {s : Session} (faithful : s.Faithful r.resolver) (source : String)

theorem symbolOf_classLike [Walker] (start : Nat) :
    r.symbolOf source s (some (.classLike start)) =
      (((r.classesIn source).run s).1.toList.find? (·.startOffset == start)).map .classLike := rfl

theorem symbolOf_method [Walker] (start : Nat) (name : String) :
    r.symbolOf source s (some (.method start name)) =
      ((((r.classesIn source).run s).1.toList.find? (·.startOffset == start)).bind
        (·.methods.find? name)).map .method := rfl

include faithful

theorem rel_find?_classLike [Walker] (start : Nat) :
    Option.Rel r.Completes
      ((r.reader source).declarations.classes.find? (·.symbol.startOffset == start))
      (((r.classesIn source).run s).1.toList.find? (·.startOffset == start)) := by
  refine rel_find? ?_ (r.toList_classesIn (faithful.to source))
  intro d c same
  rw [opens_of_completes same]

/-- What is found by the byte where it opens is a class-like that the source lists. -/
theorem listed_of_find? [Walker] {start : Nat} {c : ClassLike}
    (found : ((r.classesIn source).run s).1.toList.find? (·.startOffset == start) = some c) :
    ∃ ns d, .classLike ns d ∈ (r.reader source).listed ∧ d.braces.start = start ∧
      c.methods =
        (((r.reader source).classLike ns d).withVirtualMembers r.resolver r.providers).methods := by
  have rel := r.rel_find?_classLike faithful source start
  rw [found] at rel
  generalize declared : (r.reader source).declarations.classes.find? _ = searched at rel
  cases rel with
  | @some dc _ same =>
    have opens := List.find?_some declared
    obtain ⟨ns, d, listed, rfl⟩ :=
      (r.reader source).mem_classes.1 (List.mem_of_find?_eq_some declared)
    rw [(r.reader source).startOffset_classLike, beq_iff_eq] at opens
    exact ⟨ns, d, listed, opens, methods_of_completes same⟩

/-- Where a listed class-like opens there is one. -/
theorem exists_find? [Walker] {ns : Option String} {d : ClassDecl}
    (listed : .classLike ns d ∈ (r.reader source).listed) :
    ∃ c, ((r.classesIn source).run s).1.toList.find? (·.startOffset == d.braces.start) =
      some c := by
  have rel := r.rel_find?_classLike faithful source d.braces.start
  have member := (r.reader source).mem_classes.2 ⟨ns, d, listed, rfl⟩
  have holds : ((r.reader source).declarations.classes.find?
      (·.symbol.startOffset == d.braces.start)).isSome = true := by
    refine List.find?_isSome.2 ⟨_, member, ?_⟩
    rw [(r.reader source).startOffset_classLike]
    exact beq_self_eq_true _
  generalize (r.reader source).declarations.classes.find? _ = declared at rel holds
  generalize ((r.classesIn source).run s).1.toList.find? _ = found at rel ⊢
  cases rel with
  | some => exact ⟨_, rfl⟩
  | none => cases holds

/-! ### Symbols of declarations -/

theorem symbolOf_function [Walker] (ns : Option String) (name : String) :
    r.symbolOf source s (some (.function ns name)) =
      ((r.reader source).declarations.functions.find? fun f => f.name == name && f.ns == ns).map
        .function := by
  have functions : ((r.functionsIn source).run s).1.toList =
      (r.reader source).declarations.functions := r.toList_functionsIn (faithful.to source)
  rw [← functions]
  rfl

theorem isSome_symbolOf_classLike [Walker] (start : Nat) :
    (r.symbolOf source s (some (.classLike start))).isSome = true ↔
      ∃ d ∈ (r.reader source).listed, d.IsKnownAs (.classLike start) := by
  rw [symbolOf_classLike, Option.isSome_map]
  constructor
  · intro isSome
    obtain ⟨c, found⟩ := Option.isSome_iff_exists.1 isSome
    obtain ⟨ns, d, listed, opens, -⟩ := r.listed_of_find? faithful source found
    exact ⟨_, listed, opens⟩
  · rintro ⟨d, listed, known⟩
    cases d with
    | function => cases known
    | classLike ns d =>
      obtain rfl : d.braces.start = start := known
      obtain ⟨c, found⟩ := r.exists_find? faithful source listed
      rw [found]
      rfl

theorem isSome_symbolOf_function [Walker] (ns : Option String) (name : String) :
    (r.symbolOf source s (some (.function ns name))).isSome = true ↔
      ∃ d ∈ (r.reader source).listed, d.IsKnownAs (.function ns name) := by
  rw [r.symbolOf_function faithful, Option.isSome_map, List.find?_isSome]
  constructor
  · rintro ⟨f, member, named⟩
    obtain ⟨space, d, listed, rfl⟩ := (r.reader source).mem_functions.1 member
    refine ⟨_, listed, ?_⟩
    simpa [Declared.IsKnownAs, (r.reader source).name_function space d] using named
  · rintro ⟨d, listed, known⟩
    cases d with
    | classLike => cases known
    | function space d =>
      obtain ⟨rfl, rfl⟩ := known
      refine ⟨_, (r.reader source).mem_functions.2 ⟨space, d, listed, rfl⟩, ?_⟩
      simp [(r.reader source).name_function space d]

theorem listed_of_isSome_method [Walker] {start : Nat} {name : String}
    (isSome : (r.symbolOf source s (some (.method start name))).isSome = true) :
    ∃ d ∈ (r.reader source).listed, d.IsKnownAs (.method start name) := by
  rw [symbolOf_method, Option.isSome_map] at isSome
  obtain ⟨m, found⟩ := Option.isSome_iff_exists.1 isSome
  obtain ⟨c, found, -⟩ := Option.bind_eq_some_iff.1 found
  obtain ⟨ns, d, listed, opens, -⟩ := r.listed_of_find? faithful source found
  exact ⟨_, listed, opens⟩

variable {lo hi : Nat} (placed : Placed lo hi ((Reading.of source).program.statements.map .stmt))
  (arranged : Arranged ((Reading.of source).program.statements.map .stmt))
include placed arranged

omit faithful in
/-- A class-like of a source is listed if one is that opens where it does. -/
theorem eq_of_listed {ns : Option String} {c d : ClassDecl} {t : Stmt}
    (member : t ∈ (Reading.of source).program.statements)
    (stands : Node.Within (.stmt (.classLike d)) (.stmt t))
    (listed : .classLike ns c ∈ (r.reader source).listed)
    (same : c.braces.start = d.braces.start) : c = d := by
  obtain ⟨outer, outer_member, lists⟩ := Node.lists_of_mem _ none listed
  exact Walk.eq_of_braces (w := ⟨r.reader source, c.braces.start⟩)
    (List.mem_map_of_mem outer_member) lists.within (List.mem_map_of_mem member) stands placed
    arranged rfl same

/-- The methods of a listed class-like, with what providers offer behind them, are found by
where it opens. -/
theorem exists_methods [Walker] {ns : Option String} {d : ClassDecl}
    (listed : .classLike ns d ∈ (r.reader source).listed) :
    ∃ c offered,
      ((r.classesIn source).run s).1.toList.find? (·.startOffset == d.braces.start) = some c ∧
        c.methods.toList =
          Distinct.firsts Method.key ((r.reader source).declaredMethods d ++ offered) := by
  obtain ⟨c, found⟩ := r.exists_find? faithful source listed
  obtain ⟨_, e, e_listed, same, methods⟩ := r.listed_of_find? faithful source found
  obtain ⟨t, member, lists⟩ := Node.lists_of_mem _ none listed
  obtain rfl := r.eq_of_listed source placed arranged member lists.within e_listed same
  exact ⟨c, _, found, methods ▸ (r.reader source).toList_withVirtualMethods _ _ _ _⟩

/-- A method that a source lists is found by where its class-like opens and by its name. -/
theorem symbolOf_kept [Walker] {ns : Option String} {d : ClassDecl} {m : Method} {name : String}
    (listed : .classLike ns d ∈ (r.reader source).listed)
    (kept : m ∈ ((r.reader source).classLike ns d).symbol.methods.toList)
    (named : m.name = name) :
    r.symbolOf source s (some (.method d.braces.start name)) = some (.method m) := by
  subst named
  obtain ⟨c, offered, found, methods⟩ :=
    r.exists_methods faithful source placed arranged listed
  rw [(r.reader source).toList_methods] at kept
  have method : c.methods.find? m.name = some m := by
    rw [Collection.find?, methods]
    exact Method.find?_firsts (Distinct.mem_firsts_append kept)
  rw [symbolOf_method, found, Option.bind_some, method]
  rfl

/-- There is a symbol for every method of a listed class-like. -/
theorem isSome_symbolOf_method [Walker] {ns : Option String} {d : ClassDecl} {span : Span}
    {ms : List Modifier} {name : String} {ps : List Param} {hint : Option Span} {b : Option Body}
    (listed : .classLike ns d ∈ (r.reader source).listed)
    (method : .method span ms name ps hint b ∈ d.members) :
    (r.symbolOf source s (some (.method d.braces.start name))).isSome = true := by
  obtain ⟨c, offered, found, methods⟩ :=
    r.exists_methods faithful source placed arranged listed
  have declared := (r.reader source).mem_declaredMethods method
  have isSome := Method.isSome_find?_firsts (List.mem_append_left offered declared)
  rw [symbolOf_method, found, Option.bind_some, Option.isSome_map, Collection.find?, methods]
  exact isSome

/-- The key under which a scan knows a declaration leads to a symbol exactly if the source
lists one that is known in this way. -/
theorem isSome_symbolOf_iff [Walker] {t : Stmt} {m : Node} {offset : Nat} {space : Option String}
    {key : Enclosing} (member : t ∈ (Reading.of source).program.statements)
    (stands : Node.Within m (.stmt t))
    (declared : (r.walk source offset).declares space m = some key) :
    (r.symbolOf source s (some key)).isSome = true ↔
      ∃ d ∈ (r.reader source).listed, d.IsKnownAs key := by
  rcases Walk.declares_eq_some declared with ⟨d, rfl, -, rfl⟩ | ⟨d, rfl, -, rfl⟩
  · rcases d.enclosing_cases (r.walk source offset).offset with by_class |
      ⟨span, ms, name, ps, hint, b, method, by_method⟩
    · rw [by_class]
      exact r.isSome_symbolOf_classLike faithful source d.braces.start
    · rw [by_method]
      constructor
      · exact r.listed_of_isSome_method faithful source
      · rintro ⟨c, listed, known⟩
        cases c with
        | function => cases known
        | classLike ns c =>
          obtain rfl := r.eq_of_listed source placed arranged member stands listed known
          exact r.isSome_symbolOf_method faithful source placed arranged listed method
  · exact r.isSome_symbolOf_function faithful source space d.name

end Reflector

end PhpSymbols
