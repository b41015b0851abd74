import PhpSymbols.Proofs.Reflect.Assignment
import PhpSymbols.Proofs.Reflect.Course
import PhpSymbols.Proofs.Text.Separated
import PhpSymbols.Proofs.Ty.RoundTrip
import PhpSymbols.Source.Locator

/-!
# The classes of new objects

* `Php.Imported`: the classes that `use` statements import, with their aliases;
* `find?_of_imported`, `find?_of_unimported`: so a class is found under its alias, wherever the
  statement stands among others;
* `Php.Denotes`: the class that a name written in a namespace stands for;
* `newTy_of_denotes`: this is the class that `new` creates there;
* `imports_nodes`, `Comes.imports`: a walk goes by the same imports from its start to its end;
* `expr_new`: so a variable to which a new object is assigned has the class that is named.
-/

namespace PhpSymbols

/-! ### Imports as they are written -/

namespace Php

/-- The alias of an imported class: the one that is written, or else the last segment. -/
def ImportItem.IsKnownAs (item : ImportItem) (full short : List Char) : Prop :=
  match item.local_ with
  | some name => short = name.toList
  | none => '\\' ∉ short ∧ (full = short ∨ ∃ front, full = front ++ '\\' :: short)

/-- The statement imports the class `full` as `short`. No class is imported behind a kind; in a
group each name may have a kind of its own. -/
inductive ImportClause.Provides (short full : List Char) : ImportClause → Prop where
  | plain {items : List ImportItem} {item : ImportItem} : item ∈ items →
      full = Imports.path item.name → item.IsKnownAs full short →
      Provides short full ⟨none, none, items⟩
  | group {first : String} {items : List ImportItem} {item : ImportItem} : item ∈ items →
      item.kind = none → full = Imports.path first ++ '\\' :: Imports.path item.name →
      item.IsKnownAs full short → Provides short full ⟨none, some first, items⟩

/-- One of the statements imports the class `full` as `short`. -/
def Imported (ss : List Stmt) (short full : List Char) : Prop :=
  ∃ span clause, Stmt.use span clause ∈ ss ∧ clause.Provides short full

/-- No two classes are imported under one alias, whatever the case of its letters. -/
def Unambiguous (ss : List Stmt) : Prop :=
  ∀ a f b g, Imported ss a f → Imported ss b g → Text.lower a = Text.lower b → f = g

/-- The statements import the same classes under the same aliases. -/
def ImportAlike (ss ss' : List Stmt) : Prop :=
  ∀ short full, Imported ss short full ↔ Imported ss' short full

theorem importAlike_of_perm {ss ss' : List Stmt} (perm : ss.Perm ss') : ImportAlike ss ss' := by
  intro short full
  simp only [Imported, perm.mem_iff]

/-- Functions and constants are no classes. -/
theorem importAlike_of_kind (before after : List Stmt) (span : Span) (kind : ImportKind)
    (first : Option String) (items : List ImportItem) :
    ImportAlike (before ++ .use span ⟨some kind, first, items⟩ :: after) (before ++ after) := by
  intro short full
  constructor
  · rintro ⟨place, clause, member, provides⟩
    refine ⟨place, clause, ?_, provides⟩
    simp only [List.mem_append, List.mem_cons, Stmt.use.injEq] at member ⊢
    rcases member with front | ⟨rfl, rfl⟩ | back
    · exact .inl front
    · cases provides
    · exact .inr back
  · rintro ⟨place, clause, member, provides⟩
    refine ⟨place, clause, ?_, provides⟩
    simp only [List.mem_append, List.mem_cons] at member ⊢
    exact member.imp_right .inr

end Php

open Php

/-! ### Imports as they are read -/

namespace Imports
variable {ns : Option String} {ss : List Stmt}

theorem lastSegment_eq_iff {name last : List Char} : lastSegment name = last ↔
    '\\' ∉ last ∧ (name = last ∨ ∃ front, name = front ++ '\\' :: last) := by
  rw [lastSegment]
  cases cut : Text.splitOnceLast '\\' name with
  | none =>
    have whole := Text.splitOnceLast_eq_none_iff.1 cut
    constructor
    · rintro rfl
      exact ⟨whole, .inl rfl⟩
    · rintro ⟨-, rfl | ⟨front, rfl⟩⟩
      · rfl
      · exact absurd (by simp) whole
  | some parts =>
    obtain ⟨before, after⟩ := parts
    obtain ⟨rfl, segment⟩ := Text.splitOnceLast_eq_some_iff.1 cut
    constructor
    · rintro rfl
      exact ⟨segment, .inr ⟨before, rfl⟩⟩
    · rintro ⟨apart, rfl | ⟨front, same⟩⟩
      · exact absurd (by simp) apart
      · rw [same, Text.splitOnceLast_append apart] at cut
        exact (Prod.mk.inj (Option.some.inj cut)).2.symm

/-- An item is read as its class under each alias that it is known as, and it has one. -/
theorem entry_eq_iff {group : Option String} {item : ImportItem} {full : List Char}
    (same : full = match group with
      | none => path item.name
      | some g => path g ++ '\\' :: path item.name) {read : String × String} :
    entry group item = read ↔ ∃ short, item.IsKnownAs full short ∧
      read = (String.ofList (Text.lower short), String.ofList full) := by
  obtain ⟨kind, name, written⟩ := item
  cases group <;> subst same <;> cases written <;>
    simp only [entry, ImportItem.IsKnownAs, ← lastSegment_eq_iff, exists_eq_left, exists_eq_left',
      eq_comm (a := read)]

theorem entry_mem_entries {group : Option String} {items : List ImportItem} {item : ImportItem}
    (part : item ∈ items) (plain : (group.isNone || item.kind.isNone) = true) :
    entry group item ∈ entries ⟨none, group, items⟩ :=
  List.mem_map_of_mem (List.mem_filter.2 ⟨part, plain⟩)

theorem mem_entries_iff {clause : ImportClause} {read : String × String} :
    read ∈ entries clause ↔ ∃ short full, clause.Provides short full ∧
      read = (String.ofList (Text.lower short), String.ofList full) := by
  obtain ⟨kind, group, items⟩ := clause
  constructor
  · intro member
    cases kind with
    | some kind => cases member
    | none =>
      obtain ⟨item, kept, made⟩ := List.mem_map.1 member
      obtain ⟨part, plain⟩ := List.mem_filter.1 kept
      obtain ⟨short, known, rfl⟩ := (entry_eq_iff rfl).1 made
      cases group with
      | none => exact ⟨short, _, .plain part rfl known, rfl⟩
      | some first => exact ⟨short, _, .group part (by simpa using plain) rfl known, rfl⟩
  · rintro ⟨short, full, provides, rfl⟩
    cases provides with
    | @plain _ item part same known =>
      have read : entry none item = _ := (entry_eq_iff same).2 ⟨short, known, rfl⟩
      exact read ▸ entry_mem_entries part rfl
    | @group first _ item part kind same known =>
      have read : entry (some first) item = _ := (entry_eq_iff same).2 ⟨short, known, rfl⟩
      exact read ▸ entry_mem_entries part (by simp [kind])

theorem mem_classes_iff {read : String × String} :
    read ∈ (Imports.of ns ss).classes ↔ ∃ short full, Imported ss short full ∧
      read = (String.ofList (Text.lower short), String.ofList full) := by
  rw [Imports.of]
  constructor
  · intro member
    obtain ⟨t, part, made⟩ := List.mem_flatMap.1 member
    cases t with
    | use span clause =>
      obtain ⟨short, full, provides, rfl⟩ := mem_entries_iff.1 made
      exact ⟨short, full, ⟨span, clause, part, provides⟩, rfl⟩
    | _ => cases made
  · rintro ⟨short, full, ⟨span, clause, part, provides⟩, rfl⟩
    exact List.mem_flatMap.2 ⟨_, part, mem_entries_iff.2 ⟨short, full, provides, rfl⟩⟩

theorem find?_of_unimported {first : List Char}
    (unimported : ∀ short full, Imported ss short full → Text.lower short ≠ Text.lower first) :
    (Imports.of ns ss).find? first = none := by
  rw [find?, List.lookup_eq_none_iff]
  intro read member
  obtain ⟨short, full, imported, rfl⟩ := mem_classes_iff.1 (List.mem_reverse.1 member)
  have other := unimported short full imported
  simpa [String.ofList_inj] using Ne.symm other

/-- An import is found under its alias, before or behind whatever other imports. -/
theorem find?_of_imported (unambiguous : Unambiguous ss) {short full first : List Char}
    (imported : Imported ss short full) (same : Text.lower short = Text.lower first) :
    (Imports.of ns ss).find? first = some (String.ofList full) := by
  cases found : (Imports.of ns ss).find? first with
  | none =>
    rw [find?, List.lookup_eq_none_iff] at found
    have member : (String.ofList (Text.lower short), String.ofList full) ∈
        (Imports.of ns ss).classes := mem_classes_iff.2 ⟨short, full, imported, rfl⟩
    have other := found _ (List.mem_reverse.2 member)
    simp [same] at other
  | some read =>
    have member := List.mem_reverse.1 (mem_of_lookup found)
    obtain ⟨other, cls, listed, pair⟩ := mem_classes_iff.1 member
    obtain ⟨key, rfl⟩ := Prod.mk.inj pair
    have alike : Text.lower other = Text.lower short := by
      rw [same]
      exact (String.ofList_inj.1 key).symm
    rw [unambiguous other cls short full listed imported alike]

end Imports

/-! ### Names as they are written -/

namespace Php

/-- `first` is the first segment of a name, and `rest` what stands behind it. -/
structure Leads (first rest : List Char) : Prop where
  nonempty : first ≠ []
  segment : '\\' ∉ first
  stops : ∀ c ∈ rest.head?, c = '\\'

/-- What stands before a name in a namespace; the namespace without a name is the empty one. -/
def namespacePrefix : Option String → List Char
  | none => []
  | some ns => if ns.isEmpty then [] else ns.toList ++ ['\\']

/-- The class that a written name stands for among the statements of a namespace. Behind a
backslash the name is complete, else its first segment may be the alias of an import, and else it
belongs to the namespace. -/
inductive Denotes (ns : Option String) (ss : List Stmt) : (written cls : List Char) → Prop where
  | complete {name : List Char} : name.head? ≠ some '\\' → Denotes ns ss ('\\' :: name) name
  | imported {first rest short full : List Char} : Leads first rest → Imported ss short full →
      Text.lower short = Text.lower first → Denotes ns ss (first ++ rest) (full ++ rest)
  | relative {first rest : List Char} : Leads first rest →
      (∀ short full, Imported ss short full → Text.lower short ≠ Text.lower first) →
      Denotes ns ss (first ++ rest) (namespacePrefix ns ++ (first ++ rest))

theorem Unambiguous.of_importAlike {ss ss' : List Stmt} (h : Unambiguous ss)
    (alike : ImportAlike ss' ss) : Unambiguous ss' := by
  intro a f b g first second same
  exact h a f b g ((alike a f).1 first) ((alike b g).1 second) same

theorem Denotes.of_importAlike {ns : Option String} {ss ss' : List Stmt}
    {written cls : List Char} (h : Denotes ns ss written cls) (alike : ImportAlike ss' ss) :
    Denotes ns ss' written cls := by
  cases h with
  | complete once => exact .complete once
  | imported leads imported same => exact .imported leads ((alike _ _).2 imported) same
  | relative leads unimported =>
    exact .relative leads fun short full imported =>
      unimported short full ((alike short full).1 imported)

/-- A name is not empty and has at most one backslash in front of it. -/
def IsWrittenName (written : List Char) : Prop :=
  written ≠ [] ∧ ¬ ['\\', '\\'] <+: written

theorem exists_leads {written : List Char} (nonempty : written ≠ [])
    (incomplete : written.head? ≠ some '\\') :
    ∃ first rest, written = first ++ rest ∧ Leads first rest := by
  refine ⟨written.takeWhile (· != '\\'), written.dropWhile (· != '\\'),
    List.takeWhile_append_dropWhile.symm, ?_, ?_, ?_⟩
  · obtain ⟨c, rest, rfl⟩ := List.exists_cons_of_ne_nil nonempty
    simpa using incomplete
  · intro member
    simpa using List.mem_takeWhile_imp member
  · intro c first
    have stop := List.head?_dropWhile_not (· != '\\') written
    rw [Option.mem_def.1 first] at stop
    simpa using stop

theorem exists_denotes (ns : Option String) (ss : List Stmt) {written : List Char}
    (name : IsWrittenName written) : ∃ cls, Denotes ns ss written cls := by
  by_cases led : written.head? = some '\\'
  · obtain ⟨name', rfl⟩ := List.head?_eq_some_iff.1 led
    refine ⟨name', .complete fun twice => name.2 ?_⟩
    obtain ⟨rest, rfl⟩ := List.head?_eq_some_iff.1 twice
    exact ⟨rest, rfl⟩
  · obtain ⟨first, rest, rfl, leads⟩ := exists_leads name.1 led
    by_cases listed : ∃ short full, Imported ss short full ∧ Text.lower short = Text.lower first
    · obtain ⟨short, full, imported, same⟩ := listed
      exact ⟨_, .imported leads imported same⟩
    · refine ⟨_, .relative leads fun short full imported same => listed ?_⟩
      exact ⟨short, full, imported, same⟩

end Php

theorem toList_qualify (ns : Option String) (name : String) :
    (qualify ns name).toList = namespacePrefix ns ++ name.toList := by
  cases ns with
  | none => rfl
  | some ns =>
    simp only [qualify, namespacePrefix]
    split <;> simp

namespace Imports
variable {ns : Option String} {ss : List Stmt}

theorem resolveClass_of_leads (i : Imports) {name : String} {first rest : List Char}
    (written : name.toList = first ++ rest) (leads : Leads first rest) :
    i.resolveClass name =
      ((i.find? first).map (· ++ String.ofList rest)).getD (qualify i.ns name) := by
  have broken : Text.breakOn (· == '\\') (first ++ rest) = (first, rest) := by
    refine Text.breakOn_append (fun c member => ?_) fun c next => by simpa using leads.stops c next
    simpa using fun same : c = '\\' => leads.segment (same ▸ member)
  rw [resolveClass]
  split
  · rename_i complete
    obtain ⟨c, tail, rfl⟩ := List.exists_cons_of_ne_nil leads.nonempty
    rw [written] at complete
    exact absurd (List.cons.inj complete).1.symm (List.ne_of_not_mem_cons leads.segment)
  · rw [written, broken]
    dsimp only
    cases i.find? first <;> rfl

end Imports

namespace Scope
variable {ns : Option String} {ss : List Stmt}

theorem newTy_complete (s : Scope) {text : String} {name : List Char}
    (written : text.toList = '\\' :: name) (once : name.head? ≠ some '\\') (place : Span) :
    s.newTy (.name place text) = Ty.ofClass (String.ofList name) := by
  have whole : name.dropWhile (· == '\\') = name := by
    cases name with
    | nil => rfl
    | cons c name => exact List.dropWhile_cons_of_neg (by simpa using once)
  have path : Imports.path text = name := by
    rw [Imports.path, written, List.dropWhile_cons_of_pos (by simp), whole]
  rw [Resolver.ofClass_complete (by rwa [String.toList_ofList])]
  simp only [newTy, written, path]

theorem newTy_of_leads (s : Scope) {text : String} {first rest : List Char}
    (written : text.toList = first ++ rest) (leads : Leads first rest) (place : Span) :
    s.newTy (.name place text) =
      Ty.ofClass (((s.imports.find? first).map (· ++ String.ofList rest)).getD
        (qualify s.imports.ns text)) := by
  rw [← s.imports.resolveClass_of_leads written leads, newTy]
  split
  · rename_i complete
    obtain ⟨c, tail, rfl⟩ := List.exists_cons_of_ne_nil leads.nonempty
    rw [written] at complete
    exact absurd (List.cons.inj complete).1.symm (List.ne_of_not_mem_cons leads.segment)
  · rfl

/-- The class that `new` creates is the one that its name stands for. -/
theorem newTy_of_denotes (unambiguous : Unambiguous ss) {s : Scope}
    (imports : s.imports = .of ns ss) {text : String} {cls : List Char}
    (denotes : Denotes ns ss text.toList cls) (place : Span) :
    s.newTy (.name place text) = Ty.ofClass (String.ofList cls) := by
  generalize written : text.toList = chars at denotes
  cases denotes with
  | complete once => exact s.newTy_complete written once place
  | imported leads imported same =>
    rw [s.newTy_of_leads written leads, imports,
      Imports.find?_of_imported unambiguous imported same, String.ofList_append]
    rfl
  | relative leads unimported =>
    rw [s.newTy_of_leads written leads, imports, Imports.find?_of_unimported unimported, ← written,
      ← toList_qualify, String.ofList_toList]
    rfl

end Scope

/-! ### The imports of a walk -/

namespace Walk
variable {w : Walk} {lo hi : Nat}

theorem imports_nodes {ns : List Node} (placed : Placed lo hi ns) (s : Scope)
    (isOpen : s.isClosed = false) : (w.nodes s ns).imports = s.imports := by
  apply nodes_keep (R := fun s after => after.imports = s.imports) _ _ _ placed _ s isOpen
  · intro s
    rfl
  · intro a b c first second
    exact second.trans first
  · intro n s after
    rw [leave_frame]
  · intro n member m reached s
    rw [enter_frame]

/-- Wherever a walk comes, the imports are those from which it started. -/
theorem Comes.imports {m : Node} {moment s : Scope} {ns : List Node} (h : w.Comes m moment s ns)
    (placed : Placed lo hi ns) (isOpen : s.isClosed = false) : moment.imports = s.imports := by
  induction h generalizing lo hi with
  | here => rfl
  | @inside s n ns _ ih =>
    obtain ⟨mid, head, -⟩ := placed.of_cons
    rw [ih (placed_view head) ((isClosed_enter s n).trans isOpen), enter_frame]
  | @behind s n ns before _ ih =>
    obtain ⟨mid, head, rest⟩ := placed.of_cons
    rw [ih rest before]
    exact imports_nodes head s isOpen

theorem Comes.placed {m : Node} {moment s : Scope} {ns : List Node} (h : w.Comes m moment s ns)
    (placed : Placed lo hi ns) : ∃ lo hi, Placed lo hi [m] := by
  induction h generalizing lo hi with
  | here =>
    obtain ⟨mid, head, -⟩ := placed.of_cons
    exact ⟨lo, mid, head⟩
  | inside _ ih =>
    obtain ⟨mid, head, -⟩ := placed.of_cons
    exact ih (placed_view head)
  | behind _ _ ih =>
    obtain ⟨mid, -, rest⟩ := placed.of_cons
    exact ih rest

/-- A name stands for a class. It is the class of an object that is created under the name, in
every scope with the imports of statements that import alike, whatever their order. It is also
the class of the variable to which a walk through the statements sees the object assigned. -/
theorem expr_new {ss : List Stmt} (unambiguous : Unambiguous ss) (ns : Option String)
    (text : String) :
    (IsWrittenName text.toList → ∃ cls, Denotes ns ss text.toList cls) ∧
    ∀ cls, Denotes ns ss text.toList cls → ∀ (span place : Span) (args : List Expr),
      (∀ ss', ImportAlike ss' ss → ∀ s : Scope, s.imports = .of ns ss' →
        s.valueTy (.new span (.name place text) args) = Ty.ofClass (String.ofList cls)) ∧
      ∀ (w : Walk) {lo hi : Nat}, Placed lo hi (ss.map .stmt) →
        ∀ (whole target : Span) (x : String) (moment : Scope),
          let assigns : Expr :=
            .assign whole "=" (.var target x) (.new span (.name place text) args)
          w.Comes (.expr assigns) moment { imports := .of ns ss } (ss.map .stmt) →
          whole.stop ≤ w.offset →
          (w.expr moment assigns).locals.get? x = some (Ty.ofClass (String.ofList cls)) := by
  refine ⟨exists_denotes ns ss, fun cls denotes span place args => ⟨?_, ?_⟩⟩
  · intro ss' alike s imports
    rw [Scope.valueTy]
    exact Scope.newTy_of_denotes (unambiguous.of_importAlike alike) imports
      (denotes.of_importAlike alike) place
  · intro w lo hi placed whole target x moment assigns comes ended
    have isOpen : moment.isClosed = false := comes.isOpen rfl
    obtain ⟨start, stop, here⟩ := comes.placed placed
    have value : Placed whole.start whole.stop [.expr (.new span (.name place text) args)] :=
      (here.own List.mem_cons_self rfl).parts
    have imports : (w.expr moment (.new span (.name place text) args)).imports = .of ns ss :=
      (imports_nodes value moment isOpen).trans (comes.imports placed rfl)
    rw [expr_assign here isOpen ended, Scope.bind, Bindings.get?_bind, if_pos rfl, Scope.valueTy,
      Scope.newTy_of_denotes unambiguous imports denotes place]

def logger : Expr := .new ⟨66, 86⟩ (.name ⟨70, 84⟩ "logging\\Logger") []

def assignsLogger : Expr := .assign ⟨63, 86⟩ "=" (.var ⟨63, 65⟩ "l") logger

/-- `use function Util\helper;use Vendor\{Log as Logging,const MAX};$l=new logging\Logger();` -/
def logging : List Stmt := [
  .use ⟨0, 25⟩ ⟨some .function, none, [⟨none, "Util\\helper", none⟩]⟩,
  .use ⟨25, 63⟩ ⟨none, some "Vendor",
    [⟨none, "Log", some "Logging"⟩, ⟨some .constant, "MAX", none⟩]⟩,
  .expression ⟨63, 87⟩ assignsLogger]

theorem imported_logging : Imported logging "Logging".toList "Vendor\\Log".toList :=
  ⟨_, _, List.mem_cons_of_mem _ List.mem_cons_self, .group List.mem_cons_self rfl (by decide) rfl⟩

theorem unambiguous_logging : Unambiguous logging := by
  have one : ∀ short full, Imported logging short full → full = "Vendor\\Log".toList := by
    intro short full imported
    have member : (String.ofList (Text.lower short), String.ofList full) ∈
        (Imports.of none logging).classes :=
      Imports.mem_classes_iff.2 ⟨short, full, imported, rfl⟩
    have listed : (Imports.of none logging).classes = [("logging", "Vendor\\Log")] := by decide
    rw [listed, List.mem_singleton] at member
    rw [← String.toList_ofList (l := full), (Prod.mk.inj member).2]
  intro a f b g first second _
  rw [one a f first, one b g second]

/-- An alias is known whatever the case of its letters, in front of its import as well, and with or
without that of a function. -/
theorem expr_new_logging :
    let w : Walk := ⟨⟨{}, {}⟩, 87⟩
    let t := Ty.classRef "Vendor\\Log\\Logger"
    Unambiguous logging ∧ IsWrittenName "logging\\Logger".toList ∧
    Denotes (some "App") logging "logging\\Logger".toList "Vendor\\Log\\Logger".toList ∧
    ImportAlike logging.tail.reverse logging ∧
    (∀ s : Scope, s.imports = .of (some "App") logging.tail.reverse → s.valueTy logger = t) ∧
    Placed 0 87 (logging.map .stmt) ∧ 86 ≤ w.offset ∧
    ∃ moment, w.Comes (.expr assignsLogger) moment { imports := .of (some "App") logging }
      (logging.map .stmt) ∧ (w.expr moment assignsLogger).locals.get? "l" = some t := by
  intro w t
  have denotes : Denotes (some "App") logging "logging\\Logger".toList
      "Vendor\\Log\\Logger".toList :=
    have leads : Leads "logging".toList "\\Logger".toList := ⟨by decide, by decide, by decide⟩
    .imported leads imported_logging (by decide)
  have alike : ImportAlike logging.tail.reverse logging := fun short full =>
    (importAlike_of_perm logging.tail.reverse_perm short full).trans
      (importAlike_of_kind [] logging.tail ⟨0, 25⟩ .function none _ short full).symm
  have placed : Placed 0 87 (logging.map .stmt) :=
    placed_of_end? (show Node.end? 20 0 _ = some 87 by decide)
  have comes : ∃ moment, w.Comes (.expr assignsLogger) moment
      { imports := .of (some "App") logging } (logging.map .stmt) :=
    ⟨_, .behind rfl (.behind rfl (.inside .here))⟩
  obtain ⟨moment, comes⟩ := comes
  obtain ⟨-, class_of⟩ := expr_new unambiguous_logging (some "App") "logging\\Logger"
  obtain ⟨created, assigned⟩ := class_of _ denotes ⟨66, 86⟩ ⟨70, 84⟩ []
  refine ⟨unambiguous_logging, ⟨by decide, by decide⟩, denotes, alike, ?_, placed, by decide, ?_⟩
  · exact created logging.tail.reverse alike
  · exact ⟨moment, comes, assigned w placed _ _ _ _ comes (by decide)⟩

end Walk
end PhpSymbols
