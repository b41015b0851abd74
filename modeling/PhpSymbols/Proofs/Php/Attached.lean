import Mathlib.Data.List.Pairwise
import Mathlib.Tactic.ByContra
import Mathlib.Tactic.Push
import PhpSymbols.Proofs.Php.Mended
import PhpSymbols.Proofs.Php.Tokens

/-!
# Comments attached to what follows them

* `InOrder`: comments stand one after another in a text;
* `OnlyComments`, `Documents`: what stands between two places is white space and ordinary comments,
  and a doc comment with nothing else behind it documents what starts there;
* `attached?_eq`: walking back from a place, over the comments in front of it, finds the nearest
  one that does;
* `docComment?_eq_some_iff`: so the doc comment of a node is the nearest that documents it;
* `inOrder_of`: the comments of a source are in order.
-/

namespace PhpSymbols.Php
open Text (StandsAt isPlace isAsciiBlank byteLength)

/-- Comments one after another, each with some text. -/
structure InOrder (text : List Char) (comments : List Comment) : Prop where
  apart : comments.Pairwise fun a b => a.span.stop ≤ b.span.start
  filled : ∀ c ∈ comments, c.span.start < c.span.stop
  places : ∀ c ∈ comments,
    isPlace c.span.start text = true ∧ isPlace c.span.stop text = true

/-- Each character from byte `lo` up to byte `hi` is white space or stands in an ordinary
comment. -/
def OnlyComments (text : List Char) (comments : List Comment) (lo hi : Nat) : Prop :=
  ∀ n x, StandsAt text n x → lo ≤ n → n < hi →
    isAsciiBlank x = true ∨ ∃ k ∈ comments, k.isDoc = false ∧ k.span.start ≤ n ∧ n < k.span.stop

/-- The comment is a doc comment that opens in front of `start`, with nothing but white space and
ordinary comments behind it. -/
structure Documents (text : List Char) (comments : List Comment) (start : Nat) (c : Comment) :
    Prop where
  mem : c ∈ comments
  isDoc : c.isDoc = true
  before : c.span.start < start
  gap : OnlyComments text comments c.span.stop start

/-- No comment nearer to `start` documents what starts there. -/
structure IsNearest (text : List Char) (comments : List Comment) (start : Nat) (c : Comment) :
    Prop extends Documents text comments start c where
  nearest : ∀ d, Documents text comments start d → d.span.start ≤ c.span.start

variable {text : List Char} {comments : List Comment} {start : Nat} {k : Comment}
  {rest : List Comment}

/-! ### The last comment in front of a place -/

/-- The comments in front of a place, the nearest first, are the nearest and those in front of
it. -/
theorem InOrder.last (ordered : InOrder text comments)
    (front : (comments.filter (·.span.start < start)).reverse = k :: rest) :
    k ∈ comments ∧ k.span.start < start ∧
    (∀ c ∈ comments, c.span.start < start → c = k ∨ c.span.stop ≤ k.span.start) ∧
    rest = (comments.filter (·.span.start < k.span.start)).reverse := by
  have split : comments.filter (·.span.start < start) = rest.reverse ++ [k] := by
    rw [← List.reverse_reverse (comments.filter _), front, List.reverse_cons]
  have mem_iff (c : Comment) : c ∈ comments ∧ c.span.start < start ↔ c ∈ rest ∨ c = k := by
    have : c ∈ comments.filter (·.span.start < start) ↔ c ∈ rest.reverse ++ [k] := by rw [split]
    simpa using this
  obtain ⟨mem, before⟩ := (mem_iff k).2 (.inr rfl)
  have earlier : ∀ c ∈ rest, c.span.stop ≤ k.span.start := by
    have apart := ordered.apart.filter (·.span.start < start)
    rw [split, List.pairwise_append] at apart
    exact fun c member => apart.2.2 c (by simpa using member) k (by simp)
  refine ⟨mem, before, ?_, ?_⟩
  · intro c member opened
    rcases (mem_iff c).1 ⟨member, opened⟩ with inner | same
    · exact .inr (earlier c inner)
    · exact .inl same
  · -- of the comments in front of `start` all but `k` open in front of `k`
    have nested : comments.filter (·.span.start < k.span.start) =
        (comments.filter (·.span.start < start)).filter (·.span.start < k.span.start) := by
      rw [List.filter_filter]
      apply List.filter_congr
      intro c _
      apply Bool.eq_iff_iff.2
      simp only [Bool.and_eq_true, decide_eq_true_eq]
      omega
    have all : rest.reverse.filter (·.span.start < k.span.start) = rest.reverse := by
      apply List.filter_eq_self.2
      intro c member
      have inner : c ∈ rest := by simpa using member
      have := earlier c inner
      have := ordered.filled c ((mem_iff c).2 (.inl inner)).1
      simp only [decide_eq_true_eq]
      omega
    simp [nested, split, all]

/-! ### One step back -/

/-- Where more than white space stands behind the last comment, none documents what follows. -/
theorem not_documents (ordered : InOrder text comments) (mem : k ∈ comments)
    (last : ∀ c ∈ comments, c.span.start < start → c = k ∨ c.span.stop ≤ k.span.start)
    {n : Nat} {x : Char} (stands : StandsAt text n x) (behind : k.span.stop ≤ n)
    (before : n < start) (other : isAsciiBlank x = false) (d : Comment) :
    ¬ Documents text comments start d := by
  intro documents
  have filled := ordered.filled k mem
  have between : d.span.stop ≤ n := by
    rcases last d documents.mem documents.before with rfl | front
    · exact behind
    · omega
  rcases documents.gap n x stands between before with blank | ⟨j, member, -, opened, closes⟩
  · rw [other] at blank
    cases blank
  · rcases last j member (by omega) with rfl | front <;> omega

/-- Behind the last comment nothing but white space stands, and it is an ordinary one: what
documents its place documents what follows it. -/
theorem documents_iff (mem : k ∈ comments) (before : k.span.start < start)
    (last : ∀ c ∈ comments, c.span.start < start → c = k ∨ c.span.stop ≤ k.span.start)
    (ordered : InOrder text comments) (ordinary : k.isDoc = false)
    (blank : ∀ n x, StandsAt text n x → k.span.stop ≤ n → n < start → isAsciiBlank x = true)
    (d : Comment) : Documents text comments k.span.start d ↔ Documents text comments start d := by
  constructor
  · intro documents
    refine ⟨documents.mem, documents.isDoc, by have := documents.before; omega, ?_⟩
    intro n x stands behind front
    by_cases inside : n < k.span.start
    · exact documents.gap n x stands behind inside
    · by_cases ended : k.span.stop ≤ n
      · exact .inl (blank n x stands ended front)
      · exact .inr ⟨k, mem, ordinary, by omega, by omega⟩
  · intro documents
    have front : d.span.stop ≤ k.span.start := by
      rcases last d documents.mem documents.before with rfl | front
      · rw [documents.isDoc] at ordinary
        cases ordinary
      · exact front
    have := ordered.filled d documents.mem
    refine ⟨documents.mem, documents.isDoc, by omega, ?_⟩
    intro n x stands behind inside
    exact documents.gap n x stands behind (by omega)

/-! ### The whole walk -/

/-- Walking back from a place over the comments in front of it finds the nearest that documents
what starts there, and nothing only if none does. The walk goes on over ordinary comments, so the
place it has come to is the start of the last one. -/
theorem attached?_eq (ordered : InOrder text comments) (place : isPlace start text = true) :
    match attached? text start (comments.filter (·.span.start < start)).reverse with
    | some doc => ∃ c, IsNearest text comments start c ∧ c.text = doc
    | none => ∀ c, ¬ Documents text comments start c := by
  generalize front : (comments.filter (·.span.start < start)).reverse = walked
  induction walked generalizing start with
  | nil =>
    intro c documents
    have member : c ∈ (comments.filter (·.span.start < start)).reverse := by
      simpa using ⟨documents.mem, documents.before⟩
    rw [front] at member
    cases member
  | cons k rest ih =>
    obtain ⟨mem, before, last, rfl⟩ := ordered.last front
    have blank_iff := Text.all_slice_iff (ordered.places k mem).2 place isAsciiBlank
    rw [attached?]
    by_cases blank : (Text.slice k.span.stop start text).all isAsciiBlank = true
    · have gap := blank_iff.1 blank
      rw [if_pos blank]
      cases doc : k.isDoc with
      | true =>
        have documents : Documents text comments start k :=
          ⟨mem, doc, before, fun n x stands behind front => .inl (gap n x stands behind front)⟩
        refine ⟨k, ⟨documents, ?_⟩, rfl⟩
        intro d other
        have := ordered.filled d other.mem
        rcases last d other.mem other.before with rfl | earlier <;> omega
      | false =>
        have same := documents_iff mem before last ordered doc gap
        have found := ih (ordered.places k mem).1 rfl
        rw [if_neg Bool.false_ne_true]
        split at found
        · obtain ⟨c, nearest, text_eq⟩ := found
          refine ⟨c, ⟨(same c).1 nearest.toDocuments, ?_⟩, text_eq⟩
          exact fun d documents => nearest.nearest d ((same d).2 documents)
        · exact fun c documents => found c ((same c).2 documents)
    · rw [if_neg blank]
      rw [blank_iff] at blank
      push Not at blank
      obtain ⟨n, x, stands, behind, inside, other⟩ := blank
      exact not_documents ordered mem last stands behind inside (Bool.eq_false_iff.2 other)

/-- Comments in order open at different places, so there is one nearest. -/
theorem IsNearest.eq (ordered : InOrder text comments) {c d : Comment}
    (first : IsNearest text comments start c) (second : IsNearest text comments start d) :
    c = d := by
  have different : comments.Pairwise fun a b => a.span.start ≠ b.span.start := by
    refine ordered.apart.imp_of_mem ?_
    intro a b mem _ apart
    have := ordered.filled a mem
    omega
  have : Std.Symm fun a b : Comment => a.span.start ≠ b.span.start := ⟨fun _ _ => Ne.symm⟩
  by_contra other
  have starts := different.forall first.mem second.mem other
  have := first.nearest d second.toDocuments
  have := second.nearest c first.toDocuments
  omega

/-- The doc comment of a node is the nearest doc comment that opens in front of the node with
nothing but white space and ordinary comments between the two. Where there is no such comment,
there is no doc comment of the node. -/
theorem docComment?_eq_some_iff (r : Reading) (ordered : InOrder r.text r.program.comments)
    (start : Nat) (place : isPlace start r.text = true) :
    (∀ doc, r.docComment? start = some doc ↔
      ∃ c, IsNearest r.text r.program.comments start c ∧ c.text = doc) ∧
    (r.docComment? start = none ↔ ∀ c, ¬ Documents r.text r.program.comments start c) := by
  have walk := attached?_eq ordered place
  rw [← Reading.docComment?] at walk
  split at walk
  · rename_i doc found
    obtain ⟨c, nearest, rfl⟩ := walk
    rw [found]
    refine ⟨fun doc => ⟨?_, ?_⟩, ?_⟩
    · intro same
      exact ⟨c, nearest, Option.some.inj same⟩
    · rintro ⟨d, other, rfl⟩
      rw [nearest.eq ordered other]
    · exact iff_of_false nofun fun none => none c nearest.toDocuments
  · rename_i found
    rw [found]
    refine ⟨fun doc => iff_of_false nofun ?_, iff_of_true rfl walk⟩
    rintro ⟨c, nearest, -⟩
    exact walk c nearest.toDocuments

/-! ### The comments of a source -/

/-- The comment that a lexeme at byte `at_` is. -/
def Lexeme.comment? (l : Lexeme) (at_ : Nat) : Option Comment :=
  let span : Span := ⟨at_, at_ + byteLength l.text⟩
  match l.kind with
  | .comment => some ⟨span, false, String.ofList l.text⟩
  | .docComment => some ⟨span, true, String.ofList l.text⟩
  | _ => none

/-- The comments among lexemes of which the first starts at byte `at_`. -/
def commentsFrom (at_ : Nat) : List Lexeme → List Comment
  | [] => []
  | l :: ls => (l.comment? at_).toList ++ commentsFrom (at_ + byteLength l.text) ls

theorem comments_foldl (ls : List Lexeme) (s : Scanned) (at_ : Nat) :
    (ls.foldl (fun (acc : Scanned × Nat) l =>
      (acc.1.add acc.2 l, acc.2 + byteLength l.text)) (s, at_)).1.comments =
      (commentsFrom at_ ls).reverse ++ s.comments := by
  induction ls generalizing s at_ with
  | nil => rfl
  | cons l ls ih =>
    obtain ⟨kind, text⟩ := l
    rw [List.foldl_cons, ih, commentsFrom]
    cases kind <;> simp [Scanned.add, Lexeme.comment?]

theorem comments_scan (source : String) :
    (scan source).comments = commentsFrom 0 (lexemes false source.toList) := by
  rw [scan, Scanned.ofLexemes]
  simp [comments_foldl]

theorem text_ne_nil {inCode : Bool} {s : List Char} {l : Lexeme} (mem : l ∈ lexemes inCode s) :
    l.text ≠ [] := by
  fun_induction lexemes inCode s with
  | case1 => cases mem
  | case2 inCode c rest kind n head ih =>
    rcases List.mem_cons.1 mem with rfl | mem
    · exact List.cons_ne_nil c _
    · exact ih mem

/-- Comments among the lexemes behind a text stand behind it, one after another. -/
theorem inOrder_commentsFrom {ls : List Lexeme} (filled : ∀ l ∈ ls, l.text ≠ [])
    (front : List Char) :
    InOrder (front ++ textOf ls) (commentsFrom (byteLength front) ls) ∧
      ∀ c ∈ commentsFrom (byteLength front) ls, byteLength front ≤ c.span.start := by
  induction ls generalizing front with
  | nil => exact ⟨⟨.nil, nofun, nofun⟩, nofun⟩
  | cons l ls ih =>
    obtain ⟨first, others⟩ := List.forall_mem_cons.1 filled
    obtain ⟨ordered, behind⟩ := ih others (front ++ l.text)
    have whole : front ++ textOf (l :: ls) = front ++ l.text ++ textOf ls := by simp [textOf]
    have length : byteLength (front ++ l.text) = byteLength front + byteLength l.text :=
      Text.byteLength_append front l.text
    rw [← whole, length] at ordered
    rw [length] at behind
    rw [commentsFrom]
    cases comment : l.comment? (byteLength front) with
    | none =>
      refine ⟨by simpa using ordered, ?_⟩
      intro c mem
      have := behind c (by simpa using mem)
      omega
    | some k =>
      have span : k.span = ⟨byteLength front, byteLength front + byteLength l.text⟩ := by
        unfold Lexeme.comment? at comment
        dsimp only at comment
        split at comment
        · rw [← Option.some.inj comment]
        · rw [← Option.some.inj comment]
        · cases comment
      have positive : 0 < byteLength l.text := by
        obtain ⟨c, rest, text⟩ := List.exists_cons_of_ne_nil first
        have := c.utf8Size_pos
        rw [text, Text.byteLength_cons]
        omega
      have places : isPlace k.span.start (front ++ textOf (l :: ls)) = true ∧
          isPlace k.span.stop (front ++ textOf (l :: ls)) = true := by
        rw [span]
        exact ⟨Text.isPlace_iff.2 ⟨front, _, rfl, rfl⟩, Text.isPlace_iff.2 ⟨_, _, whole, length⟩⟩
      refine ⟨⟨?_, ?_, ?_⟩, ?_⟩
      · refine List.pairwise_cons.2 ⟨?_, ordered.apart⟩
        intro c mem
        rw [span]
        exact behind c mem
      · refine List.forall_mem_cons.2 ⟨?_, ordered.filled⟩
        rw [span]
        simpa using positive
      · exact List.forall_mem_cons.2 ⟨places, ordered.places⟩
      · refine List.forall_mem_cons.2 ⟨by simp [span], ?_⟩
        intro c mem
        have := behind c mem
        omega

/-- The comments of a source are in order, in the text that it is read as. -/
theorem inOrder_of (source : String) :
    InOrder (Reading.of source).text (Reading.of source).program.comments := by
  have filled : ∀ l ∈ lexemes false (Reading.of source).text, l.text ≠ [] := fun _ => text_ne_nil
  have ordered := (inOrder_commentsFrom filled []).1
  have whole : textOf (lexemes false (Reading.of source).text) = (Reading.of source).text :=
    flatten_lexemes false _
  have comments : (Reading.of source).program.comments =
      commentsFrom 0 (lexemes false (Reading.of source).text) := by
    rw [Reading.program_eq]
    have scanned := comments_scan (String.ofList (Reading.of source).text)
    rwa [String.toList_ofList] at scanned
  rw [comments]
  rwa [whole] at ordered

/-! ### A function with two doc comments in front of it -/

def commented : String := "<?php /**A*/ /**B*/ #c\n/*d*/ function f(){}"

set_option maxRecDepth 100000 in
theorem docComment?_commented :
    (Reading.of commented).text = commented.toList ∧
    isPlace 29 (Reading.of commented).text = true ∧
    (Reading.of commented).docComment? 29 = some "/**B*/" ∧
    ∃ c, IsNearest (Reading.of commented).text (Reading.of commented).program.comments 29 c ∧
      c.text = "/**B*/" := by
  have text : (Reading.of commented).text = commented.toList := by cbv
  have place : isPlace 29 (Reading.of commented).text = true := by
    rw [text]
    decide
  have found : (Reading.of commented).docComment? 29 = some "/**B*/" := by cbv
  have iff := docComment?_eq_some_iff (Reading.of commented) (inOrder_of commented) 29 place
  exact ⟨text, place, found, (iff.1 _).1 found⟩

end PhpSymbols.Php
