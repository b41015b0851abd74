import PhpSymbols.Php.Lexer
import PhpSymbols.Proofs.Text.StandsAt

/-!
# Tokens in their source

* `mem_tokens_scan`: each token of a source is one of its lexemes, and its span says where the
  lexeme stands;
* `opens_at`, `closes_at`: where a token that is known by a brace stands, the source has the brace;
* `not_mem_of_word`: there is no backslash in a word;
* `codeLexeme_name`: how far a lexeme that is a name reaches.
-/

namespace PhpSymbols.Php
open Text (byteLength StandsAt)

/-- The token of a lexeme that starts at byte `at_`. -/
def Lexeme.token (l : Lexeme) (at_ : Nat) : Token :=
  ⟨l.kind, String.ofList l.text, ⟨at_, at_ + byteLength l.text⟩, l.key⟩

/-- All that the lexemes cover. -/
def textOf (ls : List Lexeme) : List Char := (ls.map (·.text)).flatten

theorem mem_tokens_add {s : Scanned} {at_ : Nat} {l : Lexeme} {t : Token}
    (h : t ∈ (s.add at_ l).tokens) : t ∈ s.tokens ∨ t = l.token at_ := by
  rw [Scanned.add] at h
  obtain ⟨kind, text⟩ := l
  cases kind with
  | blank | comment | docComment => exact .inl h
  | _ => exact (Array.mem_push.1 h).imp_right id

/-- Placing lexemes one after the other, `t` comes from one of them. -/
theorem mem_tokens_foldl {ls : List Lexeme} {s : Scanned} {at_ : Nat} {t : Token}
    (h : t ∈ (ls.foldl (fun (acc : Scanned × Nat) l =>
      (acc.1.add acc.2 l, acc.2 + byteLength l.text)) (s, at_)).1.tokens) :
    t ∈ s.tokens ∨ ∃ before l behind, ls = before ++ l :: behind ∧
      t = l.token (at_ + byteLength (textOf before)) := by
  induction ls generalizing s at_ with
  | nil => exact .inl h
  | cons l ls ih =>
    rcases ih h with here | ⟨before, k, behind, rfl, rfl⟩
    · refine (mem_tokens_add here).imp_right fun same => ?_
      exact ⟨[], l, ls, rfl, same⟩
    · refine .inr ⟨l :: before, k, behind, rfl, ?_⟩
      change k.token (at_ + byteLength l.text + byteLength (textOf before)) =
        k.token (at_ + byteLength (l.text ++ textOf before))
      rw [Text.byteLength_append, Nat.add_assoc]

theorem mem_tokens_scan {source : String} {t : Token} (h : t ∈ (scan source).tokens) :
    (t.kind = .ending ∧ t.key = "") ∨ ∃ before l behind,
      lexemes false source.toList = before ++ l :: behind ∧
        t = l.token (byteLength (textOf before)) := by
  rw [scan, Scanned.ofLexemes] at h
  rcases Array.mem_push.1 h with h | rfl
  · rcases mem_tokens_foldl h with none | ⟨before, l, behind, split, same⟩
    · exact absurd none (Array.not_mem_empty t)
    · exact .inr ⟨before, l, behind, split, by rw [same, Nat.zero_add]⟩
  · exact .inl ⟨rfl, rfl⟩

/-- Where a lexeme stands, the source has its text. -/
theorem toList_eq_of_lexemes {source : String} {before behind : List Lexeme} {l : Lexeme}
    (split : lexemes false source.toList = before ++ l :: behind) :
    source.toList = textOf before ++ (l.text ++ textOf behind) := by
  rw [← flatten_lexemes false source.toList, split, List.map_append, List.map_cons,
    List.flatten_append, List.flatten_cons]
  rfl

/-- A lexeme that is known by a character other than a letter, such as a brace, is the character. -/
theorem text_of_key {l : Lexeme} {c : Char} (other : c.isLower = false) (key : l.key.toList = [c]) :
    l.text = [c] := by
  obtain ⟨kind, text⟩ := l
  cases kind with
  | punctuation => rwa [Lexeme.key, String.toList_ofList] at key
  | word =>
    rw [Lexeme.key, String.toList_ofList] at key
    obtain ⟨d, rfl, lower⟩ := List.map_eq_singleton_iff.1 key
    rw [Text.eq_of_toLower other lower]
  | _ => exact absurd key nofun

theorem opens_at {source : String} {t : Token} (mem : t ∈ (scan source).tokens)
    (key : t.key = "\x7b") : StandsAt source.toList t.span.start '\x7b' := by
  rcases mem_tokens_scan mem with ⟨-, none⟩ | ⟨before, l, behind, split, rfl⟩
  · exact absurd (none.symm.trans key) (by decide)
  · have text : l.text = ['\x7b'] := text_of_key (by decide) (congrArg String.toList key)
    refine ⟨textOf before, textOf behind, ?_, rfl⟩
    rw [toList_eq_of_lexemes split, text]
    rfl

theorem closes_at {source : String} {t : Token} (mem : t ∈ (scan source).tokens)
    (key : t.key = "\x7d") : ∃ n, t.span.stop = n + 1 ∧ StandsAt source.toList n '\x7d' := by
  rcases mem_tokens_scan mem with ⟨-, none⟩ | ⟨before, l, behind, split, rfl⟩
  · exact absurd (none.symm.trans key) (by decide)
  · have text : l.text = ['\x7d'] := text_of_key (by decide) (congrArg String.toList key)
    refine ⟨byteLength (textOf before), ?_, textOf before, textOf behind, ?_, rfl⟩
    · rw [Lexeme.token, text]
      rfl
    · rw [toList_eq_of_lexemes split, text]
      rfl

theorem key_of_ending {source : String} {t : Token} (mem : t ∈ (scan source).tokens)
    (ends : t.kind = .ending) : t.key = "" := by
  rcases mem_tokens_scan mem with ⟨-, none⟩ | ⟨before, ⟨kind, text⟩, behind, split, rfl⟩
  · exact none
  · obtain rfl : kind = .ending := ends
    rfl

/-! ### Names -/

/-- Whether lexemes of this kind are names. -/
def LexemeKind.isName : LexemeKind → Bool
  | .var | .word | .qualified | .rooted => true
  | _ => false

theorem stringLexeme_not_name (s : List Char) (e : Enclosure) :
    (stringLexeme s e).1.isName = false := by
  rw [stringLexeme]
  split
  · rfl
  · dsimp only
    split <;> rfl

theorem decimalLexeme_not_name (s : List Char) : (decimalLexeme s).1.isName = false := by
  unfold decimalLexeme
  dsimp only
  generalize fractionLength _ + _ = n
  split <;> rfl

theorem numberLexeme_not_name (s : List Char) : (numberLexeme s).1.isName = false := by
  rw [numberLexeme.eq_def]
  split
  · split
    · rfl
    · split
      · rfl
      · exact decimalLexeme_not_name _
  · exact decimalLexeme_not_name _

theorem punctuationLexeme_not_name (s : List Char) : (punctuationLexeme s).1.isName = false := by
  rw [punctuationLexeme.eq_def]
  split
  · rfl
  · split
    · split <;> rfl
    · rfl

theorem heredocLexeme?_not_name {s : List Char} {found : LexemeKind × Nat}
    (h : heredocLexeme? s = some found) : found.1.isName = false := by
  unfold heredocLexeme? at h
  obtain ⟨-, h⟩ := Option.ite_none_right_eq_some.1 h
  obtain rfl := Option.some.inj h
  split <;> rfl

theorem blockCommentLexeme_not_name (s : List Char) : (blockCommentLexeme s).1.isName = false := by
  rw [blockCommentLexeme]
  dsimp only
  split <;> rfl

/-- The ways in which a name is cut off: behind a backslash, behind a dollar sign, and as a word
with the segments behind it. -/
theorem codeLexeme_name {c : Char} {rest : List Char}
    (name : (codeLexeme (c :: rest)).1.isName = true) :
    (c = '\\' ∧ codeLexeme (c :: rest) = (.rooted, 1 + nameLength rest)) ∨
    (c = '$' ∧ codeLexeme (c :: rest) = (.var, 1 + runLength isNameChar rest)) ∨
    isNameStart c = true ∧ codeLexeme (c :: rest) =
      (if ((c :: rest).take (wordLength (c :: rest))).contains '\\' then .qualified else .word,
        wordLength (c :: rest)) := by
  have other {k : LexemeKind} (none : k.isName = false) (is : k.isName = true) : False := by
    simp [none] at is
  unfold codeLexeme at name ⊢
  split at name
  case h_4 => exact (other (blockCommentLexeme_not_name _) name).elim
  case h_5 | h_6 | h_7 => exact (other (stringLexeme_not_name _ _) name).elim
  case h_8 =>
    cases found : heredocLexeme? (c :: rest) with
    | none =>
      rw [found] at name
      exact (other (punctuationLexeme_not_name _) name).elim
    | some =>
      rw [found] at name
      exact (other (heredocLexeme?_not_name found) name).elim
  case h_9 | h_12 => split at name <;> exact absurd name nofun
  case h_10 s rest' same =>
    obtain ⟨rfl, rfl⟩ := List.cons.inj same
    split at name
    · rename_i starts
      exact .inl ⟨rfl, if_pos starts⟩
    · exact absurd name nofun
  case h_11 s rest' same =>
    obtain ⟨rfl, rfl⟩ := List.cons.inj same
    split at name
    · rename_i starts
      exact .inr (.inl ⟨rfl, if_pos starts⟩)
    · exact absurd name nofun
  case h_13 d s _ _ _ _ _ _ _ _ _ _ _ same =>
    obtain ⟨rfl, rfl⟩ := List.cons.inj same
    split at name
    · exact absurd name nofun
    · rename_i notBlank
      split at name
      · rename_i starts
        rw [if_neg notBlank, if_pos starts]
        exact .inr (.inr ⟨starts, rfl⟩)
      · split at name
        · exact (other (numberLexeme_not_name _) name).elim
        · exact (other (punctuationLexeme_not_name _) name).elim
  all_goals exact absurd name nofun

/-- A word is a name, and one with a backslash in it is no word. -/
theorem codeLexeme_word {c : Char} {rest : List Char} (word : (codeLexeme (c :: rest)).1 = .word) :
    isNameStart c = true ∧ '\\' ∉ (c :: rest).take (codeLexeme (c :: rest)).2 := by
  rcases codeLexeme_name (by rw [word]; rfl) with ⟨-, is⟩ | ⟨-, is⟩ | ⟨starts, is⟩
  · exact absurd (word.symm.trans (congrArg Prod.fst is)) nofun
  · exact absurd (word.symm.trans (congrArg Prod.fst is)) nofun
  · refine ⟨starts, ?_⟩
    have kind := word.symm.trans (congrArg Prod.fst is)
    rw [is]
    dsimp only at kind ⊢
    split at kind
    · exact absurd kind nofun
    · rename_i none
      simpa using none

/-- There are no names outside code. -/
theorem isName_headLexeme (s : List Char) : (headLexeme false s).1.isName = false := by
  rw [headLexeme.eq_def, if_neg Bool.false_ne_true]
  split
  · rw [openTagLexeme]
    split
    · rfl
    · split <;> rfl
  · rfl

theorem headLexeme_word {inCode : Bool} {c : Char} {rest : List Char}
    (word : (headLexeme inCode (c :: rest)).1 = .word) :
    '\\' ∉ c :: rest.take ((headLexeme inCode (c :: rest)).2 - 1) := by
  cases inCode with
  | false =>
    have other := isName_headLexeme (c :: rest)
    rw [word] at other
    exact absurd other nofun
  | true =>
    change (codeLexeme (c :: rest)).1 = .word at word
    change '\\' ∉ c :: rest.take ((codeLexeme (c :: rest)).2 - 1)
    obtain ⟨starts, none⟩ := codeLexeme_word word
    cases length : (codeLexeme (c :: rest)).2 with
    | zero =>
      intro mem
      rw [← List.mem_singleton.1 mem] at starts
      exact absurd starts (by decide)
    | succ n => rwa [length, List.take_succ_cons] at none

theorem not_mem_of_mem_lexemes {inCode : Bool} {s : List Char} {l : Lexeme}
    (mem : l ∈ lexemes inCode s) (word : l.kind = .word) : '\\' ∉ l.text := by
  fun_induction lexemes inCode s with
  | case1 => exact absurd mem List.not_mem_nil
  | case2 inCode c rest kind n head ih =>
    rcases List.mem_cons.1 mem with rfl | mem
    · have none := headLexeme_word ((congrArg Prod.fst head).trans word)
      rwa [head] at none
    · exact ih mem

/-- There is no backslash in a word. -/
theorem not_mem_of_word {source : String} {t : Token} (mem : t ∈ (scan source).tokens)
    (word : t.kind = .word) : '\\' ∉ t.text.toList := by
  rcases mem_tokens_scan mem with ⟨ends, -⟩ | ⟨before, l, behind, split, rfl⟩
  · exact absurd (ends.symm.trans word) (by decide)
  · have mem : l ∈ lexemes false source.toList := by simp [split]
    change '\\' ∉ (String.ofList l.text).toList
    rw [String.toList_ofList]
    exact not_mem_of_mem_lexemes mem word

end PhpSymbols.Php
