import PhpSymbols.Text.Cut
import PhpSymbols.Text.Letter

/-!
Type expressions as written in hints and doc comments, before they are read as types. Brackets of
all kinds share one depth count, which may go below zero on text that is not well bracketed.
-/

namespace PhpSymbols.Ty.Expression
open Text

/-- The depth after `c`: an opening bracket raises it and a closing one lowers it. -/
def depthAfter (c : Char) (depth : Int) : Int :=
  if c = '<' ∨ c = '(' ∨ c = '{' ∨ c = '[' then depth + 1
  else if c = '>' ∨ c = ')' ∨ c = '}' ∨ c = ']' then depth - 1
  else depth

/-- The parts of a text between the separators that stand outside all brackets. -/
def splitTop (separator : Char) (s : List Char) (depth : Int := 0) : List (List Char) :=
  match s with
  | [] => [[]]
  | c :: rest =>
    if c = separator ∧ depth = 0 then [] :: splitTop separator rest depth
    else match splitTop separator rest (depthAfter c depth) with
      | [] => [[c]]
      | part :: parts => (c :: part) :: parts

/-- The members of a written union. -/
def splitUnion (s : List Char) : List (List Char) := (splitTop '|' s).map trim

/-- Generic arguments, or the parameters of a written signature. -/
def splitCommas (s : List Char) : List (List Char) := (splitTop ',' s).map trim

/-- Reads one type off the start of a tag: up to the first white space outside angle brackets,
parentheses and braces. Returns the type and the text after it. -/
def takeToken (s : List Char) (depth : Int := 0) : List Char × List Char :=
  match s with
  | [] => ([], [])
  | c :: rest =>
    if isBlank c ∧ depth ≤ 0 then ([], c :: rest)
    else
      let (token, after) := takeToken rest <|
        if c = '<' ∨ c = '(' ∨ c = '{' then depth + 1
        else if c = '>' ∨ c = ')' ∨ c = '}' then depth - 1
        else depth
      (c :: token, after)

/-- A type as it stands in prose, without one leading backslash and the full stops and commas
that end a sentence. -/
def clean (s : List Char) : List Char :=
  trimEndWhile (fun c => c == '.' || c == ',') (stripFirst '\\' (trim s))

/-- A letter or underscore, then letters, digits and underscores. -/
def isNameSegment : List Char → Bool
  | [] => false
  | c :: rest => (c == '_' || isAlphabetic c) && rest.all fun d => d == '_' || isAlphanumeric d

/-- Whether `s` is a class name: segments between backslashes, perhaps after a leading one. -/
def isClassName (s : List Char) : Bool :=
  ((stripFirst '\\' s).splitOn '\\').all isNameSegment

theorem length_clean_le (s : List Char) : (clean s).length ≤ s.length :=
  Nat.le_trans (length_trimEndWhile_le _ _)
    (Nat.le_trans (length_stripFirst_le _ _) (length_trim_le s))

theorem length_of_mem_splitTop {separator : Char} {s : List Char} {depth : Int} {part : List Char}
    (h : part ∈ splitTop separator s depth) : part.length ≤ s.length := by
  induction s generalizing depth part with
  | nil => simp_all [splitTop]
  | cons c rest ih =>
    unfold splitTop at h
    split at h
    · rcases List.mem_cons.1 h with rfl | h
      · simp
      · exact Nat.le_succ_of_le (ih h)
    · split at h
      · simp_all
      · rename_i first parts heq
        rcases List.mem_cons.1 h with rfl | h
        · exact Nat.succ_le_succ (ih (heq ▸ List.mem_cons_self))
        · exact Nat.le_succ_of_le (ih (heq ▸ List.mem_cons_of_mem _ h))

theorem length_of_mem_splitUnion {s part : List Char} (h : part ∈ splitUnion s) :
    part.length ≤ s.length := by
  obtain ⟨raw, hraw, rfl⟩ := List.mem_map.1 h
  exact Nat.le_trans (length_trim_le raw) (length_of_mem_splitTop hraw)

theorem length_of_mem_splitCommas {s part : List Char} (h : part ∈ splitCommas s) :
    part.length ≤ s.length := by
  obtain ⟨raw, hraw, rfl⟩ := List.mem_map.1 h
  exact Nat.le_trans (length_trim_le raw) (length_of_mem_splitTop hraw)

end PhpSymbols.Ty.Expression
