import PhpSymbols.Text.Cut

/-!
Markup in prose. A tag is a less-than sign before a letter, a slash or an exclamation mark, up to
the next greater-than sign. A less-than sign that opens no tag, or never closes, is text.
-/

namespace PhpSymbols.Markup
open Text

/-- Whether the text after a less-than sign makes it the start of a tag. -/
def opensTag : List Char → Bool
  | [] => false
  | c :: _ => c.isAlpha || c == '/' || c == '!'

/-- The text after the tag that opened before `s`, if it closes. -/
def afterTag? (s : List Char) : Option (List Char) :=
  if opensTag s then
    match s.dropWhile (· != '>') with
    | [] => none
    | _ :: rest => some rest
  else none

theorem length_afterTag? {s rest : List Char} (h : afterTag? s = some rest) :
    rest.length < s.length := by
  unfold afterTag? at h
  split at h
  · have bound := length_dropWhile_le (· != '>') s
    split at h
    · simp at h
    · rename_i heq
      rw [heq] at bound
      simp only [Option.some.injEq] at h
      subst h
      simp only [List.length_cons] at bound
      omega
  · simp at h

/-- `s` with its tags taken out. -/
def removeTags (s : List Char) : List Char :=
  match s with
  | [] => []
  | c :: s =>
    if c = '<' then
      match _h : afterTag? s with
      | some rest => removeTags rest
      | none => c :: removeTags s
    else c :: removeTags s
termination_by s.length
decreasing_by
  · have := length_afterTag? _h
    simp only [List.length_cons]
    omega
  all_goals simp

/-- The prose without its tags and without white space at its ends. -/
def strip (text : String) : String := String.ofList (trim (removeTags text.toList))

end PhpSymbols.Markup
