import PhpSymbols.Text.Cut

/-!
Places in a text counted in bytes of its UTF-8 form. A place inside a character is not one of the
text, and a cut there gives nothing.
-/

namespace PhpSymbols.Text

/-- The number of bytes that a text takes. -/
def byteLength : List Char → Nat
  | [] => 0
  | c :: s => c.utf8Size + byteLength s

/-- The text from byte `n` on. -/
def dropBytes? : (n : Nat) → List Char → Option (List Char)
  | 0, s => some s
  | _ + 1, [] => none
  | n + 1, c :: s => if c.utf8Size ≤ n + 1 then dropBytes? (n + 1 - c.utf8Size) s else none

/-- The text before byte `n`. -/
def takeBytes? : (n : Nat) → List Char → Option (List Char)
  | 0, _ => some []
  | _ + 1, [] => none
  | n + 1, c :: s =>
    if c.utf8Size ≤ n + 1 then (takeBytes? (n + 1 - c.utf8Size) s).map (c :: ·) else none

/-- Whether byte `n` starts a character or ends the text. -/
def isPlace (n : Nat) (s : List Char) : Bool := (dropBytes? n s).isSome

/-- Offsets are kept in 32 bits. -/
def offsetLimit : Nat := UInt32.size

/-- Whether byte `n` can be asked for: it is a place of `s`, and an offset can tell it. -/
def isOffset (n : Nat) (s : List Char) : Bool := isPlace n s && n < offsetLimit

/-- The text from byte `start` up to byte `stop`; empty if the two are no places of `s` in order. -/
def slice (start stop : Nat) (s : List Char) : List Char :=
  if start ≤ stop then ((dropBytes? start s).bind (takeBytes? (stop - start))).getD [] else []

@[simp] theorem byteLength_nil : byteLength [] = 0 := rfl

@[simp] theorem byteLength_cons (c : Char) (s : List Char) :
    byteLength (c :: s) = c.utf8Size + byteLength s := rfl

theorem byteLength_append (s t : List Char) :
    byteLength (s ++ t) = byteLength s + byteLength t := by
  induction s with
  | nil => simp
  | cons c s ih => simp [ih, Nat.add_assoc]

end PhpSymbols.Text
