import PhpSymbols.Ty.Basic
import PhpSymbols.Ty.Expression

/-!
Reading type expressions. `Resolver.resolve` reads one expression, `resolveAll` the alternatives of
one value, and `resolveDeclared` weighs a native hint against its documentation. Every type they
build goes through the canonical constructors of `Ty`.
-/

namespace PhpSymbols

/-- What an unrecognised member of a union stands for. -/
inductive UnresolvedPolicy where
  /-- It stands for anything, so the union becomes `mixed`. -/
  | mixed
  /-- It is left out; a union with nothing left is `mixed`. -/
  | ignore
  deriving DecidableEq, Repr, Inhabited

structure Resolver where
  policy : UnresolvedPolicy := .mixed
  deriving DecidableEq, Repr, Inhabited

namespace Ty

/-- Each spelling of a built-in, in lower case, with the name it is shown by. -/
def scalarSpellings : List (String × String) := [
  ("int", "int"), ("integer", "int"), ("float", "float"), ("double", "float"),
  ("string", "string"), ("bool", "bool"), ("boolean", "bool"), ("array", "array"),
  ("callable", "callable"), ("iterable", "iterable"), ("object", "object"), ("void", "void"),
  ("never", "never"), ("null", "null"), ("false", "false"), ("true", "true"),
  ("resource", "resource"), ("array-key", "array-key"), ("class-string", "class-string"),
  ("list", "list"), ("non-empty-string", "non-empty-string"), ("positive-int", "positive-int")]

/-- The built-in spelled `name`, in any letter case. -/
def scalarOfSpelling? (name : List Char) : Option Ty :=
  (scalarSpellings.lookup (String.ofList (Text.lower name))).map .scalar

/-- Bases whose last generic argument is the type of the elements. -/
def iterableBases : List String :=
  ["array", "list", "iterable", "non-empty-array", "non-empty-list"]

end Ty

namespace Resolver
open Ty Ty.Expression

-- The equations of the matches below are read by the termination proofs only.
set_option linter.unusedVariables false

/-- What an unrecognised token contributes to a union. -/
def unrecognised (r : Resolver) : List Ty :=
  match r.policy with
  | .mixed => [.mixed]
  | .ignore => []

/-- A token with no bracket, question mark or suffix: `mixed`, a built-in or a class. -/
def readName (token : List Char) : Option Ty :=
  if Text.lower token = "mixed".toList then some .mixed
  else match scalarOfSpelling? token with
    | some t => some t
    | none => if isClassName token then some (Ty.ofClass (String.ofList token)) else none

/-- An array or object shape: only its base is kept. -/
def readShape (base : List Char) : Option Ty :=
  let name := String.ofList (Text.lower base)
  if name = "array" ∨ name = "list" then some (.scalar "array")
  else if name = "object" then some (.scalar "object")
  else none

/-- A callable signature: only its base is kept. -/
def readSignature (base : List Char) : Option Ty :=
  let name := String.ofList (Text.lower base)
  if name = "callable" then some (.scalar "callable")
  else if name = "closure" then some (.classRef "Closure")
  else none

/-- What stands between a leading `l` and a trailing `r`. -/
def between? (l r : Char) : List Char → Option (List Char)
  | [] => none
  | c :: s => if c = l then Text.beforeLast? r s else none

theorem length_between? {l r : Char} {s inner : List Char} (h : between? l r s = some inner) :
    inner.length < s.length := by
  cases s with
  | nil => simp [between?] at h
  | cons c s =>
    simp only [between?, Text.beforeLast?] at h
    split at h
    · split at h
      · simp only [Option.some.injEq] at h
        subst h
        simp only [List.length_dropLast, List.length_cons]
        omega
      · simp at h
    · simp at h

theorem length_breakOn {p : Char → Bool} {s before after : List Char}
    (h : Text.breakOn p s = (before, after)) : before.length + after.length = s.length := by
  simp only [Text.breakOn, Prod.mk.injEq] at h
  obtain ⟨rfl, rfl⟩ := h
  rw [← List.length_append, List.takeWhile_append_dropWhile]

/-- The last of the generic arguments: the type of the elements. -/
def lastArgument (arguments : List Char) : List Char := (splitCommas arguments).getLast?.getD []

theorem length_lastArgument_le (arguments : List Char) :
    (lastArgument arguments).length ≤ arguments.length := by
  unfold lastArgument
  cases h : (splitCommas arguments).getLast? with
  | none => simp
  | some part => exact length_of_mem_splitCommas (List.mem_of_getLast? h)

mutual
/-- The type that an expression names; unknown when it names none. -/
def resolve (r : Resolver) (expression : List Char) : Ty :=
  match _ : splitUnion (Text.trim expression) with
  | [token] => (resolveToken r token).getD .unknown
  | tokens =>
    match tokens.attach.flatMap fun ⟨token, _⟩ =>
        match resolveToken r token with
        | some t => [t]
        | none => r.unrecognised with
    | [] => .mixed
    | ts => Ty.join ts
termination_by (expression.length, 1)
decreasing_by
  · apply Prod.Lex.right'
    · exact Nat.le_trans (length_of_mem_splitUnion (by simp_all)) (Text.length_trim_le _)
    · decide
  · apply Prod.Lex.right'
    · exact Nat.le_trans (length_of_mem_splitUnion (by simp_all)) (Text.length_trim_le _)
    · decide

/-- The type that one member of a union names. -/
def resolveToken (r : Resolver) (raw : List Char) : Option Ty :=
  match cleaned : clean raw with
  | [] => none
  | c :: rest =>
    match grouped : between? '(' ')' (c :: rest) with
    | some inner => match resolve r inner with
        | .unknown => none
        | t => some t
    | none =>
      if c = '?' then (resolveToken r rest).map Ty.orNull
      else match suffixed : Text.ahead? "[]".toList (c :: rest) with
        | some element => (resolveToken r element).map .arrayOf
        | none =>
          match opened : Text.breakOn (fun d => d == '<' || d == '{' || d == '(') (c :: rest) with
          | (name, []) => readName name
          | (base, '{' :: _) => readShape base
          | (base, '(' :: _) => readSignature base
          | (base, generics) =>
            match enclosed : between? '<' '>' generics with
            | none => none
            | some arguments =>
              if iterableBases.contains (String.ofList (Text.lower base)) then
                match resolve r (lastArgument arguments) with
                | .unknown => some (.arrayOf .mixed)
                | t => some (.arrayOf t)
              else if Text.lower base = "class-string".toList then some (.scalar "class-string")
              else if isClassName base then some (Ty.ofClass (String.ofList base))
              else none
termination_by (raw.length, 0)
decreasing_by
  all_goals
    have bound := length_clean_le raw
    rw [cleaned] at bound
    simp only [List.length_cons] at bound
    apply Prod.Lex.left
  · have := length_between? grouped
    simp only [List.length_cons] at this
    omega
  · omega
  · have := congrArg List.length (Text.ahead?_eq_some_iff.1 suffixed)
    have two : "[]".toList.length = 2 := by decide
    simp only [List.length_cons, List.length_append] at this
    omega
  · have inner := length_between? enclosed
    have cut := length_breakOn opened
    have last := length_lastArgument_le arguments
    simp only [List.length_cons] at cut
    omega
end

/-- The union of what several expressions for one value name. -/
def resolveAll (r : Resolver) (expressions : List String) : Ty :=
  Ty.join (expressions.map fun e => r.resolve e.toList)

/-- The type of what has a native hint, a documented type, both or neither. Documentation makes
a broad hint precise; next to any other hint the two are alternatives. -/
def resolveDeclared (r : Resolver) : (native documented : Option String) → Ty
  | none, none => .unknown
  | some native, none => r.resolve native.toList
  | none, some documented => r.resolve documented.toList
  | some native, some documented =>
    let native := r.resolve native.toList
    let documented := r.resolve documented.toList
    if documented.isUnknown then native
    else if native.isRefinable then documented
    else Ty.join [native, documented]

end Resolver
end PhpSymbols
