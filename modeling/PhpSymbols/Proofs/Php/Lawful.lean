import PhpSymbols.Proofs.Php.Mended
import PhpSymbols.Proofs.Php.Names

/-!
# What readers of sources keep to

Most of what holds of a source follows from the program it is read as, whoever reads it. Some of it
takes that declarations are what the text says, which the grammar keeps to.

* `Declared.WellRead`: a declaration has the names and the braces of a text;
* `LawfulFrontend`: whatever is declared in a source is well read, as it is by the grammar;
* `Declared.wellRead`: so it is in the text of a reading, mended or not.
-/

namespace PhpSymbols
open Php Text

/-- The name of a declaration, without its namespace. -/
def Declared.short : Declared → String
  | .classLike _ d => d.name
  | .function _ d => d.name

/-- The span is from an opening brace of the text to behind a closing one. -/
def AreBracesIn (text : List Char) (span : Span) : Prop :=
  StandsAt text span.start '\x7b' ∧ ∃ n, span.stop = n + 1 ∧ StandsAt text n '\x7d'

/-- What a declaration takes from the text that it is read from. -/
structure Declared.WellRead (text : List Char) (d : Declared) : Prop where
  /-- A name is declared by a word, which is not qualified. -/
  short : '\\' ∉ d.short.toList
  names : ∀ n ∈ d.names, IsOneLine n
  braces : ∀ ns c, d = .classLike ns c → AreBracesIn text c.braces

/-- All that is declared in a source is well read. -/
class Php.LawfulFrontend [Frontend] : Prop where
  wellRead (source : String) : ∀ d ∈ declaredByAll none (Frontend.parse source).statements,
    d.WellRead source.toList

/-! ### The grammar -/

theorem areBracesIn_of_areBracesAmong {source : String} {span : Span}
    (braces : AreBracesAmong (scan source).tokens span) : AreBracesIn source.toList span := by
  obtain ⟨⟨t, mem, key, start⟩, t', mem', key', stop⟩ := braces
  constructor
  · rw [← start]
    exact opens_at mem key
  · rw [← stop]
    exact closes_at mem' key'

theorem not_mem_of_isWordAmong {source name : String}
    (word : IsWordAmong (scan source).tokens name) : '\\' ∉ name.toList := by
  obtain ⟨t, mem, isWord, rfl⟩ := word
  exact not_mem_of_word mem isWord

instance Php.Program.lawfulFrontend : LawfulFrontend where
  wellRead source d listed := by
    have read := Declared.readFrom_parse (fun t mem ends => key_of_ending mem ends) none d listed
    have names := Declared.isOneLine_of_parse none d listed
    cases d with
    | classLike ns d =>
      obtain ⟨_, _, _, name, _, _, braces, _⟩ := d
      refine ⟨not_mem_of_isWordAmong read.1, names, ?_⟩
      rintro _ _ ⟨⟩
      exact areBracesIn_of_areBracesAmong read.2
    | function ns d =>
      obtain ⟨_, name, _, _, _⟩ := d
      exact ⟨not_mem_of_isWordAmong read, names, nofun⟩

/-! ### Readings -/

/-- The declarations that the source lists. -/
def declaredIn [Frontend] (source : String) : List Declared :=
  declaredByAll none (Reading.of source).program.statements

theorem Declared.wellRead [Frontend] [LawfulFrontend] {source : String} {d : Declared}
    (listed : d ∈ declaredIn source) : d.WellRead (Reading.of source).text := by
  rw [declaredIn, Reading.program_eq] at listed
  have read := LawfulFrontend.wellRead _ d listed
  rwa [String.toList_ofList] at read

end PhpSymbols
