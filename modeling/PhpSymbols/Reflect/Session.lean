import PhpSymbols.Reflect.Provider
import PhpSymbols.Reflect.Scope
import PhpSymbols.Source.Locator

/-!
Reflection. A reflector says how sources are read; a session holds what changes between questions:
the locators and the declarations that are remembered by a key of the text that holds them.
-/

namespace PhpSymbols

/-- A reflector that remembers sources by `key`, such as a hash of their text: two sources with one
key are taken for each other. -/
structure ReflectorBy {κ : Type} (key : String → κ) where
  resolver : Resolver := {}
  /-- Sources of documented members, in the order in which they are asked. -/
  providers : List Provider := []
  /-- Whether supertypes are looked up in the source itself before the locators. -/
  isContextual : Bool := true

/-- A reflector that remembers sources by their text, and so takes none for another. -/
abbrev Reflector := ReflectorBy (id : String → String)

structure SessionBy {κ : Type} (key : String → κ) where
  locators : List Locator := []
  /-- Declarations by the keys of their sources, the latest first; nothing is remembered without
  a cache. -/
  cache : Option (List (κ × Declarations)) := none
  deriving DecidableEq, Repr, Inhabited

abbrev Session := SessionBy (id : String → String)

abbrev ReflectBy {κ : Type} (key : String → κ) := StateM (SessionBy key)

abbrev Reflect := ReflectBy (id : String → String)

variable {κ : Type} {key : String → κ}

/-- How many sources are remembered. -/
def SessionBy.cacheSize (s : SessionBy key) : Nat := (s.cache.map List.length).getD 0

namespace Session

/-- Finds the source of `name` with the locator at index `i`. -/
def locate [Php.Frontend] [Walker] (i : Nat) (name : String) :
    ReflectBy key (Except ReflectError String) := do
  match (← get).locators[i]? with
  | none => return .error (sourceNotFound name)
  | some l =>
    let (found, l) := l.locate name
    modify fun s => { s with locators := s.locators.set i l }
    return found

/-- The first thing that `look` finds in the sources that the locators `is` have for `name`. -/
def search [Php.Frontend] [Walker] {α : Type} (name : String)
    (look : String → ReflectBy key (Option α)) :
    List Nat → ReflectBy key (Option α)
  | [] => return none
  | i :: is => do
    match ← locate i name with
    | .error _ => search name look is
    | .ok source =>
      match ← look source with
      | some found => return some found
      | none => search name look is

def searchAll [Php.Frontend] [Walker] {α : Type} (name : String)
    (look : String → ReflectBy key (Option α)) :
    ReflectBy key (Option α) := do
  search name look (List.range (← get).locators.length)

end Session

namespace ReflectorBy
variable [DecidableEq κ] (r : ReflectorBy key)

/-- Reads a source, or remembers what it declares. -/
def declarations [Php.Frontend] (source : String) : ReflectBy key Declarations := do
  match (← get).cache with
  | none => return .of r.resolver source
  | some known =>
    match known.lookup (key source) with
    | some d => return d
    | none =>
      let d := Declarations.of r.resolver source
      modify fun s => { s with cache := some ((key source, d) :: known) }
      return d

/-! ### Class-likes -/

/-- What a supertype's name declares, if the name is found in the context or a located source. -/
def supertypeDeclaration? [Php.Frontend] [Walker] (context : Option Declarations) (name : String) :
    ReflectBy key (Option ClassLike) := do
  match context.bind (·.findClass? name) with
  | some c => return some c
  | none => Session.searchAll name fun source => return (← r.declarations source).findClass? name

def completeSupertype [Php.Frontend] [Walker] (context : Option Declarations) (s : Supertype) :
    ReflectBy key Supertype := do
  match ← r.supertypeDeclaration? context s.name with
  | none => return s
  | some c => return { s with kind := some c.kind, isAbstract := c.isAbstract }

/-- Adds documented members and what is known of the supertypes. -/
def complete [Php.Frontend] [Walker] (context : Option Declarations) (d : DeclaredClass) :
    ReflectBy key ClassLike := do
  let c := d.withVirtualMembers r.resolver r.providers
  let parents ← c.parents.mapM (r.completeSupertype context)
  let interfaces ← c.interfaces.mapM (r.completeSupertype context)
  let traits ← c.traits.mapM (r.completeSupertype context)
  return { c with parents, interfaces, traits }

/-- The class-likes that a source declares, in order. -/
def classesIn [Php.Frontend] [Walker] (source : String) : ReflectBy key (Collection ClassLike) := do
  let d ← r.declarations source
  let context := if r.isContextual then some d else none
  return ⟨← d.classes.mapM (r.complete context)⟩

/-- The functions that a source declares, in order. -/
def functionsIn [Php.Frontend] (source : String) : ReflectBy key (Collection Function) := do
  return ⟨(← r.declarations source).functions⟩

/-! ### Names -/

/-- The class-like called `name`, from the first locator whose source declares it. -/
def classNamed [Php.Frontend] [Walker] (name : String) :
    ReflectBy key (Except ReflectError ClassLike) := do
  match ← Session.searchAll name fun source => return (← r.classesIn source).find? name with
  | some c => return .ok c
  | none => return .error (.notFound .classLike (some name))

def functionNamed [Php.Frontend] [Walker] (name : String) :
    ReflectBy key (Except ReflectError Function) := do
  match ← Session.searchAll name fun source => return (← r.functionsIn source).find? name with
  | some f => return .ok f
  | none => return .error (.notFound .function (some name))

/-! ### Offsets -/

/-- The symbol of the declaration around an offset. -/
def enclosingSymbol [Php.Frontend] [Walker] (source : String) :
    Enclosing → ReflectBy key (Option Symbol)
  | .classLike start => do
    return ((← r.classesIn source).toList.find? (·.startOffset == start)).map .classLike
  | .method start name => do
    return (((← r.classesIn source).toList.find? (·.startOffset == start)).bind
      (·.methods.find? name)).map .method
  | .function ns name => do
    return ((← r.functionsIn source).toList.find? fun f => f.name == name && f.ns == ns).map
      .function

/-- What is known at a byte of a source; the place behind its last character counts as one. A place
that no offset can tell is refused like one inside a character. -/
def resolutionAt [Php.Frontend] [Walker] (source : String) (offset : Nat) :
    ReflectBy key (Except ReflectError Resolution) := do
  if Text.isOffset offset source.toList then
    let scope := Scope.at r.resolver source offset
    let enclosing ← match scope.enclosing with
      | none => pure none
      | some e => r.enclosingSymbol source e
    return .ok ⟨enclosing, scope.locals⟩
  else return .error (.invalidOffset offset source.utf8ByteSize)

end ReflectorBy
end PhpSymbols
