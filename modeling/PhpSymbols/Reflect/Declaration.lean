import PhpSymbols.Docblock.Basic
import PhpSymbols.Php.Repair
import PhpSymbols.Symbol.Bindings
import PhpSymbols.Ty.Resolver

/-!
The symbols that a source declares. Declarations are found at the top level and inside namespaces,
blocks and branches of `if`, in source order, each with the innermost namespace around it. Only
declared members are collected here; those of doc comments come later.
-/

namespace PhpSymbols
open Php

/-! ### Types of values -/

/-- The type that a value shows without being evaluated; a variable has its type in `locals`. -/
def Php.Expr.valueTy (locals : Bindings) : Expr → Ty
  | .literal _ .string => .scalar "string"
  | .literal _ .integer => .scalar "int"
  | .literal _ .float => .scalar "float"
  | .literal _ .boolean => .scalar "bool"
  | .literal _ .null => Ty.null
  | .array .. | .longArray .. => .scalar "array"
  | .new _ (.name _ text) _ => Ty.ofClass text
  | .closure .. | .arrow .. => .classRef "Closure"
  | .paren _ inner => inner.valueTy locals
  | .assign _ _ _ value => value.valueTy locals
  | .var _ x => (locals.get? x).getD .unknown
  | _ => .unknown

/-! ### Parts of declarations -/

/-- The source with what reads its types. -/
structure Reader where
  reading : Reading
  resolver : Resolver

namespace Reader

def docblock? (r : Reader) (start : Nat) : Option Docblock :=
  (r.reading.docComment? start).map Docblock.parse

def declaredTy (r : Reader) (hint : Option Span) (documented : Option String) : Ty :=
  r.resolver.resolveDeclared (hint.map r.reading.textAt) documented

def valueText (r : Reader) (e : Expr) : String := r.reading.textAt e.span

/-- A parameter, typed by its hint and its documentation. -/
def parameter (r : Reader) (doc : Option Docblock) : Param → Parameter
  | .mk _ hint isReference isVariadic name initial _ =>
    { name := plainName name
      ty := r.declaredTy hint (doc.bind (·.paramType? name))
      initial := initial.map r.valueText
      isVariadic := isVariadic
      isReference := isReference }

def parameters (r : Reader) (doc : Option Docblock) (ps : List Param) : List Parameter :=
  ps.map (r.parameter doc)

end Reader

def docsOf (doc : Option Docblock) : Docs := (doc.map Docblock.docs).getD {}

/-- The first visibility among modifiers; without one a member is public. -/
def visibilityOf (ms : List Modifier) : Visibility :=
  (ms.findSome? fun
    | .pub => some Visibility.pub
    | .prot => some .prot
    | .priv => some .priv
    | _ => none).getD .pub

def accessOf (ms : List Modifier) : Access :=
  if ms.contains .readonly then .readOnly else .readWrite

/-! ### Members -/

namespace Reader

def method (r : Reader) (owner : String) (span : Span) (ms : List Modifier) (name : String)
    (ps : List Param) (returnHint : Option Span) : Method :=
  let doc := r.docblock? span.start
  { name := name
    owner := owner
    visibility := visibilityOf ms
    isStatic := ms.contains .static
    isAbstract := ms.contains .abstract
    isFinal := ms.contains .final
    parameters := r.parameters doc ps
    returnType := r.declaredTy returnHint (doc.bind (·.returnType?))
    docs := docsOf doc }

/-- A parameter of a constructor that is a property too, because it has a modifier or accessors. -/
def promoted? (owner : String) : Param × Parameter → Option Property
  | (.mk ms _ _ _ _ _ hasHooks, p) =>
    if ms.isEmpty && !hasHooks then none
    else some {
      name := p.name
      owner := owner
      visibility := visibilityOf ms
      isReadonly := ms.contains .readonly
      access := accessOf ms
      ty := p.ty }

/-- The properties that a method's parameters declare, if it is the constructor. -/
def promoted (r : Reader) (owner : String) (span : Span) (name : String) (ps : List Param) :
    List Property :=
  if sameIgnoringCase name "__construct" then
    (ps.zip (r.parameters (r.docblock? span.start) ps)).filterMap (promoted? owner)
  else []

/-- One property of a declaration; those of one declaration differ in names and values only. -/
def property (r : Reader) (owner : String) (span : Span) (ms : List Modifier)
    (hint : Option Span) (name : String) (initial : Option Expr) : Property :=
  let doc := r.docblock? span.start
  { name := plainName name
    owner := owner
    visibility := visibilityOf ms
    isStatic := ms.contains .static
    isReadonly := ms.contains .readonly
    access := accessOf ms
    ty := r.declaredTy hint (doc.bind (·.varType?))
    initial := initial.map r.valueText
    docs := docsOf doc }

/-- A constant without a hint or documented type has the type of its value. -/
def constantTy (r : Reader) (hint : Option Span) (documented : Option String) (value : Expr) : Ty :=
  match hint, documented with
  | none, none => value.valueTy {}
  | _, _ => r.declaredTy hint documented

def constant (r : Reader) (owner : String) (span : Span) (ms : List Modifier)
    (hint : Option Span) (name : String) (value : Expr) : Constant :=
  let doc := r.docblock? span.start
  { name := name
    owner := owner
    visibility := visibilityOf ms
    ty := r.constantTy hint (doc.bind (·.varType?)) value
    value := r.valueText value
    docs := docsOf doc }

/-- The value of an enum case: what is written behind its equals sign, or the case itself. -/
def caseValue (owner name item : String) : String :=
  match Text.splitOnce '=' item.toList with
  | some (_, value) => String.ofList (Text.trim value)
  | none => owner ++ "::" ++ name

def enumCase (r : Reader) (owner : String) (span : Span) (name : String) (item : Span) :
    Constant where
  name := name
  owner := owner
  ty := Ty.ofClass owner
  value := caseValue owner name (r.reading.textAt item)
  docs := docsOf (r.docblock? span.start)

/-- The methods that a member declares. -/
def methodsOf (r : Reader) (owner : String) : Member → List Method
  | .method span ms name ps returnHint _ => [r.method owner span ms name ps returnHint]
  | .property .. | .hookedProperty .. | .constant .. | .enumCase .. | .traitUse .. => []

/-- The properties that a member declares, in order. -/
def propertiesOf (r : Reader) (owner : String) : Member → List Property
  | .method span _ name ps _ _ => r.promoted owner span name ps
  | .property span ms hint items =>
    items.map fun (.mk name initial) => r.property owner span ms hint name initial
  | .hookedProperty span ms hint name => [r.property owner span ms hint name none]
  | .constant .. | .enumCase .. | .traitUse .. => []

/-- The constants that a member declares, in order. -/
def constantsOf (r : Reader) (owner : String) : Member → List Constant
  | .constant span ms hint items =>
    items.map fun (.mk name value) => r.constant owner span ms hint name value
  | .enumCase span name item => [r.enumCase owner span name item]
  | .method .. | .property .. | .hookedProperty .. | .traitUse .. => []

end Reader

def usedTraits : Member → List Supertype
  | .traitUse _ names => names.map Supertype.ofName
  | .method .. | .property .. | .hookedProperty .. | .constant .. | .enumCase .. => []

/-- The members of a class-like so far. -/
structure Members where
  methods : Collection Method := {}
  properties : Collection Property := {}
  constants : Collection Constant := {}
  traits : List Supertype := []

/-- Adds what a member declares. A name that is taken stays with the first that has it. -/
def Members.add (r : Reader) (owner : String) (ms : Members) (m : Member) : Members where
  methods := (r.methodsOf owner m).foldl Collection.insertIfAbsent ms.methods
  properties := (r.propertiesOf owner m).foldl Collection.insertIfAbsent ms.properties
  constants := (r.constantsOf owner m).foldl Collection.insertIfAbsent ms.constants
  traits := ms.traits ++ usedTraits m

/-! ### Declarations -/

/-- A class-like as declared, with the doc comment that may add members to it. -/
structure DeclaredClass where
  symbol : ClassLike
  docblock : Docblock := {}
  deriving DecidableEq, Repr, Inhabited

/-- All that one source declares. -/
structure Declarations where
  classes : List DeclaredClass := []
  functions : List Function := []
  deriving DecidableEq, Repr, Inhabited

/-- A declaration and the namespace around it. -/
inductive Declared where
  | classLike (ns : Option String) (d : ClassDecl)
  | function (ns : Option String) (d : FunctionDecl)

/-- The namespace inside a namespace statement: its own name, unless it has none. -/
def innerNamespace (outer name : Option String) : Option String :=
  (name.filter (!·.isEmpty)).or outer

mutual

/-- The declarations that `s` makes, in source order. -/
def declaredBy (ns : Option String) : Stmt → List Declared
  | .classLike d => [.classLike ns d]
  | .function d => [.function ns d]
  | .ns _ name ss => declaredByAll (innerNamespace ns name) ss
  | .block _ ss => declaredByAll ns ss
  | .ifElse _ _ ss elseIfs otherwise =>
    declaredByAll ns ss ++ (declaredByElseIfs ns elseIfs ++ declaredByAll ns otherwise)
  | _ => []

def declaredByAll (ns : Option String) : List Stmt → List Declared
  | [] => []
  | s :: ss => declaredBy ns s ++ declaredByAll ns ss

def declaredByElseIfs (ns : Option String) : List ElseIf → List Declared
  | [] => []
  | e :: es => declaredByElseIf ns e ++ declaredByElseIfs ns es

def declaredByElseIf (ns : Option String) : ElseIf → List Declared
  | .mk _ ss => declaredByAll ns ss

end

namespace Reader

def classLike (r : Reader) (ns : Option String) : ClassDecl → DeclaredClass
  | .mk span kind ms name parents interfaces braces members =>
    let m := members.foldl (Members.add r name) {}
    let docblock := (r.docblock? span.start).getD {}
    { symbol := {
        kind := kind
        name := name
        ns := ns
        isAbstract := kind = .classDecl ∧ ms.contains .abstract
        isFinal := kind = .enumDecl ∨ kind = .classDecl ∧ ms.contains .final
        parents := parents.map Supertype.ofName
        interfaces := interfaces.map Supertype.ofName
        traits := m.traits
        methods := m.methods
        properties := m.properties
        constants := m.constants
        docs := docblock.docs
        startOffset := braces.start
        endOffset := braces.stop }
      docblock := docblock }

def function (r : Reader) (ns : Option String) : FunctionDecl → Function
  | .mk span name ps returnHint _ =>
    let doc := r.docblock? span.start
    { name := name
      ns := ns
      parameters := r.parameters doc ps
      returnType := r.declaredTy returnHint (doc.bind (·.returnType?))
      docs := docsOf doc }

def declarations (r : Reader) : Declarations :=
  let all := declaredByAll none r.reading.program.statements
  { classes := all.filterMap fun
      | .classLike ns d => some (r.classLike ns d)
      | .function .. => none
    functions := all.filterMap fun
      | .function ns d => some (r.function ns d)
      | .classLike .. => none }

end Reader

/-- Reads all that `source` declares. -/
def Declarations.of [Frontend] (resolver : Resolver) (source : String) : Declarations :=
  Reader.declarations ⟨Reading.of source, resolver⟩

/-- The declared class-like that answers to `name`. -/
def Declarations.findClass? (d : Declarations) (name : String) : Option ClassLike :=
  (d.classes.map (·.symbol)).find? (Named.answersTo · name)

end PhpSymbols
