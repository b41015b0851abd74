import PhpSymbols.Reflect.Declaration
import PhpSymbols.Reflect.Imports

/-!
The scope at an offset: the innermost declaration around it and the variables bound before it.
Statements are walked in source order, so the latest binding before the offset gives a variable
its type. A function, method or closure around the offset starts a scope of its own; an arrow
function adds its parameters to the scope it stands in. Once the walk was inside a closure or
nested declaration around the offset, the scope is closed and nothing more belongs to it.
-/

namespace PhpSymbols
open Php

/-- The declaration around an offset. A class-like is known by the place of its opening brace. -/
inductive Enclosing where
  | classLike (start : Nat)
  | method (classStart : Nat) (name : String)
  | function (ns : Option String) (name : String)
  deriving DecidableEq, Repr, Inhabited

structure Scope where
  enclosing : Option Enclosing := none
  locals : Bindings := {}
  isClosed : Bool := false
  imports : Imports := {}
  /-- The class-like around the offset, fully qualified. -/
  selfClass : Option String := none
  deriving DecidableEq, Repr, Inhabited

/-- Whether `offset` lies in the bytes of a span. -/
def Php.Span.encloses (s : Span) (offset : Nat) : Bool := s.start ≤ offset && offset < s.stop

/-- Whether `offset` lies in a span or right behind it. -/
def Php.Span.touches (s : Span) (offset : Nat) : Bool := s.start ≤ offset && offset ≤ s.stop

/-- Whether `offset` lies between the braces that start and end a span. -/
def Php.Span.insideBraces (s : Span) (offset : Nat) : Bool :=
  s.start + 1 ≤ offset && offset + 1 ≤ s.stop

def Php.Catch.span : Catch → Span
  | .mk span .. => span

/-- Whether a member is a method whose bytes hold `offset`. -/
def Php.Member.isMethodAround (offset : Nat) : Member → Bool
  | .method span .. => span.encloses offset
  | _ => false

namespace Scope

def bind (s : Scope) (name : String) (t : Ty) : Scope :=
  { s with locals := s.locals.bind name t }

def bindAll (s : Scope) (bindings : List (String × Ty)) : Scope :=
  bindings.foldl (fun s (name, t) => s.bind name t) s

/-- The class that `new` creates here, if its name is known. -/
def newTy (s : Scope) : Expr → Ty
  | .name _ text =>
    match text.toList with
    | '\\' :: _ => .classRef (String.ofList (Imports.path text))
    | _ => Ty.ofClass (s.imports.resolveClass text)
  | .classWord _ .self | .classWord _ .static =>
    match s.selfClass with
    | some c => Ty.ofClass c
    | none => .unknown
  | _ => .unknown

/-- The type of a value assigned here. -/
def valueTy (s : Scope) : Expr → Ty
  | .new _ target _ => s.newTy target
  | .paren _ inner => s.valueTy inner
  | .assign _ _ _ value => s.valueTy value
  | e => e.valueTy s.locals

/-! ### Targets -/

mutual

/-- The plain variables that a target binds, in order. -/
def targetNames : Expr → List String
  | .var _ x => [x]
  | .listing _ es => elementsNames es
  | .array _ es => elementsNames es
  | _ => []

def elementsNames : List Element → List String
  | [] => []
  | e :: es => elementNames e ++ elementsNames es

def elementNames : Element → List String
  | .pair _ value => targetNames value
  | .value value => targetNames value
  | .spread _ | .missing => []

end

mutual

/-- Binds what stands on the left of an assignment. The elements of a destructured value have no
known type. -/
def bindTarget (s : Scope) (t : Ty) : Expr → Scope
  | .var _ x => s.bind x t
  | .listing _ es => s.bindElements es
  | .array _ es => s.bindElements es
  | _ => s

def bindElements (s : Scope) : List Element → Scope
  | [] => s
  | e :: es => (s.bindElement e).bindElements es

def bindElement (s : Scope) : Element → Scope
  | .pair _ value => s.bindTarget .mixed value
  | .value value => s.bindTarget .mixed value
  | .spread _ | .missing => s

end

/-- Binds the parameters of a function. Inside it a variadic parameter is an array. -/
def bindParameters (s : Scope) (ps : List Parameter) : Scope :=
  s.bindAll <| ps.map fun p =>
    (p.name,
      if p.isVariadic then
        if p.ty.isUnknown then .scalar "array" else .arrayOf p.ty
      else p.ty)

/-- The element type of what a loop runs over. -/
def elementTy : Ty → Ty
  | .arrayOf t => t
  | _ => .mixed

/-- Gives each name back the type it had, or removes it if it had none. -/
def restore (s : Scope) (saved : List (String × Option Ty)) : Scope :=
  saved.foldl (fun s (name, t) =>
    match t with
    | some t => s.bind name t
    | none => { s with locals := s.locals.remove name }) s

/-- The types of `names` now, to be restored later. -/
def save (s : Scope) (names : List String) : List (String × Option Ty) :=
  names.map fun name => (name, s.locals.get? name)

/-- The scope inside a closure: the variables it captures, with the types they have outside. -/
def captured (s : Scope) (names : List String) : Scope :=
  ({ s with locals := {} } : Scope).bindAll <|
    names.map fun name => (name, (s.locals.get? name).getD .unknown)

def close (s : Scope) : Scope := { s with isClosed := true }

end Scope

/-! ### The walk -/

/-- A walk through a source towards an offset. -/
structure Walk where
  reader : Reader
  offset : Nat

namespace Walk
open Scope

mutual

/-- Records the assignments of an expression and enters the function around the offset. -/
def expr (w : Walk) (s : Scope) (e : Expr) : Scope :=
  if s.isClosed then s
  else match e with
    | .assign span _ target value =>
      let s := w.expr s value
      if s.isClosed || w.offset < span.stop then s
      else s.bindTarget (s.valueTy value) target
    | .paren _ inner => w.expr s inner
    | .closure _ ps names (.mk braces ss) =>
      if braces.insideBraces w.offset then
        (w.stmts ((s.captured names).bindParameters (w.reader.parameters none ps)) ss).close
      else s
    | .arrow span ps value =>
      if span.encloses w.offset then
        (w.expr (s.bindParameters (w.reader.parameters none ps)) value).close
      else s
    | .call _ target args => w.exprs (w.expr s target) args
    | .new _ _ args => w.exprs s args
    | .array _ es => w.elements s es
    | .longArray _ es => w.elements s es
    | .binary _ left right => w.expr (w.expr s left) right
    | .conditional _ c yes no => w.expr (w.exprIfAny (w.expr s c) yes) no
    | .unary _ operand => w.expr s operand
    | .throw _ exception => w.expr s exception
    | _ => s

def exprs (w : Walk) (s : Scope) : List Expr → Scope
  | [] => s
  | e :: es => w.exprs (w.expr s e) es

def exprIfAny (w : Walk) (s : Scope) : Option Expr → Scope
  | none => s
  | some e => w.expr s e

def elements (w : Walk) (s : Scope) : List Element → Scope
  | [] => s
  | e :: es => w.elements (w.element s e) es

def element (w : Walk) (s : Scope) : Element → Scope
  | .pair key value => w.expr (w.expr s key) value
  | .value value => w.expr s value
  | .spread value => w.expr s value
  | .missing => s

/-- Walks statements up to the first that starts behind the offset. -/
def stmts (w : Walk) (s : Scope) : List Stmt → Scope
  | [] => s
  | t :: ts =>
    if s.isClosed || w.offset < t.span.start then s else w.stmts (w.stmt s t) ts

/-- Walks one statement that starts at or before the offset. -/
def stmt (w : Walk) (s : Scope) : Stmt → Scope
  | .expression _ e => w.expr s e
  | .block _ ss => w.stmts s ss
  | .ifElse _ c body elseIfs otherwise =>
    w.stmts (w.elseIfs (w.stmts (w.expr s c) body) elseIfs) otherwise
  | .foreach _ subject key value bodySpan body =>
    let s := w.expr s subject
    if s.isClosed then s
    else
      let element := elementTy (subject.valueTy s.locals)
      let saved :=
        if bodySpan.touches w.offset then []
        else s.save ((key.map targetNames).getD [] ++ targetNames value)
      let s := match key with
        | some k => s.bindTarget .mixed k
        | none => s
      (w.stmts (s.bindTarget element value) body).restore saved
  | .forLoop _ inits _ _ body => w.stmts (w.exprs s inits) body
  | .whileLoop _ _ body => w.stmts s body
  | .doWhile _ body _ => w.stmts s body
  | .tryCatch _ body catches ensure =>
    w.ensureIfAny (w.catches (w.stmts s body) catches) ensure
  | .global _ names => s.bindAll (names.map fun name => (name, .mixed))
  | .staticVars _ names _ =>
    { s with locals := names.foldl (fun b name => b.bindIfAbsent name .mixed) s.locals }
  | .ret _ value => w.exprIfAny s value
  | .echo _ values => w.exprs s values
  | .switch _ subject cases => w.cases (w.expr s subject) cases
  | .classLike d =>
    if d.span.encloses w.offset then
      (w.classLike { s with locals := {} } s.imports.ns d).close
    else s
  | .function d =>
    if d.span.encloses w.offset then
      (w.function { s with locals := {} } s.imports.ns d).close
    else s
  | .markup _ | .declare .. | .ns .. | .use .. | .other .. => s

def elseIfs (w : Walk) (s : Scope) : List ElseIf → Scope
  | [] => s
  | e :: es => w.elseIfs (w.elseIf s e) es

def elseIf (w : Walk) (s : Scope) : ElseIf → Scope
  | .mk c body => w.stmts (w.expr s c) body

/-- Catch clauses that start at or before the offset bind what they catch. -/
def catches (w : Walk) (s : Scope) : List Catch → Scope
  | [] => s
  | c :: cs => if c.span.start ≤ w.offset then w.catches (w.catch_ s c) cs else s

def catch_ (w : Walk) (s : Scope) : Catch → Scope
  | .mk _ hint name body =>
    let s := match name with
      | some x => s.bind x (w.reader.resolver.resolve (w.reader.reading.textAt hint).toList)
      | none => s
    w.stmts s body

def ensureIfAny (w : Walk) (s : Scope) : Option Ensure → Scope
  | none => s
  | some e => w.ensure s e

def ensure (w : Walk) (s : Scope) : Ensure → Scope
  | .mk span body => if span.start ≤ w.offset then w.stmts s body else s

def cases (w : Walk) (s : Scope) : List Case → Scope
  | [] => s
  | c :: cs => w.cases (w.case_ s c) cs

def case_ (w : Walk) (s : Scope) : Case → Scope
  | .mk _ body => w.stmts s body

/-- Enters a class-like around the offset: the method around it, if there is one. -/
def classLike (w : Walk) (s : Scope) (ns : Option String) : ClassDecl → Scope
  | .mk _ _ _ name _ _ braces ms =>
    w.members { s with
      enclosing := some (.classLike braces.start)
      selfClass := some (qualify ns name) } braces.start (qualify ns name) ms

def members (w : Walk) (s : Scope) (start : Nat) (fqn : String) : List Member → Scope
  | [] => s
  | m :: ms =>
    if m.isMethodAround w.offset then w.member s start fqn m else w.members s start fqn ms

def member (w : Walk) (s : Scope) (start : Nat) (fqn : String) : Member → Scope
  | .method span ms name ps _ body =>
    let s := { s with enclosing := some (.method start name) }
    w.methodBody s (w.reader.docblock? span.start) (ms.contains .static) fqn ps body
  | _ => s

def methodBody (w : Walk) (s : Scope) (doc : Option Docblock) (isStatic : Bool) (fqn : String)
    (ps : List Param) : Option Body → Scope
  | none => s
  | some (.mk braces ss) =>
    if braces.insideBraces w.offset then
      let s := if isStatic then s else s.bind "this" (Ty.ofClass fqn)
      w.stmts (s.bindParameters (w.reader.parameters doc ps)) ss
    else s

/-- Enters a function around the offset. -/
def function (w : Walk) (s : Scope) (ns : Option String) : FunctionDecl → Scope
  | .mk span name ps _ (.mk braces ss) =>
    let s := { s with enclosing := some (.function ns name) }
    if braces.insideBraces w.offset then
      w.stmts (s.bindParameters (w.reader.parameters (w.reader.docblock? span.start) ps)) ss
    else s

end

/-- The scope at the offset among the statements of a namespace, of which `rest` are still to be
tried: that of the namespace or declaration around the offset, or the code of `all` itself. The
text behind the last statement of a namespace without braces belongs to it. -/
def scopeAmong (w : Walk) (ns : Option String) (all : List Stmt) : (rest : List Stmt) → Scope
  | [] => w.stmts { imports := .of ns all } all
  | .ns span name ss :: rest =>
    if span.encloses w.offset || (rest.isEmpty && span.stop ≤ w.offset) then
      w.scopeAmong (innerNamespace ns name) ss ss
    else w.scopeAmong ns all rest
  | .classLike d :: rest =>
    if d.span.encloses w.offset then w.classLike { imports := .of ns all } ns d
    else w.scopeAmong ns all rest
  | .function d :: rest =>
    if d.span.encloses w.offset then w.function { imports := .of ns all } ns d
    else w.scopeAmong ns all rest
  | _ :: rest => w.scopeAmong ns all rest

end Walk

/-- The scope at a place of the source as given. -/
def Scope.at [Frontend] (resolver : Resolver) (source : String) (offset : Nat) : Scope :=
  let reading := Reading.of source
  let w : Walk := ⟨⟨reading, resolver⟩, reading.shifted offset⟩
  w.scopeAmong none reading.program.statements reading.program.statements

end PhpSymbols
