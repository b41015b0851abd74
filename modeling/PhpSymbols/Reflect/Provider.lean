import PhpSymbols.Docblock.MemberTag
import PhpSymbols.Reflect.Declaration

/-!
Members that are documented and not declared. A provider sees a class-like as completed so far and
offers members; a name that is taken stays with the member that has it, and what is added is
marked as virtual.
-/

namespace PhpSymbols

/-- A class-like on its way to completion, as providers see it. -/
structure Completion where
  symbol : ClassLike
  docblock : Docblock
  resolver : Resolver

abbrev Provider := Completion → List VirtualMember

namespace PropertyTag

/-- The property that a tag declares. A type that cannot be read declares none. -/
def property? (resolver : Resolver) (owner : String) (tag : PropertyTag) : Option Property :=
  let ty := match tag.ty with
    | none => Ty.mixed
    | some text => resolver.resolve text.toList
  if ty.isUnknown then none
  else some {
    name := tag.name
    owner := owner
    isVirtual := true
    isReadonly := tag.access == .readOnly
    access := tag.access
    ty := ty }

end PropertyTag

namespace MethodTag

def parameter (resolver : Resolver) (p : MethodTagParameter) : Parameter where
  name := p.name
  ty := match p.ty with
    | none => .unknown
    | some text => resolver.resolve text.toList
  initial := p.initial
  isVariadic := p.isVariadic
  isReference := p.isReference

/-- The method that a tag declares. A return type may be missing, but one that cannot be read
makes the whole tag suspect. -/
def method? (resolver : Resolver) (owner : String) (tag : MethodTag) : Option Method :=
  let returnType := match tag.returnType with
    | none => Ty.unknown
    | some text => resolver.resolve text.toList
  if tag.returnType.isSome && returnType.isUnknown then none
  else some {
    name := tag.name
    owner := owner
    isStatic := tag.isStatic
    isVirtual := true
    parameters := tag.parameters.map (parameter resolver)
    returnType := returnType }

end MethodTag

/-- The members that the tags of a class-level comment declare, properties first. -/
def Provider.docblock : Provider := fun c =>
  (c.docblock.propertyTags.filterMap fun tag =>
    (tag.property? c.resolver c.symbol.name).map VirtualMember.property) ++
  c.docblock.methodTags.filterMap fun tag =>
    (tag.method? c.resolver c.symbol.name).map VirtualMember.method

namespace ClassLike

/-- Adds a virtual member unless its name is taken. -/
def addVirtual (c : ClassLike) : VirtualMember → ClassLike
  | .method m => { c with methods := c.methods.insertIfAbsent { m with isVirtual := true } }
  | .property p => { c with properties := c.properties.insertIfAbsent { p with isVirtual := true } }
  | .constant k => { c with constants := c.constants.insertIfAbsent { k with isVirtual := true } }

/-- Asks one provider. -/
def addFrom (resolver : Resolver) (docblock : Docblock) (c : ClassLike) (p : Provider) :
    ClassLike :=
  (p ⟨c, docblock, resolver⟩).foldl addVirtual c

end ClassLike

/-- Asks the providers in order; each sees what the ones before it added. -/
def DeclaredClass.withVirtualMembers (d : DeclaredClass) (resolver : Resolver)
    (providers : List Provider) : ClassLike :=
  providers.foldl (ClassLike.addFrom resolver d.docblock) d.symbol

end PhpSymbols
