import PhpSymbols.Markdown.Bundled
import PhpSymbols.Markdown.View
import PhpSymbols.Source.WrittenPath
import PhpSymbols.Template.Render

/-!
Renderers. A renderer is built from sources of templates, of which a later one goes before an
earlier one for the same variant. A class-like whose variant has no template may be shown by the
template for interfaces.
-/

namespace PhpSymbols

inductive RenderError where
  /-- No template is registered for the variant, and none can stand in. -/
  | noTemplate (v : Variant)
  | badTemplate (v : Variant) (fault : Template.CompileFault)
  | failed (v : Variant) (fault : Template.RenderFault)
  /-- A template file holds no text. -/
  | unreadable (file : String)
  deriving DecidableEq, Repr, Inhabited

namespace Template

def CompileFault.message : CompileFault → String
  | badTag _ => "a tag is malformed or never closes"
  | unclosed name => "the block of " ++ name ++ " never closes"
  | mismatched opened closed => "the block of " ++ opened ++ " is closed as " ++ closed
  | misplaced => "a tag stands outside the block that it needs"

def RenderFault.message : RenderFault → String
  | unknownHelper name => "there is no helper " ++ name
  | missingArgument helper => "the helper " ++ helper ++ " has no argument"
  | notAnIndex segment => segment ++ " is no index of a list"

end Template

def RenderError.message : RenderError → String
  | noTemplate v => "No template registered for \"" ++ v.name ++ "\""
  | badTemplate v fault => "Template \"" ++ v.name ++ "\" failed: " ++ fault.message
  | failed v fault => "Template \"" ++ v.name ++ "\" failed: " ++ fault.message
  | unreadable file => "Failed to read template " ++ file ++ ": stream did not contain valid UTF-8"

inductive TemplateSource where
  | bundled
  | inline (v : Variant) (source : String)
  /-- The files of a directory, and the directory as written. -/
  | directory (written : String) (tree : FileTree) (path : Path)

structure Renderer where
  /-- The templates by variant; the first one counts. -/
  templates : List (Variant × Template) := []
  /-- Whether the template for interfaces may stand in for class-likes. -/
  usesCandidates : Bool := false
  deriving Inhabited

namespace Renderer
open Template

def fileName (v : Variant) : String := v.name ++ ".md.hbs"

def compileFor [Engine] (v : Variant) (source : String) : Except RenderError (Variant × Template) :=
  match Engine.compile source with
  | .ok t => .ok (v, t)
  | .error fault => .error (.badTemplate v fault)

/-- The template for `v` in a directory, if the directory has one. -/
def fromDirectory [Engine] (written : String) (tree : FileTree) (path : Path) (v : Variant) :
    Except RenderError (Option (Variant × Template)) :=
  match tree.read? (path ++ [fileName v]) with
  | none => .ok none
  | some .binary => .error (.unreadable (WrittenPath.join written (fileName v)))
  | some (.text source) => some <$> compileFor v source

end Renderer

/-- The templates that a source provides. -/
def TemplateSource.templates [Template.Engine] :
    TemplateSource → Except RenderError (List (Variant × Template))
  | bundled => .ok Markdown.bundled
  | inline v source => (fun t => [t]) <$> Renderer.compileFor v source
  | directory written tree path => do
    return (← Variant.all.mapM (Renderer.fromDirectory written tree path)).filterMap id

namespace Renderer
open Template

/-- Builds a renderer. A source that fails makes the whole fail, even where a later source would
replace its templates. -/
def build [Engine] (sources : List TemplateSource) (usesCandidates : Bool) :
    Except RenderError Renderer := do
  let provided ← sources.mapM (·.templates)
  return { templates := provided.reverse.flatten, usesCandidates }

def template? (r : Renderer) (v : Variant) : Option Template := r.templates.lookup v

def hasTemplate (r : Renderer) (v : Variant) : Bool := (r.template? v).isSome

/-- The variant whose template shows items of variant `v`, and that template. -/
def choose (r : Renderer) (v : Variant) : Except RenderError (Variant × Template) :=
  match r.template? v with
  | some t => .ok (v, t)
  | none =>
    match if r.usesCandidates then v.candidate? else none with
    | none => .error (.noTemplate v)
    | some c =>
      match r.template? c with
      | some t => .ok (c, t)
      | none => .error (.noTemplate v)

/-- Shows a view with the template for a variant. -/
def show_ [Engine] (r : Renderer) (v : Variant) (view : Template.Value) :
    Except RenderError String := do
  let (chosen, t) ← r.choose v
  match Engine.render t view with
  | .ok s => return s
  | .error fault => throw (.failed chosen fault)

def symbol [Engine] (r : Renderer) (s : Symbol) : Except RenderError String :=
  r.show_ s.variant (Markdown.symbolView s)

def type_ [Engine] (r : Renderer) (t : Ty) : Except RenderError String :=
  r.show_ .type_ (Markdown.typeView t)

def resolution [Engine] (r : Renderer) (x : Resolution) : Except RenderError String :=
  r.show_ .resolution (Markdown.resolutionView x)

/-- Shows the symbol first; if that fails, so does the whole. -/
def hover [Engine] (r : Renderer) (h : Hover) : Except RenderError String := do
  r.show_ .hover (Markdown.hoverView h (← r.symbol h.symbol))

end Renderer
end PhpSymbols
