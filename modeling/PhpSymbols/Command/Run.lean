import PhpSymbols.Command.Arguments
import PhpSymbols.Command.Config
import PhpSymbols.Markdown.Renderer
import PhpSymbols.Reflect.Session
import PhpSymbols.Text.Quoted

/-!
The command line as a function: from the surroundings and the arguments to what is printed and the
exit code. The file itself is the first place in which supertypes are looked up, then the roots.
-/

namespace PhpSymbols.Command

/-- Why a well-formed request has no answer. -/
inductive Failure where
  | config (e : ConfigError)
  /-- The file does not exist or holds no text. -/
  | unreadable (file : String)
  | render (e : RenderError)
  | reflect (e : ReflectError)
  /-- A member is asked for without its class-like. -/
  | notAMember (written : String)
  deriving DecidableEq, Repr, Inhabited

def Failure.message : Failure → String
  | config e => e.message
  | unreadable file => "Failed to read " ++ file
  | render e => e.message
  | reflect e => e.message
  | notAMember written => "--member expects CLASS::NAME, got " ++ Text.quoted written

/-! ### Selection -/

/-- The text before and after the first pair of colons. -/
def splitMember : List Char → Option (List Char × List Char)
  | ':' :: ':' :: rest => some ([], rest)
  | c :: s => (splitMember s).map fun (before, after) => (c :: before, after)
  | [] => none

/-- A member by name: a method, else a property, else a constant. -/
def memberOf (c : ClassLike) (name : String) : Except ReflectError Symbol :=
  match c.methods.find? name with
  | some m => .ok (.method m)
  | none =>
    match c.properties.find? name with
    | some p => .ok (.property p)
    | none => .constant <$> c.constants.get name

/-! ### Requests -/

/-- The reflector for a configuration. -/
def reflectorFor (c : Config) : Reflector where
  resolver := ⟨c.unresolved⟩
  providers := [Provider.docblock]
  isContextual := true

/-- The locators: the file itself, and the directories of the request before those of the
configuration. -/
def sessionFor (s : Surroundings) (r : Request) (c : Config) (source : String) : Session :=
  let roots := r.roots ++ c.roots
  let own := Locator.temporary (({} : TemporaryLocator).setSource source)
  { locators := own ::
      (if roots.isEmpty then []
       else [.directory { tree := s.tree, roots := roots.map s.place }])
    cache := if c.isCached then some [] else none }

/-- The bundled templates, and those of the request or else of the configuration before them. -/
def templateSources (s : Surroundings) (r : Request) (c : Config) : List TemplateSource :=
  .bundled ::
    ((r.templates.or c.templates).map fun written =>
      TemplateSource.directory written s.tree (s.place written)).toList

/-- The markdown of a symbol, in a hover box if a title or prose for one is given. -/
def showSymbol (out : Renderer) (r : Request) (symbol : Symbol) : Except Failure String :=
  if r.title.isSome || r.docs.isSome then
    (out.hover { title := r.title.getD "", docs := r.docs.getD "", symbol }).mapError .render
  else (out.symbol symbol).mapError .render

/-- What a selector finds. -/
def select (out : Renderer) (r : Request) (reflector : Reflector) (source : String) :
    Reflect (Except Failure String) := do
  match r.selector with
  | .offset byte =>
    match ← reflector.resolutionAt source byte with
    | .error e => return .error (.reflect e)
    | .ok x => return (out.resolution x).mapError .render
  | .type_ expression =>
    return (out.type_ (reflector.resolver.resolve expression.toList)).mapError .render
  | .class_ name =>
    match (← reflector.classesIn source).get name with
    | .error e => return .error (.reflect e)
    | .ok c => return showSymbol out r (.classLike c)
  | .function name =>
    match (← reflector.functionsIn source).get name with
    | .error e => return .error (.reflect e)
    | .ok f => return showSymbol out r (.function f)
  | .member written =>
    match splitMember written.toList with
    | none => return .error (.notAMember written)
    | some (className, name) =>
      match (← reflector.classesIn source).get (String.ofList className) with
      | .error e => return .error (.reflect e)
      | .ok c =>
        match memberOf c (String.ofList name) with
        | .error e => return .error (.reflect e)
        | .ok symbol => return showSymbol out r symbol

/-- The configuration of a request: the file it names, or the one that counts here. -/
def configFor (s : Surroundings) (r : Request) : Except ConfigError Config :=
  match r.config with
  | some file => Config.load s file
  | none => (fun found => (found.map (·.1)).getD {}) <$> Config.loadCurrent s

def Request.run (s : Surroundings) (r : Request) : Except Failure String := do
  let config ← (configFor s r).mapError .config
  match s.readText? r.file with
  | none => throw (.unreadable r.file)
  | some source =>
    let out ← (Renderer.build (templateSources s r config) config.usesCandidates).mapError .render
    (select out r (reflectorFor config) source (sessionFor s r config source)).1

/-! ### What a request reads -/

/-- The files that decide the configuration. -/
def Request.configFiles (s : Surroundings) (r : Request) : List String :=
  match r.config with
  | some file => [file]
  | none =>
    (WrittenPath.above s.directory).map (WrittenPath.join · Config.fileName) ++
      (s.userDirectory.map Config.userFile).toList

/-- The directories in which a request looks for sources and templates. -/
def Request.directories (r : Request) (c : Config) : List String :=
  r.roots ++ c.roots ++ (r.templates.or c.templates).toList

/-! ### Outcomes -/

structure Outcome where
  exitCode : Nat := 0
  output : String := ""
  errors : String := ""
  deriving DecidableEq, Repr, Inhabited

def versionText : String := "phpantom-hover 0.1.0\n"

def usageText : String :=
  "Render hover markdown for a symbol in a PHP file\n\n" ++
  "Usage: phpantom-hover [OPTIONS] <--offset <OFFSET>|--class <NAME>|--function <NAME>|" ++
  "--member <CLASS::NAME>|--type <EXPR>> <FILE>\n"

def Invocation.outcome (s : Surroundings) : Invocation → Outcome
  | .showVersion => { output := versionText }
  | .showHelp => { output := usageText }
  | .misuse => { exitCode := 2, errors := usageText }
  | .run r =>
    match r.run s with
    | .ok markdown => { output := markdown }
    | .error e => { exitCode := 1, errors := "Error: " ++ e.message ++ "\n" }

/-- What a command line prints, and its exit code. -/
def run (s : Surroundings) (arguments : List String) : Outcome :=
  (Invocation.ofArguments arguments).outcome s

end PhpSymbols.Command
