import CobolText.Options
import CobolText.Origin.LineView

/-!
# Preprocessing

A session preprocesses any number of sources under the same options, and reads each copybook at
most once.
-/

namespace CobolText

/-- The result of preprocessing one source. -/
structure Preprocessed where
  name : String
  output : TracedText
  /-- The warnings about the source and its copybooks. -/
  diagnostics : List Diagnostic
  /-- The logical lines of the source itself. -/
  lines : List LogicalLine
  /-- The comment blocks among these lines. -/
  blocks : List CommentBlock

/-- How a run ended, and the warnings given until then. -/
structure Outcome where
  result : Except Fault Preprocessed
  warnings : List Diagnostic

/-- Options, the places copybooks are looked for, and the copybooks read so far. -/
structure Session where
  options : Options
  plan : SearchPlan
  cache : BookCache
deriving DecidableEq, Repr

namespace Session

/-- The name of a source that has none. -/
def unnamed : String :=
  "<main>"

/-- A session that looks for copybooks as the options say. -/
def start (o : Options) : Except Fault Session := do
  return ⟨o, ← o.searchPlan, BookCache.empty⟩

/-- Forgets the copybooks read so far. -/
def clear (s : Session) : Session :=
  { s with cache := BookCache.empty }

/-- Looks for copybooks in one more place. -/
def addPath (s : Session) (path : Path) : Session :=
  { s with plan := s.plan.addPath path }

variable {m : Type → Type} [Monad m]

/-- Preprocesses a source, given its file if it has one. -/
def run (files : FileAccess m) (s : Session) (name : String) (path : Option Path)
    (text : List Char) : m (Outcome × Session) := do
  let rules := s.options.runRules s.plan
  match SourceUnit.read rules.toLineRules name text with
  | .error fault => return (⟨.error fault, []⟩, s)
  | .ok unit =>
    let bottom : Inclusion := ⟨name, none, path⟩
    let expansion := Expansion.expandUnit files rules rules.maxDepth [bottom] unit
    let (result, state) ← expansion.run.run ⟨s.cache, []⟩
    let result := match result with
      | .ok output => .ok ⟨name, output, state.diagnostics, unit.lines, unit.blocks⟩
      | .error halt => .error halt.fault
    return (⟨result, state.diagnostics⟩, { s with cache := state.cache })

/-- Preprocesses a text. -/
def processText (files : FileAccess m) (s : Session) (name : String) (text : List Char) :
    m (Outcome × Session) :=
  s.run files name none text

/-- Preprocesses a file. -/
def processFile (files : FileAccess m) (s : Session) (path : Path) : m (Outcome × Session) := do
  match ← readText files path s.options.encoding with
  | .ok text => s.run files path.render (some path) text
  | .error fault => return (⟨.error fault, []⟩, s)

end Session

end CobolText
