import CobolText.Copybook.Cache
import CobolText.Copybook.Inclusion
import CobolText.Copybook.Search
import CobolText.Directive.Item
import CobolText.Replacement.Apply
import CobolText.SourceUnit

/-!
# Expansion

The directives of a document are carried out item by item.  Text that is kept, and the expansion
of copybooks, is pending until the rules in force change; then it goes through those rules into
the output.  A copybook is a unit of its own: it is read and expanded by itself, and its
`REPLACE` directives have no effect outside it.
-/

namespace CobolText

/-- What a run works with. -/
structure RunRules extends LineRules where
  plan : SearchPlan
  encoding : Value
  /-- How deeply copybooks may be nested, as it was chosen. -/
  depth : Value
deriving DecidableEq, Repr

/-- How deeply copybooks may be nested. -/
def RunRules.maxDepth (r : RunRules) : Nat :=
  (r.depth.count?.getD 0).toNat

/-- What a run leaves behind: the copybooks read and the warnings given so far. -/
structure RunState where
  cache : BookCache
  diagnostics : List Diagnostic
deriving DecidableEq, Repr

/-- What the expansion of a document is busy with. -/
inductive Phase where
  | scanning
  | insideDirective
  | expandingCopybook
  | applyingReplace
  | done
deriving DecidableEq, Repr

/-- How far the expansion of a document is. -/
structure Progress where
  /-- Finished output, newest first. -/
  output : List Fragment
  /-- Text that waits for the rules in force, newest first. -/
  pending : List Fragment
  /-- The rules in force, oldest level first. -/
  levels : List (List ReplacementRule)
  copies : Nat
deriving DecidableEq, Repr

/-- Where the expansion of a document came to an end without a result, and how far it was. -/
structure Halt where
  fault : Fault
  phase : Phase
  progress : Progress
deriving DecidableEq, Repr

/-- A computation that reads files, keeps the state of a run and may halt.  What it did to the
state before it halted stays. -/
abbrev Run (m : Type → Type) : Type → Type :=
  ExceptT Halt (StateT RunState m)

/-- How a copybook is expanded: from the stack of units with the copybook on it, its name and its
text. -/
abbrev Expander (m : Type → Type) : Type :=
  List Inclusion → String → List Char → Run m TracedText

/-- The levels of rules after a `REPLACE` directive. -/
def RuleChange.apply (levels : List (List ReplacementRule)) :
    RuleChange → List (List ReplacementRule)
  | .only rules => [rules]
  | .also rules => levels ++ [rules]
  | .dropLast => levels.dropLast
  | .off => []

namespace Progress

/-- Nothing done yet. -/
def initial : Progress :=
  ⟨[], [], [], 0⟩

/-- Adds text that waits. -/
def push (p : Progress) (fs : List Fragment) : Progress :=
  { p with pending := fs.reverse ++ p.pending }

/-- Moves the waiting text through the rules in force into the output. -/
def flush (p : Progress) : Progress :=
  let text := TracedText.assemble p.pending.reverse
  if text.text.isEmpty then p
  else { p with output := (text.replace p.levels.flatten).whole [] :: p.output, pending := [] }

/-- Changes the rules in force; what waits goes through the old ones. -/
def change (p : Progress) (effect : RuleChange) : Progress :=
  let p := p.flush
  { p with levels := effect.apply p.levels }

/-- The output once everything is read. -/
def finish (p : Progress) : TracedText :=
  TracedText.assemble p.flush.output.reverse

end Progress

namespace Halt

/-- How many `COPY` directives of the document were carried out before. -/
def copies (h : Halt) : Nat :=
  h.progress.copies

/-- The end of a unit that nothing is expanded of. -/
def atStart (fault : Fault) : Halt :=
  ⟨fault, .scanning, .initial⟩

/-- The end of a document that is as far as `p` when the expansion of a copybook comes to an end. -/
def inCopybook (p : Progress) (h : Halt) : Halt :=
  ⟨h.fault, .expandingCopybook, p⟩

end Halt

namespace Expansion

/-- The position of a directive: that of its keyword, or of the first text with an origin after
it. -/
def directivePosition? (t : TracedText) (keyword : Token) : Option Position :=
  (t.map.positionAt? keyword.start).or (t.map.firstPosition? keyword.start t.text.length)

/-- How many columns stand before an offset on its line. -/
def columnsBefore (text : List Char) (offset : Nat) : Nat :=
  ((text.take offset).reverse.takeWhile (· != '\n')).length

/-- The expansion of a copybook as it is put into the place of a directive that ends at `stop`.
The line end of the directive closes the last line of the copybook; but if more text follows the
directive on its line, that text goes on a new line and keeps its column. -/
def splice (text : List Char) (stop : Nat) (name : String) (book : TracedText) : List Fragment :=
  let rest := (text.drop stop).takeWhile (· != '\n')
  let endsLine := book.text.getLast? == some '\n'
  if Text.isBlankText rest || book.text.isEmpty then
    [book.cut 0 (if endsLine then book.text.length - 1 else book.text.length : Nat) [name]]
  else
    [book.cut 0 book.text.length [name],
      Fragment.synthetic (if endsLine then [] else ['\n']),
      Fragment.synthetic (Text.spaces (columnsBefore text stop))]

variable {m : Type → Type} [Monad m]

/-- Halts before anything of a unit is expanded. -/
def haltAtStart {α : Type} (fault : Fault) : Run m α :=
  throw (.atStart fault)

/-- Reads a copybook through the cache. -/
def loadBook (files : FileAccess m) (r : RunRules) (path : Path) : Run m (List Char) := do
  let s ← get
  let (result, cache) ← (liftM (s.cache.load files path r.encoding) : StateT RunState m _)
  set { s with cache }
  match result with
  | .ok text => return text
  | .error fault => haltAtStart fault

/-- Reads the lines of a unit. -/
def readUnit (r : RunRules) (name : String) (text : List Char) : Run m SourceUnit :=
  match SourceUnit.read r.toLineRules name text with
  | .ok unit => return unit
  | .error fault => haltAtStart fault

/-- Finds, checks, reads and expands the copybook of a `COPY` directive.  Without an expander no
further level of inclusion is allowed. -/
def includeBook (files : FileAccess m) (r : RunRules) (expand : Option (Expander m))
    (stack : List Inclusion) (clause : CopyClause) (position : Option Position) :
    Run m TracedText := do
  match ← (liftM (r.plan.find files clause.name clause.library position) : StateT RunState m _) with
  | .error fault => haltAtStart fault
  | .ok path =>
    let unit : Inclusion := ⟨clause.name, clause.library, some path⟩
    let chain := (stack ++ [unit]).map Inclusion.label
    if stack.any fun i => i.sameUnit files.workDir unit then
      haltAtStart (.circularCopy chain position)
    else
      match expand with
      | none => haltAtStart (.tooDeep r.depth chain position)
      | some expand =>
        let text ← loadBook files r path
        let book ← expand (stack ++ [unit]) path.render text
        return book.replace clause.rules

/-- Carries out one item of a document.  Wherever it halts, the document is as far as it was before
the item; a halt inside a copybook counts as one in the document that includes it. -/
def carryOut (files : FileAccess m) (r : RunRules) (expand : Option (Expander m))
    (stack : List Inclusion) (t : TracedText) (p : Progress) : Item → Run m Progress
  | .kept start stop => return p.push [t.cut start stop []]
  | .change effect => return p.change effect
  | .malformed keyword defect =>
    let phase := if defect == .missingEndExec then Phase.scanning else .insideDirective
    let fault := Fault.malformed (Directive.label keyword.upper defect) defect
      (directivePosition? t keyword)
    throw ⟨fault, phase, p⟩
  | .copy keyword clause stop => do
    let position := directivePosition? t keyword
    let book ← ExceptT.adapt (Halt.inCopybook p) (includeBook files r expand stack clause position)
    let p := p.push (splice t.text stop clause.name book)
    return { p with copies := p.copies + 1 }

/-- Expands the directives of a document, and counts its `COPY` directives. -/
def expandDocument (files : FileAccess m) (r : RunRules) (expand : Option (Expander m))
    (stack : List Inclusion) (t : TracedText) : Run m (TracedText × Nat) := do
  let items := Item.ofText r.dialect (stack.length ≤ 1) t.text
  let p ← items.foldlM (carryOut files r expand stack t) Progress.initial
  return (p.finish, p.copies)

/-- Expands a unit whose copybooks may be nested `levels` deep below it.  Its warnings come before
those of its copybooks. -/
def expandUnit (files : FileAccess m) (r : RunRules) :
    Nat → List Inclusion → SourceUnit → Run m TracedText
  | 0, stack, unit => do
    modify fun s => { s with diagnostics := s.diagnostics ++ unit.diagnostics }
    return (← expandDocument files r none stack unit.written).1
  | levels + 1, stack, unit => do
    modify fun s => { s with diagnostics := s.diagnostics ++ unit.diagnostics }
    let expand : Expander m := fun inner name text => do
      expandUnit files r levels inner (← readUnit r name text)
    return (← expandDocument files r (some expand) stack unit.written).1

/-- The way in which copybooks are expanded below a unit with `levels` further levels. -/
def below (files : FileAccess m) (r : RunRules) : Nat → Option (Expander m)
  | 0 => none
  | levels + 1 => some fun inner name text => do
    expandUnit files r levels inner (← readUnit r name text)

/-- How many further levels of inclusion a stack leaves. -/
def levelsLeft (r : RunRules) (stack : List Inclusion) : Nat :=
  r.maxDepth + 1 - stack.length

/-- The way to expand copybooks below a stack, if a further level is allowed. -/
def expander (files : FileAccess m) (r : RunRules) (stack : List Inclusion) :
    Option (Expander m) :=
  below files r (levelsLeft r stack)

end Expansion

end CobolText
