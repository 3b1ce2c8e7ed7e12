import CobolText.Proofs.EntryProse
import CobolText.Proofs.FailedRuns

/-!
# Bounds on inclusion

Copybooks may include each other in any way, and a file may be meant under many spellings.  The
stack of the units that are being expanded still stays short: the main source is at its bottom,
every level of inclusion that is used up adds one unit to it, and a unit is only added if no unit on
it is the same.  A run that meets a copybook it may not enter ends without a result.
-/

namespace CobolText

variable {σ : Type}

namespace Expansion

variable {files : FileAccess (StateM σ)} {r : RunRules}

/-- Whether no two units of a stack are the same. -/
def Apart (workDir : Path) (stack : List Inclusion) : Prop :=
  stack.Pairwise fun i j => i.sameUnit workDir j = false

/-- A stack with the main source at its bottom and different units on it, one for every level that
is used up. -/
structure Rooted (workDir : Path) (depth : Nat) (bottom : Inclusion) (levels : Nat)
    (stack : List Inclusion) : Prop where
  levels_eq : levels + stack.length = depth + 1
  head_eq : stack.head? = some bottom
  apart : Apart workDir stack

section Rooted

variable {workDir : Path} {depth levels : Nat} {bottom : Inclusion} {stack : List Inclusion}

lemma rooted_singleton : Rooted workDir depth bottom depth [bottom] :=
  ⟨rfl, rfl, List.pairwise_singleton _ _⟩

/-- A unit that is not on the stack is put on top of it for one level. -/
lemma Rooted.grow (h : Rooted workDir depth bottom (levels + 1) stack) {unit : Inclusion}
    (fresh : (stack.any fun i => i.sameUnit workDir unit) = false) :
    Rooted workDir depth bottom levels (stack ++ [unit]) where
  levels_eq := by
    have hlevels := h.levels_eq
    rw [List.length_append, List.length_singleton]
    omega
  head_eq := by
    rw [List.head?_append, h.head_eq]
    rfl
  apart := by
    apply List.pairwise_append.mpr
    refine ⟨h.apart, List.pairwise_singleton _ _, ?_⟩
    intro i hi j hj
    obtain rfl := List.mem_singleton.mp hj
    rw [List.any_eq_false] at fresh
    exact Bool.eq_false_iff.mpr (fresh i hi)

lemma Rooted.length_le (h : Rooted workDir depth bottom levels stack) :
    stack.length ≤ depth + 1 := by
  have hlevels := h.levels_eq
  omega

/-- No level is left once the stack is higher than the depth. -/
lemma Rooted.levels_eq_zero_iff (h : Rooted workDir depth bottom levels stack) :
    levels = 0 ↔ depth < stack.length := by
  have hlevels := h.levels_eq
  omega

end Rooted

namespace Stage

/-- One step keeps the stack in order: an item leaves it alone, and a copybook that is entered is
put on top of it. -/
lemma Next.rooted {bottom : Inclusion} {depth : Nat} {s b : Stage σ} (h : Next files r s b)
    (hs : Rooted files.workDir depth bottom s.levels s.stack) :
    Rooted files.workDir depth bottom b.levels b.stack := by
  cases h with
  | item carried => exact hs
  | book found same fresh loaded read => exact hs.grow fresh

lemma Reaches.rooted {bottom : Inclusion} {depth : Nat} {s b : Stage σ} (h : s.Reaches files r b)
    (hs : Rooted files.workDir depth bottom s.levels s.stack) :
    Rooted files.workDir depth bottom b.levels b.stack := by
  induction h with
  | refl => exact hs
  | tail _ hnext ih => exact hnext.rooted ih

/-- There is no way to go on without end. -/
lemma no_endless_run (files : FileAccess (StateM σ)) (r : RunRules) (stages : ℕ → Stage σ) :
    ¬∀ n, Next files r (stages n) (stages (n + 1)) := by
  intro hnext
  have hempty := wellFounded_iff_isEmpty_descending_chain.mp (next_wellFounded files r)
  exact hempty.false ⟨stages, hnext⟩

end Stage

end Expansion

namespace Session

open Expansion

/-- Whether a run comes to stand at a stage. -/
def Visits (files : FileAccess (StateM σ)) (s : Session) (name : String) (path : Option Path)
    (text : List Char) (fs : σ) (stage : Stage σ) : Prop :=
  ∃ unit, SourceUnit.read (s.options.runRules s.plan).toLineRules name text = .ok unit ∧
    (s.entry name path text unit fs).Reaches files (s.options.runRules s.plan) stage

/-- Whether a run sets about to read and expand the lines of a unit, with a stack of units around
and including it.  It does so for the main source, and for every copybook that is found and loaded
and may be entered. -/
inductive Expands (files : FileAccess (StateM σ)) (s : Session) (name : String)
    (path : Option Path) (text : List Char) (fs : σ) : List Inclusion → Prop
  | main : Expands files s name path text fs [⟨name, none, path⟩]
  | book {stage : Stage σ} {keyword : Token} {clause : CopyClause} {file : Path} {fs₁ : σ}
      {source : List Char} {w : World σ} (visited : s.Visits files name path text fs stage)
      (finds : stage.Finds files (s.options.runRules s.plan) keyword clause file fs₁)
      (fresh : stage.repeats files clause file = false) (deeper : stage.levels ≠ 0)
      (loaded : Returns (loadBook files (s.options.runRules s.plan) file)
        (stage.world.1, fs₁) source w) :
      Expands files s name path text fs (stage.grown clause file)

/-- Whether inclusion is bounded in a run that ended with `result`. -/
structure BoundedCopies (files : FileAccess (StateM σ)) (s : Session) (name : String)
    (path : Option Path) (text : List Char) (fs : σ) (depth : Nat)
    (result : Except Fault Preprocessed) : Prop where
  /-- The run does not go from stage to stage without end. -/
  ends : ∀ stages : ℕ → Stage σ, s.Visits files name path text fs (stages 0) →
    ¬∀ n, Stage.Next files (s.options.runRules s.plan) (stages n) (stages (n + 1))
  /-- The stack of every unit that is expanded has the main source at its bottom, is no higher than
  the depth allows, and holds no unit twice. -/
  bounded : ∀ stack, s.Expands files name path text fs stack →
    stack.head? = some ⟨name, none, path⟩ ∧ stack.length ≤ depth + 1 ∧
      Apart files.workDir stack
  /-- There is no result if a copybook is met that is being expanded already. -/
  circular : ∀ stage keyword clause file fs₁, s.Visits files name path text fs stage →
    stage.Finds files (s.options.runRules s.plan) keyword clause file fs₁ →
    stage.repeats files clause file = true →
    result = .error (.circularCopy ((stage.grown clause file).map Inclusion.label)
      (directivePosition? stage.unit.written keyword))
  /-- There is no result if a further copybook is met below as many as the depth allows. -/
  tooDeep : ∀ stage keyword clause file fs₁, s.Visits files name path text fs stage →
    stage.Finds files (s.options.runRules s.plan) keyword clause file fs₁ →
    stage.repeats files clause file = false → depth < stage.stack.length →
    result = .error (.tooDeep s.options.maxCopyDepth ((stage.grown clause file).map Inclusion.label)
      (directivePosition? stage.unit.written keyword))

variable {files : FileAccess (StateM σ)} {s s' : Session} {fs fs' : σ} {outcome : Outcome}
  {name : String} {path : Option Path} {text : List Char}

lemma maxDepth_runRules {depth : Nat}
    (h : s.options.maxCopyDepth.count? = some (depth : Int)) :
    (s.options.runRules s.plan).maxDepth = depth := by
  simp only [RunRules.maxDepth, Options.runRules, h, Option.getD_some, Int.toNat_natCast]

lemma Visits.rooted {stage : Stage σ} (h : s.Visits files name path text fs stage) :
    Rooted files.workDir (s.options.runRules s.plan).maxDepth ⟨name, none, path⟩ stage.levels
      stage.stack := by
  obtain ⟨unit, -, hreached⟩ := h
  exact Stage.Reaches.rooted hreached rooted_singleton

/-- A run that visits a stage whose next item cannot be carried out has no result. -/
lemma Visits.result_eq {stage : Stage σ} {fault : Fault}
    (h : s.Visits files name path text fs stage)
    (hrun : (s.run files name path text).run fs = ((outcome, s'), fs'))
    (hraises : stage.Raises files (s.options.runRules s.plan) fault) :
    outcome.result = .error fault := by
  obtain ⟨unit, hread, hreached⟩ := h
  exact (run_error_iff hrun).mpr (.inr ⟨unit, hread, stage, hreached, hraises⟩)

lemma Expands.rooted {stack : List Inclusion} (h : s.Expands files name path text fs stack) :
    ∃ levels, Rooted files.workDir (s.options.runRules s.plan).maxDepth ⟨name, none, path⟩ levels
      stack := by
  cases h with
  | main => exact ⟨_, rooted_singleton⟩
  | @book stage keyword clause file fs₁ source w visited finds fresh deeper loaded =>
    obtain ⟨levels, hlevels⟩ := Nat.exists_eq_succ_of_ne_zero deeper
    have hrooted := visited.rooted
    rw [hlevels] at hrooted
    exact ⟨levels, hrooted.grow fresh⟩

lemma run_boundedCopies (h : (s.run files name path text).run fs = ((outcome, s'), fs'))
    {depth : Nat} (hdepth : (s.options.runRules s.plan).maxDepth = depth) :
    s.BoundedCopies files name path text fs depth outcome.result where
  ends stages _ := Stage.no_endless_run files _ stages
  bounded stack hstack := by
    obtain ⟨levels, hrooted⟩ := hstack.rooted
    rw [hdepth] at hrooted
    exact ⟨hrooted.head_eq, hrooted.length_le, hrooted.apart⟩
  circular stage keyword clause file fs₁ visited finds same :=
    visited.result_eq h (.circular finds same)
  tooDeep stage keyword clause file fs₁ visited finds fresh hdeep := by
    apply visited.result_eq h
    apply Stage.Raises.tooDeep finds fresh
    rw [visited.rooted.levels_eq_zero_iff, hdepth]
    exact hdeep

/-- Inclusion is bounded and without cycles, whatever the files hold and however they change: a run
comes to an end, its stack of units is rooted in the main source, no higher than the depth allows
and without repetition, and a copybook that would break this leaves the run without a result. -/
theorem copies_bounded {σ : Type} (files : FileAccess (StateM σ)) (s s' : Session) (fs fs' : σ)
    (outcome : Outcome) (depth : Nat) (hdepth : s.options.maxCopyDepth.count? = some (depth : Int)) :
    (∀ name text, (s.processText files name text).run fs = ((outcome, s'), fs') →
      s.BoundedCopies files name none text fs depth outcome.result) ∧
    ∀ path, (s.processFile files path).run fs = ((outcome, s'), fs') →
      (∃ fault, (readText files path s.options.encoding).run fs = (.error fault, fs') ∧
        outcome.result = .error fault) ∨
      ∃ text fs₁, (readText files path s.options.encoding).run fs = (.ok text, fs₁) ∧
        s.BoundedCopies files path.render (some path) text fs₁ depth outcome.result := by
  have hmax := maxDepth_runRules hdepth
  constructor
  · intro name text h
    exact run_boundedCopies h hmax
  · intro path h
    obtain hfault | ⟨text, fs₁, hread, hrun⟩ := processFile_cases h
    · exact .inl hfault
    · exact .inr ⟨text, fs₁, hread, run_boundedCopies hrun hmax⟩

section Sample

/-- Files that all include the copybook `B`. -/
def cyclicFiles : FileAccess (StateM Unit) where
  workDir := ⟨1, []⟩
  isFile _ := pure true
  read _ := pure (.ok [67, 79, 80, 89, 32, 66, 46])

def cyclicText : List Char :=
  ['C', 'O', 'P', 'Y', ' ', 'B', '.']

/-- A session in free format with copybooks nested at most three deep. -/
def shallowSession : Session where
  options := { Options.standard with
    format := .free, encoding := .text "latin-1", maxCopyDepth := .number 3 }
  plan := sampleRules.plan
  cache := BookCache.empty

abbrev shallowRules : RunRules :=
  shallowSession.options.runRules shallowSession.plan

def cyclicWritten (name : String) : TracedText :=
  LogicalLine.write .ansi85 .free [.sampleCode name 1 cyclicText]

def cyclicKeyword : Token :=
  ⟨.word, ['C', 'O', 'P', 'Y'], 0⟩

def cyclicClause : CopyClause :=
  ⟨"B", none, false, []⟩

set_option maxRecDepth 20000

lemma read_cyclicText (name : String) :
    ∃ unit, SourceUnit.read shallowRules.toLineRules name cyclicText = .ok unit ∧
      unit.written = cyclicWritten name := by
  have hlogical : SourceUnit.logicalLines shallowRules.toLineRules name cyclicText =
      [.sampleCode name 1 cyclicText] := by
    cbv
  apply SourceUnit.exists_read_of_no_keyword hlogical (by simp)
  rw [List.forall_mem_singleton]
  cbv

lemma items_cyclic (name : String) (options : Bool) :
    Item.ofText .ansi85 options (cyclicWritten name).text =
      [.kept 0 0, .copy cyclicKeyword cyclicClause 7, .kept 7 8] := by
  have htext : (cyclicWritten name).text = cyclicText ++ ['\n'] := by
    cbv
  rw [htext]
  cases options with
  | false => cbv
  | true => cbv

/-- The stage of a unit at which its directive comes next. -/
def cyclicStage (levels : Nat) (stack : List Inclusion) (unit : SourceUnit) (w : World Unit) :
    Stage Unit :=
  ⟨levels, stack, cyclicText, unit, Progress.initial.push [unit.written.cut 0 0 []],
    [.copy cyclicKeyword cyclicClause 7, .kept 7 8], warned unit w⟩

lemma cyclic_reaches (files : FileAccess (StateM Unit)) {r : RunRules} (hr : r.dialect = .ansi85)
    {name : String} {unit : SourceUnit} (h : unit.written = cyclicWritten name) (levels : Nat)
    (stack : List Inclusion) (w : World Unit) :
    (Stage.enter r levels stack cyclicText unit w).Reaches files r
      (cyclicStage levels stack unit w) := by
  have hitems : (Stage.enter r levels stack cyclicText unit w).items =
      [.kept 0 0, .copy cyclicKeyword cyclicClause 7, .kept 7 8] := by
    rw [← items_cyclic name (stack.length ≤ 1), ← h, ← hr]
    rfl
  exact .single (.kept hitems)

lemma find_cyclic (position : Option Position) :
    (shallowRules.plan.find cyclicFiles "B" none position).run () = (.ok ⟨0, ["B"]⟩, ()) := by
  cbv

lemma load_cyclic (diagnostics : List Diagnostic) :
    Returns (loadBook cyclicFiles shallowRules ⟨0, ["B"]⟩)
      (⟨BookCache.empty, diagnostics⟩, ()) cyclicText
      (⟨⟨[⟨⟨1, ["B"]⟩, .text "latin-1", cyclicText⟩]⟩, diagnostics⟩, ()) := by
  rw [Returns]
  cbv

/-- The main source includes the copybook, which is entered and includes itself. -/
lemma cyclic_visits : ∃ levels unit w, unit.written = cyclicWritten "B" ∧
    shallowSession.Visits cyclicFiles "main" none cyclicText () (cyclicStage levels
      [⟨"main", none, none⟩, ⟨"B", none, some ⟨0, ["B"]⟩⟩] unit w) := by
  obtain ⟨unit, hread, hwritten⟩ := read_cyclicText "main"
  obtain ⟨book, hbook, hbookWritten⟩ := read_cyclicText "B"
  have hfresh : (([⟨"main", none, none⟩] : List Inclusion).any fun i =>
      i.sameUnit cyclicFiles.workDir ⟨"B", none, some ⟨0, ["B"]⟩⟩) = false := by
    cbv
  have hdialect : shallowRules.dialect = .ansi85 := rfl
  have hmain := cyclic_reaches cyclicFiles hdialect hwritten 3 [⟨"main", none, none⟩]
    (⟨BookCache.empty, []⟩, ())
  have hbooked := hmain.tail (.book (find_cyclic _) rfl hfresh (load_cyclic _) hbook)
  have hentered := cyclic_reaches cyclicFiles hdialect hbookWritten
  exact ⟨_, book, _, hbookWritten, unit, hread, hbooked.trans (hentered _ _ _)⟩

end Sample

/-- A copybook that includes itself leaves a run without a result. -/
theorem copies_bounded_cycle :
    ∃ (outcome : Outcome) (s' : Session),
      (shallowSession.processText cyclicFiles "main" cyclicText).run () = ((outcome, s'), ()) ∧
      shallowSession.BoundedCopies cyclicFiles "main" none cyclicText () 3 outcome.result ∧
      outcome.result = .error (.circularCopy ["main", "B", "B"] (some ⟨"B", 1, 1⟩)) := by
  rcases hrun : (shallowSession.processText cyclicFiles "main" cyclicText).run () with
    ⟨⟨outcome, s'⟩, fs⟩
  have hbounded := (copies_bounded cyclicFiles shallowSession s' () fs outcome 3 rfl).1 "main"
    cyclicText hrun
  obtain ⟨levels, unit, w, hwritten, hvisits⟩ := cyclic_visits
  have hposition : directivePosition? (cyclicWritten "B") cyclicKeyword = some ⟨"B", 1, 1⟩ := by
    cbv
  have hresult := hbounded.circular _ cyclicKeyword cyclicClause ⟨0, ["B"]⟩ () hvisits
    ⟨⟨7, _, rfl⟩, find_cyclic _⟩ (by cbv)
  refine ⟨outcome, s', rfl, hbounded, ?_⟩
  rw [← hwritten] at hposition
  rw [hresult, ← hposition]
  rfl

end Session

end CobolText
