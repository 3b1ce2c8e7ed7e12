import CobolText.Proofs.CopybookLoads
import CobolText.Proofs.InclusionBounds

/-!
# One cache for many runs

A session keeps the copybooks that its runs read.  As long as the files stay as they are, this
changes no outcome: a cache that holds what the files hold gives the text that the file would give.
So every call of a session has the outcome that it has in a fresh session, whatever was called
before and however that ended, and calls in another order have the same outcomes in that order.
-/

namespace CobolText

variable {σ : Type} {α β : Type} {files : FileAccess (StateM σ)} {fs : σ}

/-- Whether files stay as they are when they are looked at. -/
structure FileAccess.Unchanging (files : FileAccess (StateM σ)) (fs : σ) : Prop where
  isFile : ∀ path, ((files.isFile path).run fs).2 = fs
  read : ∀ path, ((files.read path).run fs).2 = fs

namespace FileAccess.Unchanging

lemma bind {x : StateM σ α} {f : α → StateM σ β} (hx : (x.run fs).2 = fs)
    (hf : ∀ a, ((f a).run fs).2 = fs) : ((x >>= f).run fs).2 = fs := by
  have hrun : (x >>= f).run fs = (f (x.run fs).1).run (x.run fs).2 := rfl
  rw [hrun, hx]
  exact hf _

lemma firstFile? (h : files.Unchanging fs) (paths : List Path) :
    ((SearchPlan.firstFile? files paths).run fs).2 = fs := by
  induction paths with
  | nil => rfl
  | cons path paths ih =>
    apply bind (h.isFile path)
    intro found
    cases found with
    | true => rfl
    | false => exact ih

lemma find (h : files.Unchanging fs) (plan : SearchPlan) (name : String)
    (library : Option String) (position : Option Position) :
    ((plan.find files name library position).run fs).2 = fs := by
  unfold SearchPlan.find
  cases plan.candidatesFor name library with
  | error e => rfl
  | ok paths =>
    apply bind (h.firstFile? paths)
    intro found
    cases found <;> rfl

lemma readText (h : files.Unchanging fs) (path : Path) (encoding : Value) :
    ((CobolText.readText files path encoding).run fs).2 = fs := by
  unfold CobolText.readText
  cases encodingName? encoding with
  | none => rfl
  | some name =>
    apply bind (h.read path)
    intro found
    cases found with
    | error failure => rfl
    | ok bytes =>
      dsimp only
      cases Encoding.ofName? name with
      | none => rfl
      | some e =>
        dsimp only
        cases e.decode bytes <;> rfl

end FileAccess.Unchanging

namespace BookCache

/-- Whether a cache holds copybooks as the files hold them. -/
def Faithful (files : FileAccess (StateM σ)) (fs : σ) (c : BookCache) : Prop :=
  ∀ path encoding text, c.get? path encoding = some text →
    ((readText files path encoding).run fs).1 = .ok text

lemma faithful_empty : BookCache.empty.Faithful files fs := by
  intro path encoding text h
  cases h

lemma Faithful.insert {c : BookCache} (h : c.Faithful files fs) {book : LoadedBook}
    (hbook : ((readText files book.path book.encoding).run fs).1 = .ok book.text) :
    (c.insert book).Faithful files fs := by
  intro path encoding text hget
  -- A copybook that the cache knew hides the new one.
  by_cases hknown : c.get? path encoding = none
  · simp only [get?, BookCache.insert, List.find?_append] at hget hknown
    rw [Option.map_eq_none_iff.mp hknown, Option.none_or, List.find?_singleton] at hget
    split at hget
    · rename_i hsame
      simp only [Bool.and_eq_true, beq_iff_eq] at hsame
      rw [← hsame.1, ← hsame.2, ← Option.some.inj hget]
      exact hbook
    · cases hget
  · obtain ⟨known, hknown⟩ := Option.ne_none_iff_exists'.mp hknown
    rw [within_insert c book path encoding known hknown] at hget
    rw [← Option.some.inj hget]
    exact h path encoding known hknown

/-- What is loaded through a faithful cache is what the file holds, and the cache stays faithful. -/
lemma Faithful.load (hfiles : files.Unchanging fs) {c : BookCache} (h : c.Faithful files fs)
    (path : Path) (encoding : Value) :
    ∃ c' : BookCache, c'.Faithful files fs ∧ (c.load files path encoding).run fs =
      ((((readText files (Path.resolve files.workDir path) encoding).run fs).1, c'), fs) := by
  unfold BookCache.load
  dsimp only
  cases hget : c.get? (Path.resolve files.workDir path) encoding with
  | some text =>
    refine ⟨c, h, ?_⟩
    rw [h _ _ _ hget]
    rfl
  | none =>
    have hkept := hfiles.readText (Path.resolve files.workDir path) encoding
    rcases hread : (readText files (Path.resolve files.workDir path) encoding).run fs with
      ⟨result, fs'⟩
    obtain rfl : fs' = fs := by
      rw [hread] at hkept
      exact hkept
    cases result with
    | error fault => exact ⟨c, h, access_bind_iff.mpr ⟨_, _, hread, rfl⟩⟩
    | ok text =>
      refine ⟨c.insert ⟨_, encoding, text⟩, h.insert ?_, access_bind_iff.mpr ⟨_, _, hread, rfl⟩⟩
      rw [hread]

end BookCache

/-- Whether two worlds have the same files and warnings, and caches that hold what the files
hold. -/
structure Alike (files : FileAccess (StateM σ)) (fs : σ) (w w' : World σ) : Prop where
  files_eq : w.2 = fs ∧ w'.2 = fs
  diagnostics_eq : w.1.diagnostics = w'.1.diagnostics
  faithful : w.1.cache.Faithful files fs ∧ w'.1.cache.Faithful files fs

/-- Whether a computation does the same in worlds that differ in their caches only. -/
def Transparent (files : FileAccess (StateM σ)) (fs : σ) (x : Run (StateM σ) α) : Prop :=
  ∀ w w', Alike files fs w w' →
    Run.result x w = Run.result x w' ∧ Alike files fs (Run.after x w) (Run.after x w')

namespace Transparent

lemma pure (a : α) : Transparent files fs (pure a : Run (StateM σ) α) :=
  fun _ _ h => ⟨rfl, h⟩

lemma throw (e : Halt) : Transparent files fs (throw e : Run (StateM σ) α) :=
  fun _ _ h => ⟨rfl, h⟩

lemma bind {x : Run (StateM σ) α} {f : α → Run (StateM σ) β} (hx : Transparent files fs x)
    (hf : ∀ a, Transparent files fs (f a)) : Transparent files fs (x >>= f) := by
  intro w w' h
  obtain ⟨hresult, hafter⟩ := hx w w' h
  rw [Run.result_bind, Run.result_bind, Run.after_bind, Run.after_bind, hresult]
  cases Run.result x w' with
  | error e => exact ⟨rfl, hafter⟩
  | ok a => exact hf a _ _ hafter

lemma adapt {x : Run (StateM σ) α} (hx : Transparent files fs x) (g : Halt → Halt) :
    Transparent files fs (ExceptT.adapt g x) := by
  intro w w' h
  obtain ⟨hresult, hafter⟩ := hx w w' h
  rw [Run.result_adapt, Run.result_adapt, Run.after_adapt, Run.after_adapt, hresult]
  exact ⟨rfl, hafter⟩

lemma lift {x : StateM σ α} (hx : (x.run fs).2 = fs) :
    Transparent files fs (liftM (liftM x : StateT RunState (StateM σ) α) : Run (StateM σ) α) := by
  intro w w' h
  obtain ⟨hfiles, hfiles'⟩ := h.files_eq
  have hrun : ∀ v : World σ, v.2 = fs →
      Run.outcome (liftM (liftM x : StateT RunState (StateM σ) α) : Run (StateM σ) α) v =
        ((.ok (x.run fs).1, v.1), fs) := by
    intro v hv
    have hself : Run.outcome (liftM (liftM x : StateT RunState (StateM σ) α) :
      Run (StateM σ) α) v = ((.ok (x.run v.2).1, v.1), (x.run v.2).2) := rfl
    rw [hself, hv, hx]
  rw [Run.result, Run.result, Run.after, Run.after, hrun w hfiles, hrun w' hfiles']
  exact ⟨rfl, ⟨rfl, rfl⟩, h.diagnostics_eq, h.faithful⟩

lemma warn (diagnostics : List Diagnostic) :
    Transparent files fs (modify fun s : RunState =>
      { s with diagnostics := s.diagnostics ++ diagnostics }) := by
  intro w w' h
  refine ⟨rfl, h.files_eq, ?_, h.faithful⟩
  change w.1.diagnostics ++ diagnostics = w'.1.diagnostics ++ diagnostics
  rw [h.diagnostics_eq]

lemma foldlM {f : β → α → Run (StateM σ) β} (hf : ∀ b a, Transparent files fs (f b a))
    (items : List α) (b : β) : Transparent files fs (items.foldlM f b) := by
  induction items generalizing b with
  | nil => exact pure b
  | cons a items ih =>
    rw [List.foldlM_cons]
    exact (hf b a).bind ih

end Transparent

namespace Expansion

variable {r : RunRules}

lemma transparent_loadBook (hfiles : files.Unchanging fs) (path : Path) :
    Transparent files fs (loadBook files r path) := by
  intro w w' h
  have hload : ∀ v : World σ, v.2 = fs → v.1.cache.Faithful files fs →
      ∃ c : BookCache, c.Faithful files fs ∧ Run.outcome (loadBook files r path) v =
        ((((readText files (Path.resolve files.workDir path) r.encoding).run fs).1.mapError
          Halt.atStart, { v.1 with cache := c }), fs) := by
    intro v hv hfaithful
    obtain ⟨c, hc, hrun⟩ := hfaithful.load hfiles path r.encoding
    refine ⟨c, hc, ?_⟩
    rw [outcome_loadBook, Load.inWorld, hv, hrun]
  obtain ⟨c, hc, hrun⟩ := hload w h.files_eq.1 h.faithful.1
  obtain ⟨c', hc', hrun'⟩ := hload w' h.files_eq.2 h.faithful.2
  rw [Run.result, Run.result, Run.after, Run.after, hrun, hrun']
  exact ⟨rfl, ⟨rfl, rfl⟩, h.diagnostics_eq, hc, hc'⟩

lemma transparent_readUnit (name : String) (text : List Char) :
    Transparent files fs (readUnit r name text : Run (StateM σ) SourceUnit) := by
  unfold readUnit
  cases SourceUnit.read r.toLineRules name text with
  | error fault => exact .throw _
  | ok unit => exact .pure unit

lemma transparent_includeBook (hfiles : files.Unchanging fs) {expand : Option (Expander (StateM σ))}
    (hexpand : ∀ e ∈ expand, ∀ stack name text, Transparent files fs (e stack name text))
    (stack : List Inclusion) (clause : CopyClause) (position : Option Position) :
    Transparent files fs (includeBook files r expand stack clause position) := by
  unfold includeBook
  apply (Transparent.lift (hfiles.find _ _ _ _)).bind
  intro found
  cases found with
  | error fault => exact .throw _
  | ok path =>
    dsimp only
    split
    · exact .throw _
    · cases expand with
      | none => exact .throw _
      | some expandText =>
        apply (transparent_loadBook hfiles path).bind
        intro text
        exact (hexpand expandText rfl _ _ text).bind fun book => .pure _

lemma transparent_carryOut (hfiles : files.Unchanging fs) {expand : Option (Expander (StateM σ))}
    (hexpand : ∀ e ∈ expand, ∀ stack name text, Transparent files fs (e stack name text))
    (stack : List Inclusion) (t : TracedText) (p : Progress) (item : Item) :
    Transparent files fs (carryOut files r expand stack t p item) := by
  cases item with
  | kept start stop => exact .pure _
  | change effect => exact .pure _
  | malformed keyword defect => exact .throw _
  | copy keyword clause stop =>
    exact ((transparent_includeBook hfiles hexpand stack clause _).adapt _).bind fun book => .pure _

lemma transparent_expandDocument (hfiles : files.Unchanging fs)
    {expand : Option (Expander (StateM σ))}
    (hexpand : ∀ e ∈ expand, ∀ stack name text, Transparent files fs (e stack name text))
    (stack : List Inclusion) (t : TracedText) :
    Transparent files fs (expandDocument files r expand stack t) :=
  (Transparent.foldlM (transparent_carryOut hfiles hexpand stack t) _ _).bind fun _ => .pure _

/-- However deeply copybooks are nested, a unit is expanded in the same way whatever the cache
holds of the files. -/
theorem transparent_expandUnit (hfiles : files.Unchanging fs) (levels : Nat)
    (stack : List Inclusion) (unit : SourceUnit) :
    Transparent files fs (expandUnit files r levels stack unit) := by
  induction levels generalizing stack unit with
  | zero =>
    -- No copybook may be entered here, so there is nothing to ask of their expander.
    apply (Transparent.warn unit.diagnostics).bind
    intro _
    refine (transparent_expandDocument hfiles (fun e he => ?_) stack _).bind fun _ => .pure _
    cases he
  | succ levels ih =>
    apply (Transparent.warn unit.diagnostics).bind
    intro _
    refine (transparent_expandDocument hfiles (fun e he => ?_) stack _).bind fun _ => .pure _
    obtain rfl := Option.some.inj he
    intro inner name text
    exact (transparent_readUnit name text).bind (ih inner)

end Expansion

namespace Session

open Expansion

/-- One source to preprocess. -/
inductive Call where
  | text (name : String) (text : List Char)
  | file (path : Path)

def perform (files : FileAccess (StateM σ)) (s : Session) : Call → StateM σ (Outcome × Session)
  | .text name text => s.processText files name text
  | .file path => s.processFile files path

/-- Preprocesses sources one after the other in one session. -/
def performAll (files : FileAccess (StateM σ)) :
    Session → List Call → StateM σ (List Outcome × Session)
  | s, [] => return ([], s)
  | s, call :: calls => do
    let (outcome, s) ← s.perform files call
    let (outcomes, s) ← performAll files s calls
    return (outcome :: outcomes, s)

/-- The loads that are made while a source is preprocessed. -/
def runLoads (files : FileAccess (StateM σ)) (s : Session) (name : String) (path : Option Path)
    (text : List Char) (fs : σ) : List Load :=
  let rules := s.options.runRules s.plan
  match SourceUnit.read rules.toLineRules name text with
  | .error _ => []
  | .ok unit =>
    unitLoads files rules rules.maxDepth [⟨name, none, path⟩] unit (⟨s.cache, []⟩, fs)

/-- The loads of a call; a source that is a file is no copybook and not loaded. -/
def callLoads (files : FileAccess (StateM σ)) (s : Session) (fs : σ) : Call → List Load
  | .text name text => s.runLoads files name none text fs
  | .file path =>
    match (readText files path s.options.encoding).run fs with
    | (.error _, _) => []
    | (.ok text, fs) => s.runLoads files path.render (some path) text fs

def allLoads (files : FileAccess (StateM σ)) : Session → σ → List Call → List Load
  | _, _, [] => []
  | s, fs, call :: calls =>
    s.callLoads files fs call ++ allLoads files ((s.perform files call).run fs).1.2
      ((s.perform files call).run fs).2 calls

variable {s s' : Session} {name : String} {path : Option Path} {text : List Char}

def expansion (files : FileAccess (StateM σ)) (r : RunRules) (name : String) (path : Option Path)
    (unit : SourceUnit) : Run (StateM σ) TracedText :=
  expandUnit files r r.maxDepth [⟨name, none, path⟩] unit

/-- What is reported about the expansion of the main source. -/
def report (name : String) (unit : SourceUnit) (result : Except Halt TracedText)
    (diagnostics : List Diagnostic) : Outcome :=
  ⟨match result with
    | .ok output => .ok ⟨name, output, diagnostics, unit.lines, unit.blocks⟩
    | .error halt => .error halt.fault, diagnostics⟩

lemma run_eq {r : RunRules} (hr : s.options.runRules s.plan = r) {unit : SourceUnit}
    (hread : SourceUnit.read r.toLineRules name text = .ok unit) {w : World σ}
    (hw : w = (⟨s.cache, []⟩, fs)) :
    (s.run files name path text).run fs =
      ((report name unit (Run.result (expansion files r name path unit) w)
          (Run.after (expansion files r name path unit) w).1.diagnostics,
        { s with cache := (Run.after (expansion files r name path unit) w).1.cache }),
        (Run.after (expansion files r name path unit) w).2) := by
  unfold run
  simp only [hr, hread]
  rw [hw]
  rfl

lemma run_eq_error {r : RunRules} (hr : s.options.runRules s.plan = r) {fault : Fault}
    (hread : SourceUnit.read r.toLineRules name text = .error fault) :
    (s.run files name path text).run fs = ((⟨.error fault, []⟩, s), fs) := by
  unfold run
  simp only [hr, hread]
  rfl

/-- Whether two sessions have the same options, and caches that hold what the files hold. -/
structure Agrees (files : FileAccess (StateM σ)) (fs : σ) (s s' : Session) : Prop where
  options_eq : s.options = s'.options
  plan_eq : s.plan = s'.plan
  faithful : s.cache.Faithful files fs ∧ s'.cache.Faithful files fs

/-- Whether a computation has the same outcome in two sessions, leaves the files alone, and leaves
a session that agrees with the second one. -/
structure SameOutcome (files : FileAccess (StateM σ)) (fs : σ) (s' : Session)
    (x x' : StateM σ (Outcome × Session)) : Prop where
  outcome_eq : (x.run fs).1.1 = (x'.run fs).1.1
  files_eq : (x.run fs).2 = fs
  agrees : ((x.run fs).1.2).Agrees files fs s'

lemma run_sameOutcome (hfiles : files.Unchanging fs) (h : s.Agrees files fs s') (name : String)
    (path : Option Path) (text : List Char) :
    SameOutcome files fs s' (s.run files name path text) (s'.run files name path text) := by
  generalize hr' : s'.options.runRules s'.plan = r
  have hr : s.options.runRules s.plan = r := by rw [h.options_eq, h.plan_eq, hr']
  cases hread : SourceUnit.read r.toLineRules name text with
  | error fault =>
    refine ⟨?_, ?_, ?_⟩
    · rw [run_eq_error hr hread, run_eq_error hr' hread]
    · rw [run_eq_error hr hread]
    · rw [run_eq_error hr hread]
      exact h
  | ok unit =>
    obtain ⟨hresult, hafter⟩ := transparent_expandUnit hfiles r.maxDepth [⟨name, none, path⟩] unit
      (⟨s.cache, []⟩, fs) (⟨s'.cache, []⟩, fs) ⟨⟨rfl, rfl⟩, rfl, h.faithful⟩
    rw [← expansion] at hresult hafter
    refine ⟨?_, ?_, ?_⟩
    · rw [run_eq hr hread rfl, run_eq hr' hread rfl, hresult, hafter.diagnostics_eq]
    · rw [run_eq hr hread rfl]
      exact hafter.files_eq.1
    · rw [run_eq hr hread rfl]
      exact ⟨h.options_eq, h.plan_eq, hafter.faithful.1, h.faithful.2⟩

lemma perform_file {path : Path} {fs' : σ}
    (hread : (readText files path s.options.encoding).run fs = (.ok text, fs')) :
    (s.perform files (.file path)).run fs =
      (s.run files path.render (some path) text).run fs' :=
  access_bind_iff.mpr ⟨.ok text, fs', hread, rfl⟩

lemma perform_file_error {path : Path} {fault : Fault} {fs' : σ}
    (hread : (readText files path s.options.encoding).run fs = (.error fault, fs')) :
    (s.perform files (.file path)).run fs = ((⟨.error fault, []⟩, s), fs') :=
  access_bind_iff.mpr ⟨.error fault, fs', hread, rfl⟩

lemma perform_sameOutcome (hfiles : files.Unchanging fs) (h : s.Agrees files fs s') (call : Call) :
    SameOutcome files fs s' (s.perform files call) (s'.perform files call) := by
  cases call with
  | text name text => exact run_sameOutcome hfiles h name none text
  | file path =>
    have hkept := hfiles.readText path s'.options.encoding
    rcases hread' : (readText files path s'.options.encoding).run fs with ⟨result, fs'⟩
    have hread := hread'
    rw [← h.options_eq] at hread
    rw [hread'] at hkept
    obtain rfl : fs' = fs := hkept
    cases result with
    | error fault =>
      refine ⟨?_, ?_, ?_⟩
      · rw [perform_file_error hread, perform_file_error hread']
      · rw [perform_file_error hread]
      · rw [perform_file_error hread]
        exact h
    | ok text =>
      have hsame := run_sameOutcome hfiles h path.render (some path) text
      refine ⟨?_, ?_, ?_⟩
      · rw [perform_file hread, perform_file hread']
        exact hsame.outcome_eq
      · rw [perform_file hread]
        exact hsame.files_eq
      · rw [perform_file hread]
        exact hsame.agrees

lemma performAll_cons (call : Call) (calls : List Call) :
    (performAll files s (call :: calls)).run fs =
      ((((s.perform files call).run fs).1.1 ::
        ((performAll files ((s.perform files call).run fs).1.2 calls).run
          ((s.perform files call).run fs).2).1.1,
        ((performAll files ((s.perform files call).run fs).1.2 calls).run
          ((s.perform files call).run fs).2).1.2),
        ((performAll files ((s.perform files call).run fs).1.2 calls).run
          ((s.perform files call).run fs).2).2) :=
  rfl

/-- Calls one after the other have the outcomes that each has in a session that agrees with the
first one. -/
lemma performAll_eq (hfiles : files.Unchanging fs) (h : s.Agrees files fs s') (calls : List Call) :
    ((performAll files s calls).run fs).1.1 =
        calls.map (fun call => ((s'.perform files call).run fs).1.1) ∧
      ((performAll files s calls).run fs).2 = fs ∧
      ((performAll files s calls).run fs).1.2.Agrees files fs s' := by
  induction calls generalizing s with
  | nil => exact ⟨rfl, rfl, h⟩
  | cons call calls ih =>
    have hcall := perform_sameOutcome hfiles h call
    obtain ⟨houtcomes, hkept, hagrees⟩ := ih hcall.agrees
    rw [performAll_cons, hcall.files_eq]
    refine ⟨?_, hkept, hagrees⟩
    rw [List.map_cons, hcall.outcome_eq, houtcomes]

lemma linked_run (name : String) (path : Option Path) (text : List Char) :
    Linked files s.cache (s.runLoads files name path text fs)
      ((s.run files name path text).run fs).1.2.cache := by
  unfold runLoads
  generalize hr : s.options.runRules s.plan = r
  dsimp only
  cases hread : SourceUnit.read r.toLineRules name text with
  | error fault =>
    rw [run_eq_error hr hread]
    exact rfl
  | ok unit =>
    rw [run_eq hr hread rfl]
    exact logs_expandUnit r.maxDepth [⟨name, none, path⟩] unit (⟨s.cache, []⟩, fs)

lemma linked_perform (call : Call) :
    Linked files s.cache (s.callLoads files fs call)
      ((s.perform files call).run fs).1.2.cache := by
  cases call with
  | text name text => exact linked_run name none text
  | file path =>
    rcases hread : (readText files path s.options.encoding).run fs with ⟨result, fs'⟩
    rw [callLoads, hread]
    cases result with
    | error fault =>
      rw [perform_file_error hread]
      exact rfl
    | ok text =>
      rw [perform_file hread]
      exact linked_run path.render (some path) text

lemma linked_performAll (calls : List Call) :
    Linked files s.cache (allLoads files s fs calls)
      ((performAll files s calls).run fs).1.2.cache := by
  induction calls generalizing s fs with
  | nil => exact rfl
  | cons call calls ih =>
    rw [performAll_cons, allLoads]
    exact (linked_perform call).append ih

/-- Whether a cache that starts empty follows loads: at every load it holds what was loaded
successfully before, in the order in which it was first loaded, and a load that fails leaves it as
it is. -/
structure Follows (files : FileAccess (StateM σ)) (cache : BookCache) (loads : List Load) : Prop where
  each : ∀ earlier l later, loads = earlier ++ l :: later →
    l.Made files ∧ l.before.keys = (earlier.filterMap Load.key?).eraseDups ∧
      l.after.keys = ((earlier ++ [l]).filterMap Load.key?).eraseDups ∧
      (l.key? = none → l.after = l.before)
  all : cache.keys = (loads.filterMap Load.key?).eraseDups

lemma follows_of_linked {cache : BookCache} {loads : List Load}
    (h : Linked files BookCache.empty loads cache) : Follows files cache loads where
  each := by
    rintro earlier l later rfl
    obtain ⟨before, hearlier, hbefore, hmade, -⟩ := h.split
    have hkeys := hearlier.keys_eq [] rfl
    rw [List.nil_append, ← hbefore] at hkeys
    have hafter := hmade.proper.keys_after hkeys
    refine ⟨hmade, hkeys, ?_, hmade.proper.failed⟩
    rw [hafter, List.filterMap_append]
    cases hkey : l.key? <;> simp [hkey]
  all := h.keys_eq [] rfl

/-- In a session over files that do not change, every call has the outcome that it has in a fresh
session, so that calls in another order have their outcomes in that order.  The cache of the session
holds the copybooks loaded so far. -/
theorem shared_cache {σ : Type} (files : FileAccess (StateM σ)) (fs : σ)
    (hfiles : files.Unchanging fs) (s : Session) (hfresh : s.cache = BookCache.empty)
    (calls : List Call) :
    ∃ cache, (performAll files s calls).run fs =
        ((calls.map fun call => ((s.perform files call).run fs).1.1, { s with cache }), fs) ∧
      Follows files cache (allLoads files s fs calls) ∧
      ∀ reordered : List Call, reordered.Perm calls →
        (reordered.zip ((performAll files s reordered).run fs).1.1).Perm
          (calls.zip ((performAll files s calls).run fs).1.1) := by
  have hfaithful : s.cache.Faithful files fs := by
    rw [hfresh]
    exact BookCache.faithful_empty
  have hself : s.Agrees files fs s := ⟨rfl, rfl, hfaithful, hfaithful⟩
  obtain ⟨houtcomes, hkept, hagrees⟩ := performAll_eq hfiles hself calls
  refine ⟨((performAll files s calls).run fs).1.2.cache, ?_, ?_, ?_⟩
  · refine Prod.ext (Prod.ext houtcomes ?_) hkept
    obtain ⟨hoptions, hplan, -⟩ := hagrees
    rw [← hoptions, ← hplan]
  · apply follows_of_linked
    rw [← hfresh]
    exact linked_performAll calls
  · intro reordered hperm
    have hzip : ∀ cs : List Call, cs.zip ((performAll files s cs).run fs).1.1 =
        cs.map fun call => (call, ((s.perform files call).run fs).1.1) := by
      intro cs
      rw [(performAll_eq hfiles hself cs).1, ← List.map_prod_left_eq_zip]
    rw [hzip, hzip]
    exact hperm.map _

section Sample

/-- A library with one copybook. -/
def libraryFiles : FileAccess (StateM Unit) where
  workDir := ⟨1, []⟩
  isFile path := pure (path.parts = ["B"])
  read path := pure (if path.parts = ["B"] then .ok [65] else .error .missing)

def libraryCache : BookCache :=
  ⟨[⟨⟨1, ["B"]⟩, .text "latin-1", ['A']⟩]⟩

def libraryWritten : TracedText :=
  LogicalLine.write .ansi85 .free [.sampleCode "B" 1 ['A']]

def libraryOutput : TracedText :=
  (Progress.initial.push [libraryWritten.cut 0 2 []]).finish

def libraryProgress : Progress :=
  let first := Progress.initial.push [(cyclicWritten "main").cut 0 0 []]
  let second := first.push
    (splice (cyclicWritten "main").text 7 "B" (libraryOutput.replace []))
  { second with copies := 1 }.push [(cyclicWritten "main").cut 7 8 []]

set_option maxRecDepth 20000

lemma read_libraryBook :
    ∃ unit, SourceUnit.read shallowRules.toLineRules "B" ['A'] = .ok unit ∧
      unit.written = libraryWritten := by
  have hlogical : SourceUnit.logicalLines shallowRules.toLineRules "B" ['A'] =
      [.sampleCode "B" 1 ['A']] := by
    cbv
  apply SourceUnit.exists_read_of_no_keyword hlogical (by simp)
  rw [List.forall_mem_singleton]
  cbv

lemma find_libraryBook (position : Option Position) :
    (shallowRules.plan.find libraryFiles "B" none position).run () = (.ok ⟨0, ["B"]⟩, ()) := by
  cbv

lemma load_libraryBook {c : BookCache} (hc : c = BookCache.empty ∨ c = libraryCache)
    (diagnostics : List Diagnostic) :
    Returns (loadBook libraryFiles shallowRules ⟨0, ["B"]⟩) (⟨c, diagnostics⟩, ()) ['A']
      (⟨libraryCache, diagnostics⟩, ()) := by
  rw [Returns]
  obtain rfl | rfl := hc
  · cbv
  · cbv

lemma libraryBook_expands {stack : List Inclusion} (hstack : decide (stack.length ≤ 1) = false)
    {book : SourceUnit} (h : book.written = libraryWritten) (levels : Nat) (w : World Unit) :
    Returns (expandUnit libraryFiles shallowRules levels stack book) w libraryOutput
      (warned book w) := by
  have hitems : Item.ofText shallowRules.dialect false libraryWritten.text = [.kept 0 2] := by
    cbv
  apply returns_expandUnit
  rw [h, hstack, hitems]
  apply Returns.bind_iff.mpr
  exact ⟨_, _, Returns.pure_iff.mpr ⟨rfl, rfl⟩, Returns.pure_iff.mpr ⟨rfl, rfl⟩⟩

lemma libraryBook_included {c : BookCache} (hc : c = BookCache.empty ∨ c = libraryCache)
    (position : Option Position) (diagnostics : List Diagnostic) :
    ∃ w', Returns (includeBook libraryFiles shallowRules (below libraryFiles shallowRules 3)
      [⟨"main", none, none⟩] cyclicClause position) (⟨c, diagnostics⟩, ())
      (libraryOutput.replace []) w' ∧ w'.1.cache = libraryCache := by
  have hfresh : (([⟨"main", none, none⟩] : List Inclusion).any fun i =>
      i.sameUnit libraryFiles.workDir ⟨"B", none, some ⟨0, ["B"]⟩⟩) = false := by
    cbv
  obtain ⟨book, hbook, hwritten⟩ := read_libraryBook
  exact ⟨_, returns_includeBook (find_libraryBook position) rfl hfresh (load_libraryBook hc _) hbook
    (libraryBook_expands rfl hwritten 2 _), rfl⟩

lemma library_expands {c : BookCache} (hc : c = BookCache.empty ∨ c = libraryCache)
    {unit : SourceUnit} (h : unit.written = cyclicWritten "main") :
    ∃ w', Returns (expandUnit libraryFiles shallowRules shallowRules.maxDepth
      [⟨"main", none, none⟩] unit) (⟨c, []⟩, ()) libraryProgress.finish w' ∧
      w'.1.cache = libraryCache := by
  obtain ⟨w', hincluded, hcache⟩ := libraryBook_included hc
    (directivePosition? (cyclicWritten "main") cyclicKeyword) unit.diagnostics
  have hcopied : Returns (carryOut libraryFiles shallowRules (below libraryFiles shallowRules 3)
      [⟨"main", none, none⟩] (cyclicWritten "main")
      (Progress.initial.push [(cyclicWritten "main").cut 0 0 []])
      (.copy cyclicKeyword cyclicClause 7)) (⟨c, unit.diagnostics⟩, ()) _ w' :=
    copy_returns_iff.mpr ⟨_, hincluded, rfl⟩
  have hkept : ∀ (start stop : Nat) (p : Progress) (w : World Unit),
      Returns (carryOut libraryFiles shallowRules (below libraryFiles shallowRules 3)
        [⟨"main", none, none⟩] (cyclicWritten "main") p (.kept start stop)) w
        (p.push [(cyclicWritten "main").cut start stop []]) w :=
    fun _ _ _ _ => Returns.pure_iff.mpr ⟨rfl, rfl⟩
  have hone : decide (([⟨"main", none, none⟩] : List Inclusion).length ≤ 1) = true := rfl
  have hdialect : shallowRules.dialect = .ansi85 := rfl
  refine ⟨w', returns_expandUnit ?_, hcache⟩
  rw [h, hone, hdialect, items_cyclic]
  apply Returns.bind_iff.mpr
  refine ⟨_, _, hkept 0 0 _ _, Returns.bind_iff.mpr ⟨_, w', hcopied, ?_⟩⟩
  exact Returns.bind_iff.mpr ⟨_, w', hkept 7 8 _ _, Returns.pure_iff.mpr ⟨rfl, rfl⟩⟩

lemma library_performed {c : BookCache} (hc : c = BookCache.empty ∨ c = libraryCache) :
    ∃ result diagnostics,
      (perform libraryFiles { shallowSession with cache := c } (.text "main" cyclicText)).run () =
        ((⟨.ok result, diagnostics⟩, { shallowSession with cache := libraryCache }), ()) := by
  obtain ⟨unit, hread, hwritten⟩ := read_cyclicText "main"
  obtain ⟨⟨state, fs⟩, hreturns, hcache⟩ := library_expands hc hwritten
  refine ⟨⟨"main", libraryProgress.finish, state.diagnostics, unit.lines, unit.blocks⟩,
    state.diagnostics, ?_⟩
  rw [← hcache]
  exact run_of_returns (s := { shallowSession with cache := c }) hread hreturns

lemma library_missing (c : BookCache) :
    (perform libraryFiles { shallowSession with cache := c } (.file ⟨0, ["C"]⟩)).run () =
      ((⟨.error (.unreadable ⟨0, ["C"]⟩ .missing), []⟩, { shallowSession with cache := c }), ()) := by
  apply perform_file_error
  cbv

end Sample

/-- A source that includes a copybook, a file that is missing, and the source again: the copybook is
kept once, and with it in the cache the source has the same outcome. -/
theorem shared_cache_library :
    ∃ result diagnostics cache,
      (performAll libraryFiles shallowSession
        [.text "main" cyclicText, .file ⟨0, ["C"]⟩, .text "main" cyclicText]).run () =
        (([⟨.ok result, diagnostics⟩, ⟨.error (.unreadable ⟨0, ["C"]⟩ .missing), []⟩,
          ⟨.ok result, diagnostics⟩], { shallowSession with cache }), ()) ∧
      cache.keys = [(⟨1, ["B"]⟩, .text "latin-1")] := by
  obtain ⟨cache, hall, -, -⟩ := shared_cache libraryFiles () ⟨fun _ => rfl, fun _ => rfl⟩
    shallowSession rfl [.text "main" cyclicText, .file ⟨0, ["C"]⟩, .text "main" cyclicText]
  obtain ⟨result, diagnostics, hfirst⟩ := library_performed (.inl rfl)
  obtain ⟨result', diagnostics', hthird⟩ := library_performed (.inr rfl)
  have hmissing := library_missing BookCache.empty
  -- The second time the copybook is taken from the cache.
  have hcache : ((performAll libraryFiles shallowSession
      [.text "main" cyclicText, .file ⟨0, ["C"]⟩, .text "main" cyclicText]).run ()).1.2.cache =
        libraryCache := by
    rw [performAll_cons, show (perform _ shallowSession _).run () = _ from hfirst, performAll_cons,
      library_missing, performAll_cons, hthird]
    rfl
  rw [hall] at hcache
  obtain rfl : cache = libraryCache := hcache
  refine ⟨result, diagnostics, libraryCache, ?_, rfl⟩
  rw [hall]
  simp only [List.map_cons, List.map_nil]
  rw [show (perform _ shallowSession (.text _ _)).run () = _ from hfirst,
    show (perform _ shallowSession (.file _)).run () = _ from hmissing]

end Session

end CobolText
