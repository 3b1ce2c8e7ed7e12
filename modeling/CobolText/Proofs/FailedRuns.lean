import CobolText.Proofs.BuiltMaps

/-!
# Runs that fail

A run fails where the next item of a stage cannot be carried out: the item is a malformed
directive, or it includes a copybook that is not found, is being expanded already, is nested too
deeply, or cannot be loaded or read.  `Stage.Raises` lists these causes.  A run fails with a fault
exactly if it comes to stand at a stage that raises the fault, however deeply the unit of that stage
is nested.
-/

namespace CobolText

variable {σ : Type} {α β : Type}

/-- Whether a computation that starts in `w` ends with a fault. -/
def Fails (x : Run (StateM σ) α) (w : World σ) (fault : Fault) : Prop :=
  ∃ h, (Run.outcome x w).1.1 = .error h ∧ h.fault = fault

namespace Fails

variable {w : World σ} {fault : Fault}

lemma not_pure {a : α} : ¬Fails (pure a : Run (StateM σ) α) w fault := by
  rintro ⟨h, hout, -⟩
  exact absurd hout (by simp [Run.outcome])

lemma throw_iff {e : Halt} :
    Fails (throw e : Run (StateM σ) α) w fault ↔ fault = e.fault := by
  have hrun : Run.outcome (throw e : Run (StateM σ) α) w = ((.error e, w.1), w.2) := rfl
  rw [Fails, hrun]
  simp [eq_comm]

/-- Two computations one after the other fail if the first one does, or the second one after the
first one returns. -/
lemma bind_iff {x : Run (StateM σ) α} {f : α → Run (StateM σ) β} :
    Fails (x >>= f) w fault ↔
      Fails x w fault ∨ ∃ a w₁, Returns x w a w₁ ∧ Fails (f a) w₁ fault := by
  simp only [Fails, Returns, Run.outcome_bind]
  rcases Run.outcome x w with ⟨⟨⟨e⟩ | ⟨a⟩, s⟩, files⟩
  · simp
  · simp

/-- What returns passes the fault of what follows on. -/
lemma bind_of_returns {x : Run (StateM σ) α} {f : α → Run (StateM σ) β} {a : α} {w₁ : World σ}
    (h : Returns x w a w₁) : Fails (x >>= f) w fault ↔ Fails (f a) w₁ fault := by
  rw [Fails, Run.outcome_bind, h]
  rfl

lemma bind_of_lift {x : StateM σ α} {f : α → Run (StateM σ) β} {a : α} {fs : σ}
    (h : x.run w.2 = (a, fs)) :
    Fails ((liftM (liftM x : StateT RunState (StateM σ) α) : Run (StateM σ) α) >>= f) w fault ↔
      Fails (f a) (w.1, fs) fault := by
  have hreturns : Returns (liftM (liftM x : StateT RunState (StateM σ) α) : Run (StateM σ) α) w a
      (w.1, fs) := Returns.lift_iff.mpr ⟨h, rfl⟩
  exact bind_of_returns hreturns

/-- What a computation says about a halt besides the fault has no part in the fault. -/
lemma adapt_iff {f : Halt → Halt} (hf : ∀ h, (f h).fault = h.fault) {x : Run (StateM σ) α} :
    Fails (ExceptT.adapt f x) w fault ↔ Fails x w fault := by
  simp only [Fails, Run.outcome_adapt]
  rcases Run.outcome x w with ⟨⟨⟨e⟩ | ⟨a⟩, s⟩, files⟩
  · simp [hf]
  · simp

end Fails

namespace Expansion

variable {files : FileAccess (StateM σ)} {r : RunRules} {w : World σ} {fault : Fault}

lemma haltAtStart_fails {e : Fault} :
    Fails (haltAtStart e : Run (StateM σ) α) w fault ↔ fault = e :=
  Fails.throw_iff

lemma loadBook_fails {path : Path} :
    Fails (loadBook files r path) w fault ↔
      ∃ cache fs, (w.1.cache.load files path r.encoding).run w.2 = ((.error fault, cache), fs) := by
  rcases hload : (w.1.cache.load files path r.encoding).run w.2 with ⟨⟨result, cache⟩, fs⟩
  have hget : Returns (get : Run (StateM σ) RunState) w w.1 w := Returns.get_iff.mpr ⟨rfl, rfl⟩
  have hset : Returns (set { w.1 with cache } : Run (StateM σ) PUnit) (w.1, fs) ⟨⟩
      ({ w.1 with cache }, fs) := Returns.set_iff.mpr rfl
  unfold loadBook
  rw [Fails.bind_of_returns hget, Fails.bind_of_lift hload, Fails.bind_of_returns hset]
  cases result with
  | ok text =>
    constructor
    · intro h
      exact absurd h Fails.not_pure
    · rintro ⟨_, _, heq⟩
      cases heq
  | error e =>
    rw [haltAtStart_fails]
    constructor
    · rintro rfl
      exact ⟨cache, fs, rfl⟩
    · rintro ⟨_, _, heq⟩
      cases heq
      rfl

lemma readUnit_fails {name : String} {text : List Char} :
    Fails (readUnit r name text) w fault ↔
      SourceUnit.read r.toLineRules name text = .error fault := by
  unfold readUnit
  cases SourceUnit.read r.toLineRules name text with
  | error e =>
    rw [Except.error.injEq]
    exact Fails.throw_iff.trans eq_comm
  | ok unit =>
    simp only [reduceCtorEq, iff_false]
    exact Fails.not_pure

/-- A unit fails where one of its items does. -/
lemma expandUnit_fails {levels : Nat} {stack : List Inclusion} {unit : SourceUnit} :
    Fails (expandUnit files r levels stack unit) w fault ↔
      Fails ((Item.ofText r.dialect (stack.length ≤ 1) unit.written.text).foldlM
        (carryOut files r (below files r levels) stack unit.written) Progress.initial)
        (warned unit w) fault := by
  have hdocument : Fails (do
      return (← expandDocument files r (below files r levels) stack unit.written).1)
      (warned unit w) fault ↔
      Fails ((Item.ofText r.dialect (stack.length ≤ 1) unit.written.text).foldlM
        (carryOut files r (below files r levels) stack unit.written) Progress.initial)
        (warned unit w) fault := by
    simp only [expandDocument, Fails.bind_iff, Fails.not_pure, and_false, exists_false, or_false]
  rw [← hdocument]
  have hwarned : Returns (modify fun s : RunState =>
      { s with diagnostics := s.diagnostics ++ unit.diagnostics }) w ⟨⟩ (warned unit w) :=
    Returns.modify_iff.mpr rfl
  -- The warnings about the unit are given first, which cannot fail.
  have hfirst : ∀ x : Run (StateM σ) TracedText,
      Fails ((modify fun s : RunState =>
        { s with diagnostics := s.diagnostics ++ unit.diagnostics }) >>= fun _ => x) w fault ↔
        Fails x (warned unit w) fault := by
    intro x
    exact Fails.bind_of_returns hwarned
  cases levels with
  | zero => exact hfirst _
  | succ levels => exact hfirst _

/-- What can go wrong with a copybook, in the order in which it is looked for. -/
lemma includeBook_fails {expand : Option (Expander (StateM σ))} {stack : List Inclusion}
    {clause : CopyClause} {position : Option Position} {found : Except Fault Path} {fs : σ}
    (hfound : (r.plan.find files clause.name clause.library position).run w.2 = (found, fs)) :
    Fails (includeBook files r expand stack clause position) w fault ↔
      match found with
      | .error e => fault = e
      | .ok path =>
        let unit : Inclusion := ⟨clause.name, clause.library, some path⟩
        let chain := (stack ++ [unit]).map Inclusion.label
        if (stack.any fun i => i.sameUnit files.workDir unit) = true then
          fault = .circularCopy chain position
        else
          match expand with
          | none => fault = .tooDeep r.depth chain position
          | some expandText =>
            Fails (loadBook files r path) (w.1, fs) fault ∨
              ∃ text w₂, Returns (loadBook files r path) (w.1, fs) text w₂ ∧
                Fails (expandText (stack ++ [unit]) path.render text) w₂ fault := by
  unfold includeBook
  rw [Fails.bind_of_lift hfound]
  cases found with
  | error e => exact haltAtStart_fails
  | ok path =>
    dsimp only
    by_cases hsame : (stack.any fun i =>
        i.sameUnit files.workDir ⟨clause.name, clause.library, some path⟩) = true
    · rw [if_pos hsame, if_pos hsame]
      exact haltAtStart_fails
    · rw [if_neg hsame, if_neg hsame]
      cases expand with
      | none => exact haltAtStart_fails
      | some expandText =>
        simp only [Fails.bind_iff, Fails.not_pure, and_false, exists_false, or_false]

namespace Stage

/-- The stack with a copybook on it. -/
def grown (s : Stage σ) (clause : CopyClause) (path : Path) : List Inclusion :=
  s.stack ++ [⟨clause.name, clause.library, some path⟩]

/-- Whether a copybook is one of the units that are being expanded. -/
def repeats (files : FileAccess (StateM σ)) (s : Stage σ) (clause : CopyClause) (path : Path) :
    Bool :=
  s.stack.any fun i => i.sameUnit files.workDir ⟨clause.name, clause.library, some path⟩

/-- Whether the next item of a stage is a `COPY` directive whose copybook is found. -/
structure Finds (files : FileAccess (StateM σ)) (r : RunRules) (s : Stage σ) (keyword : Token)
    (clause : CopyClause) (path : Path) (fs : σ) : Prop where
  item : ∃ stop items, s.items = .copy keyword clause stop :: items
  found : (r.plan.find files clause.name clause.library
    (directivePosition? s.unit.written keyword)).run s.world.2 = (.ok path, fs)

/-- Whether the next item of a stage cannot be carried out, and with which fault. -/
inductive Raises (files : FileAccess (StateM σ)) (r : RunRules) (s : Stage σ) : Fault → Prop
  | malformed {keyword : Token} {defect : Defect} {items : List Item}
      (item : s.items = .malformed keyword defect :: items) :
      Raises files r s (.malformed (Directive.label keyword.upper defect) defect
        (directivePosition? s.unit.written keyword))
  | search {keyword : Token} {clause : CopyClause} {stop : Nat} {items : List Item} {fs : σ}
      {fault : Fault} (item : s.items = .copy keyword clause stop :: items)
      (missed : (r.plan.find files clause.name clause.library
        (directivePosition? s.unit.written keyword)).run s.world.2 = (.error fault, fs)) :
      Raises files r s fault
  | circular {keyword : Token} {clause : CopyClause} {path : Path} {fs : σ}
      (finds : s.Finds files r keyword clause path fs) (same : s.repeats files clause path = true) :
      Raises files r s (.circularCopy ((s.grown clause path).map Inclusion.label)
        (directivePosition? s.unit.written keyword))
  | tooDeep {keyword : Token} {clause : CopyClause} {path : Path} {fs : σ}
      (finds : s.Finds files r keyword clause path fs)
      (fresh : s.repeats files clause path = false) (deepest : s.levels = 0) :
      Raises files r s (.tooDeep r.depth ((s.grown clause path).map Inclusion.label)
        (directivePosition? s.unit.written keyword))
  | load {keyword : Token} {clause : CopyClause} {path : Path} {fs fs' : σ} {cache : BookCache}
      {fault : Fault} (finds : s.Finds files r keyword clause path fs)
      (fresh : s.repeats files clause path = false) (deeper : s.levels ≠ 0)
      (unloaded : (s.world.1.cache.load files path r.encoding).run fs =
        ((.error fault, cache), fs')) :
      Raises files r s fault
  | read {keyword : Token} {clause : CopyClause} {path : Path} {fs : σ} {source : List Char}
      {w : World σ} {fault : Fault} (finds : s.Finds files r keyword clause path fs)
      (fresh : s.repeats files clause path = false) (deeper : s.levels ≠ 0)
      (loaded : Returns (loadBook files r path) (s.world.1, fs) source w)
      (unread : SourceUnit.read r.toLineRules path.render source = .error fault) :
      Raises files r s fault

/-- Whether a run that stands at a stage fails before all that is left of the unit is carried
out. -/
def Fails (files : FileAccess (StateM σ)) (r : RunRules) (s : Stage σ) (fault : Fault) : Prop :=
  CobolText.Fails (s.items.foldlM (carryOut files r (below files r s.levels) s.stack
    s.unit.written) s.progress) s.world fault

/-- A run cannot go on from stage to stage without end: an item that is carried out is gone, and a
copybook that is entered has fewer levels below it. -/
lemma next_wellFounded (files : FileAccess (StateM σ)) (r : RunRules) :
    WellFounded fun b s : Stage σ => Next files r s b := by
  apply Subrelation.wf (r := InvImage (Prod.Lex (· < ·) (· < ·))
    fun s : Stage σ => (s.levels, s.items.length))
  · intro b s h
    cases h with
    | item carried => exact .right _ (Nat.lt_succ_self _)
    | book found same fresh loaded read => exact .left _ _ (Nat.lt_succ_self _)
  · exact InvImage.wf _ (WellFounded.prod_lex Nat.lt_wfRel.wf Nat.lt_wfRel.wf)

lemma fails_enter {levels : Nat} {stack : List Inclusion} {text : List Char} {unit : SourceUnit} :
    (enter r levels stack text unit w).Fails files r fault ↔
      CobolText.Fails (expandUnit files r levels stack unit) w fault :=
  expandUnit_fails.symm

/-- A `COPY` directive that fails raises a fault itself, or the copybook fails that it enters. -/
lemma copy_fails {s : Stage σ} {keyword : Token} {clause : CopyClause} {stop : Nat}
    {items : List Item} (hitems : s.items = .copy keyword clause stop :: items)
    (h : CobolText.Fails (includeBook files r (below files r s.levels) s.stack clause
      (directivePosition? s.unit.written keyword)) s.world fault) :
    s.Raises files r fault ∨ ∃ b, Next files r s b ∧ b.Fails files r fault := by
  rcases hfind : (r.plan.find files clause.name clause.library
    (directivePosition? s.unit.written keyword)).run s.world.2 with ⟨found, fs⟩
  rw [includeBook_fails hfind] at h
  cases found with
  | error e =>
    left
    obtain rfl : fault = e := h
    exact .search hitems hfind
  | ok path =>
    have hfinds : s.Finds files r keyword clause path fs := ⟨⟨stop, items, hitems⟩, hfind⟩
    dsimp only at h
    split at h
    · rename_i hsame
      left
      rw [h]
      exact .circular hfinds hsame
    rename_i hfresh
    have hfresh := Bool.eq_false_iff.mpr hfresh
    obtain ⟨levels, stack, text, unit, p, _, w⟩ := s
    obtain rfl := hitems
    cases levels with
    | zero =>
      left
      rw [show fault = _ from h]
      exact .tooDeep hfinds hfresh rfl
    | succ levels =>
      rcases h with h | ⟨source, w₂, hload, h⟩
      · left
        obtain ⟨cache, fs', hload⟩ := loadBook_fails.mp h
        exact .load hfinds hfresh (Nat.succ_ne_zero levels) hload
      obtain h | ⟨book, w₃, hread, hexpand⟩ := CobolText.Fails.bind_iff.mp h
      · left
        exact .read hfinds hfresh (Nat.succ_ne_zero levels) hload (readUnit_fails.mp h)
      · right
        obtain ⟨hunit, rfl⟩ := readUnit_returns.mp hread
        have hstate : ((w.1, fs) : World σ).1 = w.1 := rfl
        exact ⟨_, .book hfind hstate hfresh hload hunit, fails_enter.mpr hexpand⟩

lemma carryOut_copy_fails {s : Stage σ} {keyword : Token} {clause : CopyClause} {stop : Nat} :
    CobolText.Fails (carryOut files r (below files r s.levels) s.stack s.unit.written s.progress
      (.copy keyword clause stop)) s.world fault ↔
      CobolText.Fails (includeBook files r (below files r s.levels) s.stack clause
        (directivePosition? s.unit.written keyword)) s.world fault := by
  simp only [carryOut, CobolText.Fails.bind_iff, CobolText.Fails.not_pure, and_false, exists_false,
    or_false]
  apply CobolText.Fails.adapt_iff
  intro h
  rfl

lemma fails_of_carryOut {s : Stage σ} {item : Item} {items : List Item}
    (hitems : s.items = item :: items)
    (h : CobolText.Fails (carryOut files r (below files r s.levels) s.stack s.unit.written
      s.progress item) s.world fault) : s.Fails files r fault := by
  rw [Fails, hitems, List.foldlM_cons, CobolText.Fails.bind_iff]
  exact .inl h

/-- A fault that the next item raises is the fault of the run. -/
lemma Raises.fails {s : Stage σ} (h : s.Raises files r fault) : s.Fails files r fault := by
  have hcopy : ∀ {keyword clause path fs}, s.Finds files r keyword clause path fs →
      (if s.repeats files clause path = true then
        fault = .circularCopy ((s.grown clause path).map Inclusion.label)
          (directivePosition? s.unit.written keyword)
      else
        match below files r s.levels with
        | none => fault = .tooDeep r.depth ((s.grown clause path).map Inclusion.label)
            (directivePosition? s.unit.written keyword)
        | some expandText =>
          CobolText.Fails (loadBook files r path) (s.world.1, fs) fault ∨
            ∃ source w₂, Returns (loadBook files r path) (s.world.1, fs) source w₂ ∧
              CobolText.Fails (expandText (s.grown clause path) path.render source) w₂ fault) →
      s.Fails files r fault := by
    rintro keyword clause path fs ⟨⟨stop, items, hitems⟩, hfound⟩ hcause
    apply fails_of_carryOut hitems
    exact carryOut_copy_fails.mpr ((includeBook_fails hfound).mpr hcause)
  have hdeeper : s.levels ≠ 0 → ∃ levels, s.levels = levels + 1 := Nat.exists_eq_succ_of_ne_zero
  cases h with
  | malformed item => exact fails_of_carryOut item (CobolText.Fails.throw_iff.mpr rfl)
  | search item missed =>
    apply fails_of_carryOut item
    exact carryOut_copy_fails.mpr ((includeBook_fails missed).mpr rfl)
  | circular finds same =>
    apply hcopy finds
    rw [if_pos same]
  | tooDeep finds fresh deepest =>
    apply hcopy finds
    rw [if_neg (by simp [fresh]), deepest]
    rfl
  | load finds fresh deeper unloaded =>
    apply hcopy finds
    obtain ⟨levels, hlevels⟩ := hdeeper deeper
    rw [if_neg (by simp [fresh]), hlevels]
    exact .inl (loadBook_fails.mpr ⟨_, _, unloaded⟩)
  | read finds fresh deeper loaded unread =>
    apply hcopy finds
    obtain ⟨levels, hlevels⟩ := hdeeper deeper
    rw [if_neg (by simp [fresh]), hlevels]
    right
    refine ⟨_, _, loaded, CobolText.Fails.bind_iff.mpr (.inl ?_)⟩
    exact readUnit_fails.mpr unread

/-- What fails after a run has gone on fails before. -/
lemma Fails.of_next {s b : Stage σ} (hnext : Next files r s b) (h : b.Fails files r fault) :
    s.Fails files r fault := by
  cases hnext with
  | item carried =>
    rw [Fails, List.foldlM_cons, CobolText.Fails.bind_iff]
    exact .inr ⟨_, _, carried, h⟩
  | @book levels stack text source unit book p keyword clause stop items path w w₁ w₂ found same
      fresh loaded read =>
    obtain ⟨state, fs⟩ := w₁
    obtain rfl : state = w.1 := same
    apply fails_of_carryOut rfl
    apply carryOut_copy_fails.mpr
    apply (includeBook_fails found).mpr
    dsimp only
    rw [if_neg (by simp [fresh])]
    right
    refine ⟨source, w₂, loaded, CobolText.Fails.bind_iff.mpr (.inr ?_)⟩
    exact ⟨book, w₂, readUnit_returns.mpr ⟨read, rfl⟩, fails_enter.mp h⟩

/-- A run that fails from a stage on fails with the next item, or it goes on and fails then. -/
lemma Fails.step {s : Stage σ} (h : s.Fails files r fault) :
    s.Raises files r fault ∨ ∃ b, Next files r s b ∧ b.Fails files r fault := by
  cases hitems : s.items with
  | nil =>
    rw [Fails, hitems] at h
    exact absurd h CobolText.Fails.not_pure
  | cons item items =>
    rw [Fails, hitems, List.foldlM_cons, CobolText.Fails.bind_iff] at h
    rcases h with h | ⟨p, w, hstep, h⟩
    · cases item with
      | kept start stop => exact absurd h CobolText.Fails.not_pure
      | change effect => exact absurd h CobolText.Fails.not_pure
      | malformed keyword defect =>
        left
        rw [CobolText.Fails.throw_iff.mp h]
        exact .malformed hitems
      | copy keyword clause stop => exact copy_fails hitems (carryOut_copy_fails.mp h)
    · right
      obtain ⟨levels, stack, text, unit, p₀, _, w₀⟩ := s
      obtain rfl := hitems
      exact ⟨_, .item hstep, h⟩

/-- A run fails with a fault exactly if it comes to stand at a stage whose next item raises the
fault. -/
theorem fails_iff {s : Stage σ} :
    s.Fails files r fault ↔ ∃ b, s.Reaches files r b ∧ b.Raises files r fault := by
  constructor
  · induction s using (next_wellFounded files r).induction with
    | _ s ih =>
      intro h
      obtain h | ⟨b, hnext, h⟩ := h.step
      · exact ⟨s, .refl, h⟩
      · obtain ⟨last, hreached, hraises⟩ := ih b hnext h
        exact ⟨last, .head hnext hreached, hraises⟩
  · rintro ⟨b, hreached, hraises⟩
    induction hreached using Relation.ReflTransGen.head_induction_on with
    | refl => exact hraises.fails
    | head hnext _ ih => exact ih.of_next hnext

end Stage

end Expansion

namespace Session

open Expansion

variable {files : FileAccess (StateM σ)} {s s' : Session} {fs fs' : σ} {outcome : Outcome}
  {fault : Fault}

/-- A source is not preprocessed if its lines cannot be read or its expansion fails. -/
lemma run_error_iff {name : String} {path : Option Path} {text : List Char}
    (h : (s.run files name path text).run fs = ((outcome, s'), fs')) :
    outcome.result = .error fault ↔
      SourceUnit.read (s.options.runRules s.plan).toLineRules name text = .error fault ∨
      ∃ unit, SourceUnit.read (s.options.runRules s.plan).toLineRules name text = .ok unit ∧
        ∃ stage, (s.entry name path text unit fs).Reaches files (s.options.runRules s.plan) stage ∧
          stage.Raises files (s.options.runRules s.plan) fault := by
  simp only [← Stage.fails_iff, entry, Stage.fails_enter]
  unfold run at h
  dsimp only at h
  cases hread : SourceUnit.read (s.options.runRules s.plan).toLineRules name text with
  | error e =>
    simp only [hread] at h
    have hpair := (access_pure_iff.mp h).1
    rw [Prod.mk.injEq] at hpair
    rw [hpair.1]
    simp
  | ok unit =>
    simp only [hread] at h
    obtain ⟨⟨ended, state⟩, fs₁, hrun, h⟩ := access_bind_iff.mp h
    have hpair := (access_pure_iff.mp h).1
    rw [Prod.mk.injEq] at hpair
    have hended : (Run.outcome (expandUnit files (s.options.runRules s.plan)
        (s.options.runRules s.plan).maxDepth [⟨name, none, path⟩] unit) (⟨s.cache, []⟩, fs)).1.1 =
        ended := congrArg (fun x => x.1.1) hrun
    simp only [Fails, hended, hpair.1, reduceCtorEq, Except.ok.injEq, exists_eq_left', false_or]
    cases ended with
    | error halt => simp
    | ok output => simp

/-- A file that cannot be read gives a fault; otherwise its text is what is preprocessed. -/
lemma processFile_cases {path : Path}
    (h : (s.processFile files path).run fs = ((outcome, s'), fs')) :
    (∃ e, (readText files path s.options.encoding).run fs = (.error e, fs') ∧
      outcome.result = .error e) ∨
    ∃ text fs₁, (readText files path s.options.encoding).run fs = (.ok text, fs₁) ∧
      (s.run files path.render (some path) text).run fs₁ = ((outcome, s'), fs') := by
  obtain ⟨read, fs₁, hread, h⟩ := access_bind_iff.mp h
  cases read with
  | ok text => exact .inr ⟨text, fs₁, hread, h⟩
  | error e =>
    left
    obtain ⟨hpair, rfl⟩ := access_pure_iff.mp h
    rw [Prod.mk.injEq] at hpair
    rw [hpair.1]
    exact ⟨e, hread, rfl⟩

end Session

end CobolText
