import CobolText.Preprocess
import CobolText.Proofs.WellFormed

/-!
# Runs that return

A run reads files that may change under it: the files are an arbitrary state, and every access may
change them.  `Returns` tells that a computation, started in one world, comes to an end with a
value in another; a computation that halts returns nothing.  For every part of the expansion there
is one lemma on how it can return.
-/

namespace CobolText

variable {σ : Type} {α β : Type}

lemma access_bind_iff {x : StateM σ α} {f : α → StateM σ β} {b : β} {fs fs' : σ} :
    (x >>= f).run fs = (b, fs') ↔
      ∃ a fs₁, x.run fs = (a, fs₁) ∧ (f a).run fs₁ = (b, fs') := by
  have hrun : (x >>= f).run fs = (f (x.run fs).1).run (x.run fs).2 := rfl
  rw [hrun]
  constructor
  · intro h
    exact ⟨_, _, rfl, h⟩
  · rintro ⟨a, fs₁, hx, hf⟩
    rw [hx]
    exact hf

lemma access_pure_iff {a b : α} {fs fs' : σ} :
    (pure a : StateM σ α).run fs = (b, fs') ↔ b = a ∧ fs' = fs := by
  have hrun : (pure a : StateM σ α).run fs = (a, fs) := rfl
  rw [hrun]
  constructor
  · intro h
    exact ⟨congrArg Prod.fst h.symm, congrArg Prod.snd h.symm⟩
  · rintro ⟨rfl, rfl⟩
    rfl

/-- What a run may change: its own state and the files around it. -/
abbrev World (σ : Type) := RunState × σ

/-- What becomes of a computation that starts in `w`. -/
def Run.outcome (x : Run (StateM σ) α) (w : World σ) : (Except Halt α × RunState) × σ :=
  ((x.run.run w.1).run w.2).run

lemma Run.outcome_bind (x : Run (StateM σ) α) (f : α → Run (StateM σ) β) (w : World σ) :
    Run.outcome (x >>= f) w =
      match Run.outcome x w with
      | ((.ok a, s), files) => Run.outcome (f a) (s, files)
      | ((.error e, s), files) => ((.error e, s), files) := by
  simp only [Run.outcome, ExceptT.run_bind, StateT.run_bind, Id.run_bind]
  rcases ((x.run.run w.1).run w.2).run with ⟨⟨⟨e⟩ | ⟨a⟩, s⟩, files⟩ <;> rfl

lemma Run.outcome_adapt (f : Halt → Halt) (x : Run (StateM σ) α) (w : World σ) :
    Run.outcome (ExceptT.adapt f x) w =
      match Run.outcome x w with
      | ((.ok a, s), files) => ((.ok a, s), files)
      | ((.error e, s), files) => ((.error (f e), s), files) := by
  simp only [Run.outcome, ExceptT.run_adapt, StateT.run_map, Id.run_map]
  rcases ((x.run.run w.1).run w.2).run with ⟨⟨⟨e⟩ | ⟨a⟩, s⟩, files⟩ <;> rfl

/-- Whether a computation that starts in `w` returns `a` and leaves `w'` behind. -/
def Returns (x : Run (StateM σ) α) (w : World σ) (a : α) (w' : World σ) : Prop :=
  Run.outcome x w = ((.ok a, w'.1), w'.2)

namespace Returns

lemma pure_iff {a b : α} {w w' : World σ} :
    Returns (pure a : Run (StateM σ) α) w b w' ↔ b = a ∧ w' = w := by
  have hrun : Run.outcome (pure a : Run (StateM σ) α) w = ((.ok a, w.1), w.2) := rfl
  rw [Returns, hrun]
  constructor
  · intro h
    simp only [Prod.mk.injEq, Except.ok.injEq] at h
    obtain ⟨⟨rfl, h1⟩, h2⟩ := h
    exact ⟨rfl, Prod.ext h1.symm h2.symm⟩
  · rintro ⟨rfl, rfl⟩
    rfl

/-- Two computations one after the other return if both do. -/
lemma bind_iff {x : Run (StateM σ) α} {f : α → Run (StateM σ) β} {w w' : World σ} {b : β} :
    Returns (x >>= f) w b w' ↔ ∃ a w₁, Returns x w a w₁ ∧ Returns (f a) w₁ b w' := by
  rw [Returns, Run.outcome_bind]
  constructor
  · intro h
    rcases hx : Run.outcome x w with ⟨⟨⟨e⟩ | ⟨a⟩, s⟩, files⟩
    · simp [hx] at h
    · rw [hx] at h
      exact ⟨a, (s, files), hx, h⟩
  · rintro ⟨a, w₁, hx, hf⟩
    rw [Returns] at hx
    rw [hx]
    exact hf

lemma not_throw {e : Halt} {w w' : World σ} {a : α} :
    ¬Returns (throw e : Run (StateM σ) α) w a w' := by
  have hrun : Run.outcome (throw e : Run (StateM σ) α) w = ((.error e, w.1), w.2) := rfl
  rw [Returns, hrun]
  simp

/-- What a computation would say about a halt has no part in what it returns. -/
lemma adapt_iff {f : Halt → Halt} {x : Run (StateM σ) α} {w w' : World σ} {a : α} :
    Returns (ExceptT.adapt f x) w a w' ↔ Returns x w a w' := by
  rw [Returns, Returns, Run.outcome_adapt]
  rcases Run.outcome x w with ⟨⟨⟨e⟩ | ⟨a⟩, s⟩, files⟩ <;> simp

lemma get_iff {s : RunState} {w w' : World σ} :
    Returns (get : Run (StateM σ) RunState) w s w' ↔ s = w.1 ∧ w' = w := by
  have hrun : Run.outcome (get : Run (StateM σ) RunState) w = ((.ok w.1, w.1), w.2) := rfl
  rw [Returns, hrun]
  constructor
  · intro h
    simp only [Prod.mk.injEq, Except.ok.injEq] at h
    exact ⟨h.1.1.symm, Prod.ext h.1.2.symm h.2.symm⟩
  · rintro ⟨rfl, rfl⟩
    rfl

lemma set_iff {s : RunState} {a : PUnit} {w w' : World σ} :
    Returns (set s : Run (StateM σ) PUnit) w a w' ↔ w' = (s, w.2) := by
  have hrun : Run.outcome (set s : Run (StateM σ) PUnit) w = ((.ok a, s), w.2) := rfl
  rw [Returns, hrun]
  constructor
  · intro h
    simp only [Prod.mk.injEq, true_and] at h
    exact Prod.ext h.1.symm h.2.symm
  · rintro rfl
    rfl

lemma modify_iff {f : RunState → RunState} {a : PUnit} {w w' : World σ} :
    Returns (modify f : Run (StateM σ) PUnit) w a w' ↔ w' = (f w.1, w.2) := by
  have hrun : Run.outcome (modify f : Run (StateM σ) PUnit) w = ((.ok a, f w.1), w.2) := rfl
  rw [Returns, hrun]
  constructor
  · intro h
    simp only [Prod.mk.injEq, true_and] at h
    exact Prod.ext h.1.symm h.2.symm
  · rintro rfl
    rfl

lemma lift_iff {x : StateM σ α} {a : α} {w w' : World σ} :
    Returns (liftM (liftM x : StateT RunState (StateM σ) α) : Run (StateM σ) α) w a w' ↔
      x.run w.2 = (a, w'.2) ∧ w'.1 = w.1 := by
  have hrun : Run.outcome (liftM (liftM x : StateT RunState (StateM σ) α) : Run (StateM σ) α) w =
      ((.ok (x.run w.2).1, w.1), (x.run w.2).2) := rfl
  rw [Returns, hrun]
  constructor
  · intro h
    simp only [Prod.mk.injEq, Except.ok.injEq] at h
    exact ⟨Prod.ext h.1.1 h.2, h.1.2.symm⟩
  · rintro ⟨h1, h2⟩
    rw [h1, h2]

end Returns

namespace BookCache

/-- Whether every copybook of one cache is in the other with the same text. -/
def Within (c c' : BookCache) : Prop :=
  ∀ path encoding text, c.get? path encoding = some text → c'.get? path encoding = some text

lemma Within.refl (c : BookCache) : c.Within c :=
  fun _ _ _ h => h

lemma Within.trans {a b c : BookCache} (h : a.Within b) (h' : b.Within c) : a.Within c :=
  fun path encoding text hget => h' path encoding text (h path encoding text hget)

/-- A copybook that is kept hides no other one. -/
lemma within_insert (c : BookCache) (book : LoadedBook) : c.Within (c.insert book) := by
  intro path encoding text h
  simp only [get?, insert, List.find?_append] at h ⊢
  obtain ⟨b, hb, rfl⟩ := Option.map_eq_some_iff.mp h
  simp [hb]

lemma get?_insert {c : BookCache} {book : LoadedBook}
    (h : c.get? book.path book.encoding = none) :
    (c.insert book).get? book.path book.encoding = some book.text := by
  simp only [get?, insert, List.find?_append] at h ⊢
  rw [Option.map_eq_none_iff.mp h]
  simp

lemma load_ok {files : FileAccess (StateM σ)} {c c' : BookCache} {path : Path} {encoding : Value}
    {text : List Char} {fs fs' : σ}
    (h : (c.load files path encoding).run fs = ((.ok text, c'), fs')) :
    c'.get? (Path.resolve files.workDir path) encoding = some text ∧ c.Within c' := by
  unfold load at h
  cases hget : c.get? (Path.resolve files.workDir path) encoding with
  | some known =>
    simp only [hget] at h
    have hpair := (access_pure_iff.mp h).1
    simp only [Prod.mk.injEq, Except.ok.injEq] at hpair
    obtain ⟨rfl, rfl⟩ := hpair
    exact ⟨hget, Within.refl _⟩
  | none =>
    simp only [hget] at h
    obtain ⟨result, fs₁, -, h⟩ := access_bind_iff.mp h
    cases result with
    | error e =>
      have hpair := (access_pure_iff.mp h).1
      simp at hpair
    | ok found =>
      have hpair := (access_pure_iff.mp h).1
      simp only [Prod.mk.injEq, Except.ok.injEq] at hpair
      obtain ⟨rfl, rfl⟩ := hpair
      exact ⟨get?_insert hget, within_insert c _⟩

end BookCache

namespace Expansion

variable {files : FileAccess (StateM σ)} {r : RunRules} {w w' : World σ}

lemma not_haltAtStart {fault : Fault} {a : α} :
    ¬Returns (haltAtStart fault : Run (StateM σ) α) w a w' :=
  Returns.not_throw

/-- A copybook that a run reads is kept from then on. -/
lemma loadBook_returns {path : Path} {text : List Char}
    (h : Returns (loadBook files r path) w text w') :
    w'.1.cache.get? (Path.resolve files.workDir path) r.encoding = some text ∧
      w.1.cache.Within w'.1.cache := by
  unfold loadBook at h
  obtain ⟨s, w₁, hget, h⟩ := Returns.bind_iff.mp h
  obtain ⟨rfl, rfl⟩ := Returns.get_iff.mp hget
  obtain ⟨⟨result, cache⟩, w₂, hload, h⟩ := Returns.bind_iff.mp h
  obtain ⟨hload, hstate⟩ := Returns.lift_iff.mp hload
  obtain ⟨u, w₃, hset, h⟩ := Returns.bind_iff.mp h
  have hw₃ := Returns.set_iff.mp hset
  cases result with
  | error fault => exact absurd h not_haltAtStart
  | ok found =>
    obtain ⟨rfl, rfl⟩ := Returns.pure_iff.mp h
    rw [hw₃]
    exact BookCache.load_ok hload

lemma readUnit_returns {name : String} {text : List Char} {unit : SourceUnit} :
    Returns (readUnit r name text) w unit w' ↔
      SourceUnit.read r.toLineRules name text = .ok unit ∧ w' = w := by
  unfold readUnit
  cases SourceUnit.read r.toLineRules name text with
  | error fault =>
    simp only [reduceCtorEq, false_and, iff_false]
    exact Returns.not_throw
  | ok found =>
    rw [Except.ok.injEq]
    exact Returns.pure_iff.trans (and_congr_left fun _ => eq_comm)

/-- How a copybook comes to be included: its file is found, is not one of those being expanded, is
read and expanded as a unit of its own, and the rules of the directive are applied to what comes
out. -/
lemma includeBook_returns {expand : Option (Expander (StateM σ))} {stack : List Inclusion}
    {clause : CopyClause} {position : Option Position} {book : TracedText}
    (h : Returns (includeBook files r expand stack clause position) w book w') :
    ∃ expandText path text inner w₁ w₂, expand = some expandText ∧ w₁.1 = w.1 ∧
      (r.plan.find files clause.name clause.library position).run w.2 = (.ok path, w₁.2) ∧
      (stack.any fun i => i.sameUnit files.workDir ⟨clause.name, clause.library, some path⟩) =
        false ∧
      Returns (loadBook files r path) w₁ text w₂ ∧
      Returns (expandText (stack ++ [⟨clause.name, clause.library, some path⟩]) path.render text)
        w₂ inner w' ∧
      book = inner.replace clause.rules := by
  unfold includeBook at h
  obtain ⟨found, w₁, hfind, h⟩ := Returns.bind_iff.mp h
  obtain ⟨hfound, hstate⟩ := Returns.lift_iff.mp hfind
  cases found with
  | error fault => exact absurd h not_haltAtStart
  | ok path =>
    simp only at h
    split at h
    · exact absurd h not_haltAtStart
    · rename_i hfresh
      cases expand with
      | none => exact absurd h not_haltAtStart
      | some expandText =>
        obtain ⟨text, w₂, hload, h⟩ := Returns.bind_iff.mp h
        obtain ⟨inner, w₃, hinner, h⟩ := Returns.bind_iff.mp h
        obtain ⟨rfl, rfl⟩ := Returns.pure_iff.mp h
        exact ⟨expandText, path, text, inner, w₁, w₂, rfl, hstate, hfound,
          Bool.eq_false_iff.mpr hfresh, hload, hinner, rfl⟩

/-- A `COPY` directive is carried out exactly if its copybook is included. -/
lemma copy_returns_iff {expand : Option (Expander (StateM σ))} {stack : List Inclusion}
    {t : TracedText} {p p' : Progress} {keyword : Token} {clause : CopyClause} {stop : Nat} :
    Returns (carryOut files r expand stack t p (.copy keyword clause stop)) w p' w' ↔
      ∃ book, Returns (includeBook files r expand stack clause (directivePosition? t keyword))
        w book w' ∧
      p' = { p.push (splice t.text stop clause.name book) with copies := p.copies + 1 } := by
  constructor
  · intro h
    obtain ⟨book, w₁, hbook, h⟩ := Returns.bind_iff.mp h
    obtain ⟨hp, rfl⟩ := Returns.pure_iff.mp h
    exact ⟨book, Returns.adapt_iff.mp hbook, hp⟩
  · rintro ⟨book, hbook, rfl⟩
    apply Returns.bind_iff.mpr
    exact ⟨book, w', Returns.adapt_iff.mpr hbook, Returns.pure_iff.mpr ⟨rfl, rfl⟩⟩

lemma carryOut_returns {expand : Option (Expander (StateM σ))} {stack : List Inclusion}
    {t : TracedText} {p p' : Progress} {item : Item}
    (h : Returns (carryOut files r expand stack t p item) w p' w') :
    (∃ start stop, item = .kept start stop ∧ p' = p.push [t.cut start stop []] ∧ w' = w) ∨
    (∃ effect, item = .change effect ∧ p' = p.change effect ∧ w' = w) ∨
    (∃ keyword clause stop book, item = .copy keyword clause stop ∧
      Returns (includeBook files r expand stack clause (directivePosition? t keyword))
        w book w' ∧
      p' = { p.push (splice t.text stop clause.name book) with copies := p.copies + 1 }) := by
  cases item with
  | kept start stop =>
    obtain ⟨hp, hw⟩ := Returns.pure_iff.mp h
    exact .inl ⟨start, stop, rfl, hp, hw⟩
  | change effect =>
    obtain ⟨hp, hw⟩ := Returns.pure_iff.mp h
    exact .inr (.inl ⟨effect, rfl, hp, hw⟩)
  | malformed keyword defect => exact absurd h Returns.not_throw
  | copy keyword clause stop =>
    obtain ⟨book, hbook, hp⟩ := copy_returns_iff.mp h
    exact .inr (.inr ⟨keyword, clause, stop, book, rfl, hbook, hp⟩)

lemma expandDocument_returns {expand : Option (Expander (StateM σ))} {stack : List Inclusion}
    {t : TracedText} {result : TracedText × Nat}
    (h : Returns (expandDocument files r expand stack t) w result w') :
    ∃ p, Returns ((Item.ofText r.dialect (stack.length ≤ 1) t.text).foldlM
      (carryOut files r expand stack t) Progress.initial) w p w' ∧
      result = (p.finish, p.copies) := by
  obtain ⟨p, w₁, hfold, h⟩ := Returns.bind_iff.mp h
  obtain ⟨hresult, rfl⟩ := Returns.pure_iff.mp h
  exact ⟨p, hfold, hresult⟩

/-- The world after the warnings about a unit are given. -/
def warned (unit : SourceUnit) (w : World σ) : World σ :=
  ({ w.1 with diagnostics := w.1.diagnostics ++ unit.diagnostics }, w.2)

/-- A unit is expanded by expanding its text after its warnings are given. -/
lemma expandUnit_returns {levels : Nat} {stack : List Inclusion} {unit : SourceUnit}
    {out : TracedText} (h : Returns (expandUnit files r levels stack unit) w out w') :
    ∃ copies, Returns (expandDocument files r (below files r levels) stack unit.written)
      (warned unit w) (out, copies) w' := by
  cases levels with
  | zero =>
    obtain ⟨u, w₁, hmodify, h⟩ := Returns.bind_iff.mp h
    obtain ⟨⟨result, copies⟩, w₂, hresult, h⟩ := Returns.bind_iff.mp h
    obtain ⟨rfl, rfl⟩ := Returns.pure_iff.mp h
    rw [Returns.modify_iff.mp hmodify] at hresult
    exact ⟨copies, hresult⟩
  | succ levels =>
    obtain ⟨u, w₁, hmodify, h⟩ := Returns.bind_iff.mp h
    obtain ⟨⟨result, copies⟩, w₂, hresult, h⟩ := Returns.bind_iff.mp h
    obtain ⟨rfl, rfl⟩ := Returns.pure_iff.mp h
    rw [Returns.modify_iff.mp hmodify] at hresult
    exact ⟨copies, hresult⟩

/-- A copybook that is found, is none of those being expanded, and can be loaded, read and expanded
is included. -/
lemma returns_includeBook {levels : Nat} {stack : List Inclusion}
    {clause : CopyClause} {position : Option Position} {path : Path} {source : List Char}
    {unit : SourceUnit} {out : TracedText} {w₁ w₂ : World σ}
    (found : (r.plan.find files clause.name clause.library position).run w.2 = (.ok path, w₁.2))
    (same : w₁.1 = w.1)
    (fresh : (stack.any fun i =>
      i.sameUnit files.workDir ⟨clause.name, clause.library, some path⟩) = false)
    (loaded : Returns (loadBook files r path) w₁ source w₂)
    (read : SourceUnit.read r.toLineRules path.render source = .ok unit)
    (expanded : Returns (expandUnit files r levels
      (stack ++ [⟨clause.name, clause.library, some path⟩]) unit) w₂ out w') :
    Returns (includeBook files r (below files r (levels + 1)) stack clause position) w
      (out.replace clause.rules) w' := by
  unfold includeBook
  apply Returns.bind_iff.mpr
  refine ⟨.ok path, w₁, Returns.lift_iff.mpr ⟨found, same⟩, ?_⟩
  simp only [fresh, Bool.false_eq_true, if_false, below]
  apply Returns.bind_iff.mpr
  refine ⟨source, w₂, loaded, Returns.bind_iff.mpr ⟨out, w', ?_, Returns.pure_iff.mpr ⟨rfl, rfl⟩⟩⟩
  exact Returns.bind_iff.mpr ⟨unit, w₂, readUnit_returns.mpr ⟨read, rfl⟩, expanded⟩

/-- A unit whose items can all be carried out is expanded. -/
lemma returns_expandUnit {levels : Nat} {stack : List Inclusion} {unit : SourceUnit}
    {p : Progress}
    (h : Returns ((Item.ofText r.dialect (stack.length ≤ 1) unit.written.text).foldlM
      (carryOut files r (below files r levels) stack unit.written) Progress.initial)
      (warned unit w) p w') :
    Returns (expandUnit files r levels stack unit) w p.finish w' := by
  have hdocument : Returns (expandDocument files r (below files r levels) stack unit.written)
      (warned unit w) (p.finish, p.copies) w' :=
    Returns.bind_iff.mpr ⟨p, w', h, Returns.pure_iff.mpr ⟨rfl, rfl⟩⟩
  have hwarned : Returns (modify fun s : RunState =>
      { s with diagnostics := s.diagnostics ++ unit.diagnostics }) w ⟨⟩ (warned unit w) :=
    Returns.modify_iff.mpr rfl
  have hresult : Returns (do
      return (← expandDocument files r (below files r levels) stack unit.written).1)
      (warned unit w) p.finish w' :=
    Returns.bind_iff.mpr ⟨_, w', hdocument, Returns.pure_iff.mpr ⟨rfl, rfl⟩⟩
  cases levels with
  | zero => exact Returns.bind_iff.mpr ⟨⟨⟩, warned unit w, hwarned, hresult⟩
  | succ levels => exact Returns.bind_iff.mpr ⟨⟨⟩, warned unit w, hwarned, hresult⟩

end Expansion

namespace Session

variable {files : FileAccess (StateM σ)} {s s' : Session} {fs fs' : σ}

/-- A source whose preprocessing gives a result is expanded from its lines on. -/
lemma run_ok {name : String} {path : Option Path} {text : List Char} {outcome : Outcome}
    {result : Preprocessed} (h : (s.run files name path text).run fs = ((outcome, s'), fs'))
    (hok : outcome.result = .ok result) :
    ∃ unit state, SourceUnit.read (s.options.runRules s.plan).toLineRules name text = .ok unit ∧
      Returns (Expansion.expandUnit files (s.options.runRules s.plan)
        (s.options.runRules s.plan).maxDepth [⟨name, none, path⟩] unit)
        (⟨s.cache, []⟩, fs) result.output (state, fs') ∧
      s' = { s with cache := state.cache } := by
  unfold run at h
  simp only at h
  cases hread : SourceUnit.read (s.options.runRules s.plan).toLineRules name text with
  | error fault =>
    simp only [hread] at h
    have hpair := (access_pure_iff.mp h).1
    simp only [Prod.mk.injEq] at hpair
    rw [hpair.1] at hok
    simp at hok
  | ok unit =>
    simp only [hread] at h
    obtain ⟨⟨ended, state⟩, fs₁, hrun, h⟩ := access_bind_iff.mp h
    obtain ⟨hpair, rfl⟩ := access_pure_iff.mp h
    simp only [Prod.mk.injEq] at hpair
    obtain ⟨houtcome, hsession⟩ := hpair
    rw [houtcome] at hok
    cases ended with
    | error halt => simp at hok
    | ok output =>
      simp only [Except.ok.injEq] at hok
      refine ⟨unit, state, rfl, ?_, hsession⟩
      rw [← hok]
      exact hrun

/-- A source that can be read and expanded is preprocessed. -/
lemma run_of_returns {name : String} {path : Option Path} {text : List Char} {unit : SourceUnit}
    {output : TracedText} {state : RunState}
    (hread : SourceUnit.read (s.options.runRules s.plan).toLineRules name text = .ok unit)
    (h : Returns (Expansion.expandUnit files (s.options.runRules s.plan)
      (s.options.runRules s.plan).maxDepth [⟨name, none, path⟩] unit)
      (⟨s.cache, []⟩, fs) output (state, fs')) :
    (s.run files name path text).run fs =
      ((⟨.ok ⟨name, output, state.diagnostics, unit.lines, unit.blocks⟩, state.diagnostics⟩,
        { s with cache := state.cache }), fs') := by
  unfold run
  simp only [hread]
  exact access_bind_iff.mpr ⟨_, _, h, rfl⟩

/-- A file whose preprocessing gives a result can be read, and its text is what is
preprocessed. -/
lemma processFile_ok {path : Path} {outcome : Outcome} {result : Preprocessed}
    (h : (s.processFile files path).run fs = ((outcome, s'), fs'))
    (hok : outcome.result = .ok result) :
    ∃ text fs₁, (readText files path s.options.encoding).run fs = (.ok text, fs₁) ∧
      (s.run files path.render (some path) text).run fs₁ = ((outcome, s'), fs') := by
  obtain ⟨read, fs₁, hread, h⟩ := access_bind_iff.mp h
  cases read with
  | error fault =>
    have hpair := (access_pure_iff.mp h).1
    simp only [Prod.mk.injEq] at hpair
    rw [hpair.1] at hok
    simp at hok
  | ok text => exact ⟨text, fs₁, hread, h⟩

end Session

end CobolText
