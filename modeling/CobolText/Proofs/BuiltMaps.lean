import CobolText.Proofs.RunFidelity

/-!
# Maps that are built

Every origin map of a run is built by a few operations: text is made up, copied from a source,
sliced out of another text, or written by a rule.  Each of them adds a well-formed fragment at the
end of what is there, so the map stays well-formed, whatever is built in whatever order.  At every
stage of a run, the text of the unit, the text that waits, what the rules make of it, the output and
the copybooks are built in this way.
-/

namespace CobolText

/-- A slice that lies in a well-formed text is well-formed and as long as its bounds say. -/
lemma TracedText.WellFormed.slice {t : TracedText} (ht : t.WellFormed) {start stop : Int}
    (hstart : 0 ≤ start) (hstop : stop ≤ t.text.length) (inclusions : List String) :
    (t.cut start stop inclusions).WellFormed ∧
      (t.cut start stop inclusions).text.length = (stop - start).toNat := by
  by_cases hlt : start < stop
  · lift start to ℕ using hstart
    lift stop to ℕ using (by omega)
    have hle : stop ≤ t.text.length := Int.ofNat_le.mp hstop
    refine ⟨ht.cut start hle inclusions, ?_⟩
    rw [t.text_cut start hle, List.length_drop, List.length_take]
    omega
  · have hempty : t.cut start stop inclusions = Fragment.empty := if_neg hlt
    rw [hempty]
    exact ⟨Fragment.wellFormed_empty, by simp only [Fragment.empty, List.length_nil]; omega⟩

/-- An operation that adds to a text that is being built. -/
inductive BuildStep where
  /-- Text that is made up. -/
  | synthetic (text : List Char)
  /-- Text that is read from a position onwards. -/
  | copied (text : List Char) (position : Position) (marks : Marks)
  /-- Part of a finished text. -/
  | slice (source : TracedText) (start stop : Int) (inclusions : List String)
  /-- All of a finished text. -/
  | whole (source : TracedText) (inclusions : List String)
  /-- What a rule writes in the place of something with an extent and a position. -/
  | replacement (text : List Char) (replaced : Option Extent) (position : Option Position)

namespace BuildStep

/-- What the operation adds. -/
def fragment : BuildStep → Fragment
  | synthetic text => Fragment.synthetic text
  | copied text position marks => Fragment.copied text position marks
  | slice source start stop inclusions => source.cut start stop inclusions
  | whole source inclusions => source.whole inclusions
  | replacement text replaced position => Fragment.replacement text replaced position

/-- By how much the operation makes the text longer. -/
def length : BuildStep → Nat
  | synthetic text | copied text _ _ | replacement text _ _ => text.length
  | slice _ start stop _ => (stop - start).toNat
  | whole source _ => source.text.length

/-- Whether the operation takes its text from a well-formed one, and from inside of it. -/
def Valid : BuildStep → Prop
  | slice source start stop _ => source.WellFormed ∧ 0 ≤ start ∧ stop ≤ source.text.length
  | whole source _ => source.WellFormed
  | synthetic _ | copied _ _ _ | replacement _ _ _ => True

lemma text_copied (text : List Char) (position : Position) (marks : Marks) :
    (Fragment.copied text position marks).text = text := by
  cases text <;> rfl

lemma text_replacement (text : List Char) (replaced : Option Extent) (position : Option Position) :
    (Fragment.replacement text replaced position).text = text := by
  unfold Fragment.replacement
  split
  · exact text_copied _ _ _
  · rfl

/-- A valid operation adds a well-formed fragment of the length it counts. -/
lemma Valid.fragment {step : BuildStep} (h : step.Valid) :
    step.fragment.WellFormed ∧ step.fragment.text.length = step.length := by
  cases step with
  | synthetic text => exact ⟨Fragment.wellFormed_synthetic text, rfl⟩
  | copied text position marks =>
    refine ⟨Fragment.wellFormed_copied text position marks, ?_⟩
    rw [BuildStep.fragment, text_copied]
    rfl
  | slice source start stop inclusions =>
    obtain ⟨hsource, hstart, hstop⟩ := h
    exact hsource.slice hstart hstop inclusions
  | whole source inclusions =>
    obtain ⟨hwell, hlength⟩ :=
      TracedText.WellFormed.slice h (Int.le_refl 0) (Int.le_refl _) inclusions
    exact ⟨hwell, hlength.trans (by simp [length])⟩
  | replacement text replaced position =>
    exact ⟨Fragment.wellFormed_replacement text replaced position,
      by rw [BuildStep.fragment, text_replacement]; rfl⟩

/-- What valid operations build is well-formed, and as long as they count. -/
lemma wellFormed_build {steps : List BuildStep} (h : ∀ step ∈ steps, step.Valid) :
    (TracedText.assemble (steps.map BuildStep.fragment)).WellFormed ∧
      (TracedText.assemble (steps.map BuildStep.fragment)).text.length =
        (steps.map BuildStep.length).sum := by
  constructor
  · apply TracedText.wellFormed_assemble
    intro f hf
    obtain ⟨step, hstep, rfl⟩ := List.mem_map.mp hf
    exact (h step hstep).fragment.1
  · rw [TracedText.text_assemble]
    induction steps with
    | nil => rfl
    | cons step steps ih =>
      have hstep := (h step (by simp)).fragment.2
      have hsteps := ih fun s hs => h s (by simp [hs])
      simp only [List.map_cons, List.flatMap_cons, List.length_append, List.sum_cons, hstep, hsteps]

end BuildStep

namespace Expansion

variable {σ : Type} {files : FileAccess (StateM σ)} {r : RunRules}

namespace Stage

/-- A stage whose unit is read from its text, whose output and waiting text are well-formed, and
whose items are those of the unit. -/
structure Sound (r : RunRules) (s : Stage σ) : Prop where
  isRead : s.IsRead r
  carries : s.progress.Carries fun _ => True
  kept : ∀ start stop, .kept start stop ∈ s.items → .kept start stop ∈ s.allItems r

lemma Sound.written {s : Stage σ} (h : s.Sound r) : s.unit.written.WellFormed :=
  (SourceUnit.standsIn_written h.isRead).1

lemma sound_enter {levels : Nat} {stack : List Inclusion} {text : List Char} {unit : SourceUnit}
    {w : World σ} (h : SourceUnit.read r.toLineRules unit.name text = .ok unit) :
    (enter r levels stack text unit w).Sound r :=
  ⟨h, Progress.carries_initial, fun _ _ => id⟩

end Stage

/-- Well-formed text stays so without any further property of its characters. -/
lemma carried_true : Carried files r fun _ _ _ => True where
  hereditary _ _ := ⟨fun _ => trivial, fun _ _ => trivial⟩
  grows _ _ _ := trivial
  own _ _ _ _ := trivial
  included _ _ _ _ _ := trivial

/-- Whatever a copybook expands to is well-formed. -/
lemma includeBook_wellFormed {levels : Nat} {stack : List Inclusion} {unit : SourceUnit}
    {keyword : Token} {clause : CopyClause} {book : TracedText} {w w' : World σ}
    (h : Returns (includeBook files r (below files r levels) stack clause
      (directivePosition? unit.written keyword)) w book w') : book.WellFormed := by
  have hself : Stage.Reaches files r
      ⟨levels, stack, [], unit, .initial, [.copy keyword clause 0], w⟩
      ⟨levels, stack, [], unit, .initial, [.copy keyword clause 0], w⟩ := .refl
  have hcarries := includeBook_carries carried_true
    (fun inner _ => expandUnit_carries carried_true inner) hself rfl h
  exact hcarries.2.1

lemma Stage.Sound.next {s s' : Stage σ} (hs : s.Sound r) (h : Stage.Next files r s s') :
    s'.Sound r := by
  cases h with
  | item carried =>
    have hcarries := carryOut_carries carried_true
      (fun inner _ => expandUnit_carries carried_true inner) .refl rfl rfl hs.isRead hs.written
      (fun start stop hitem => hs.kept start stop (by simp [hitem])) hs.carries carried
    exact ⟨hs.isRead, hcarries.2, fun start stop hmem => hs.kept start stop (by simp [hmem])⟩
  | book found same fresh loaded read => exact Stage.sound_enter (SourceUnit.read_name read)

lemma Stage.Sound.reaches {s s' : Stage σ} (hs : s.Sound r) (h : s.Reaches files r s') :
    s'.Sound r := by
  induction h with
  | refl => exact hs
  | tail _ hnext ih => exact ih.next hnext

/-- Whether all texts at hand at a stage have well-formed maps. -/
structure Stage.WellMapped (files : FileAccess (StateM σ)) (r : RunRules) (s : Stage σ) : Prop where
  /-- The lines of the unit written out. -/
  written : s.unit.written.WellFormed
  /-- The text that waits for the rules in force. -/
  waiting : (TracedText.assemble s.progress.pending.reverse).WellFormed
  /-- The waiting text after the rules in force are applied. -/
  replaced : ((TracedText.assemble s.progress.pending.reverse).replace
    s.progress.levels.flatten).WellFormed
  /-- What the unit would expand to if nothing else came. -/
  finished : s.progress.finish.WellFormed
  /-- The expansion of a copybook after the rules of its directive are applied. -/
  included : ∀ keyword clause stop items book w', s.items = .copy keyword clause stop :: items →
    Returns (includeBook files r (below files r s.levels) s.stack clause
      (directivePosition? s.unit.written keyword)) s.world book w' → book.WellFormed

variable (files) in
lemma Stage.Sound.wellMapped {s : Stage σ} (hs : s.Sound r) : s.WellMapped files r where
  written := hs.written
  waiting := hs.carries.waiting.1
  replaced := hs.carries.waiting.1.replace _
  finished := (hs.carries.finish ⟨fun _ => trivial, fun _ _ => trivial⟩).1
  included _ _ _ _ _ _ _ h := includeBook_wellFormed h

end Expansion

namespace Session

variable {σ : Type}

/-- The stage at which a run of a session enters its main source. -/
def entry (s : Session) (name : String) (path : Option Path) (text : List Char)
    (unit : SourceUnit) (fs : σ) : Expansion.Stage σ :=
  .enter (s.options.runRules s.plan) (s.options.runRules s.plan).maxDepth [⟨name, none, path⟩] text
    unit (⟨s.cache, []⟩, fs)

/-- Whether a run goes through stages with well-formed maps only, from the entry of its main source
to the last stage, whose output is the result. -/
def WellMapped (files : FileAccess (StateM σ)) (s : Session) (name : String) (path : Option Path)
    (text : List Char) (fs : σ) (output : TracedText) : Prop :=
  ∃ unit, SourceUnit.read (s.options.runRules s.plan).toLineRules name text = .ok unit ∧
    (∃ last, (s.entry name path text unit fs).Reaches files (s.options.runRules s.plan) last ∧
      last.items = [] ∧ output = last.progress.finish) ∧
    output.WellFormed ∧
    ∀ stage, (s.entry name path text unit fs).Reaches files (s.options.runRules s.plan) stage →
      stage.WellMapped files (s.options.runRules s.plan)

lemma run_wellMapped {files : FileAccess (StateM σ)} {s s' : Session} {name : String}
    {path : Option Path} {text : List Char} {fs fs' : σ} {outcome : Outcome}
    {result : Preprocessed} (h : (s.run files name path text).run fs = ((outcome, s'), fs'))
    (hok : outcome.result = .ok result) :
    s.WellMapped files name path text fs result.output := by
  obtain ⟨unit, state, hunit, hreturns, -⟩ := run_ok h hok
  have hread := SourceUnit.read_name hunit
  obtain ⟨last, hreached, hlast, hout⟩ := Expansion.expandUnit_reaches hreturns text
  have hsound : ∀ stage, (s.entry name path text unit fs).Reaches files _ stage →
      stage.Sound (s.options.runRules s.plan) :=
    fun stage => (Expansion.Stage.sound_enter hread).reaches
  refine ⟨unit, hunit, ⟨last, hreached, hlast, hout⟩, ?_, fun stage hstage => ?_⟩
  · rw [hout]
    exact ((hsound last hreached).wellMapped files).finished
  · exact (hsound stage hstage).wellMapped files

/-- Origin maps are well-formed: those that any sequence of valid operations builds, whose length is
what the operations count, and those of every text at every stage of every run that gives a
result. -/
theorem maps_wellFormed :
    (∀ steps : List BuildStep, (∀ step ∈ steps, step.Valid) →
      (TracedText.assemble (steps.map BuildStep.fragment)).WellFormed ∧
      (TracedText.assemble (steps.map BuildStep.fragment)).text.length =
        (steps.map BuildStep.length).sum) ∧
    ∀ {σ : Type} (files : FileAccess (StateM σ)) (s s' : Session) (fs fs' : σ) (outcome : Outcome)
      (result : Preprocessed), outcome.result = .ok result →
      (∀ name text, (s.processText files name text).run fs = ((outcome, s'), fs') →
        s.WellMapped files name none text fs result.output) ∧
      ∀ path, (s.processFile files path).run fs = ((outcome, s'), fs') →
        ∃ text fs₁, (readText files path s.options.encoding).run fs = (.ok text, fs₁) ∧
          s.WellMapped files path.render (some path) text fs₁ result.output := by
  refine ⟨fun steps => BuildStep.wellFormed_build, fun files s s' fs fs' outcome result hok => ?_⟩
  constructor
  · intro name text h
    exact run_wellMapped h hok
  · intro path h
    obtain ⟨text, fs₁, hread, hrun⟩ := processFile_ok h hok
    exact ⟨text, fs₁, hread, run_wellMapped hrun hok⟩

/-- A word that goes on in the next line. -/
def sampleLines : List Char :=
  [' ', ' ', ' ', ' ', ' ', ' ', ' ', '1', '\n', ' ', ' ', ' ', ' ', ' ', ' ', '-', '2', '3']

set_option maxRecDepth 20000 in
lemma sampleLines_run :
    ∃ (outcome : Outcome) (s' : Session) (result : Preprocessed),
      (sampleSession.processText Expansion.sampleFiles "main" sampleLines).run () =
        ((outcome, s'), ()) ∧
      outcome.result = .ok result ∧
      result.output.text = [' ', ' ', ' ', ' ', ' ', ' ', ' ', '1', '2', '3', '\n'] := by
  have hok : ((sampleSession.processText Expansion.sampleFiles "main" sampleLines).run
      ()).1.1.result.toOption.map (fun p => p.output.text) =
        some [' ', ' ', ' ', ' ', ' ', ' ', ' ', '1', '2', '3', '\n'] := by
    cbv
  rcases hrun : (sampleSession.processText Expansion.sampleFiles "main" sampleLines).run () with
    ⟨⟨outcome, s'⟩, fs⟩
  rw [hrun] at hok
  cases hresult : outcome.result with
  | error fault => simp [hresult, Except.toOption] at hok
  | ok result =>
    refine ⟨outcome, s', result, rfl, hresult, ?_⟩
    simpa [hresult, Except.toOption] using hok

/-- Operations of every kind. -/
def sampleSteps : List BuildStep :=
  [.synthetic [' '], .copied ['A', 'B'] ⟨"main", 1, 8⟩ {},
    .slice TracedText.sampleLine 2 7 ["BOOK"], .whole TracedText.sampleLine [],
    .replacement ['X'] (some ⟨0, 2, ⟨"main", 1, 8⟩, {}⟩) (some ⟨"main", 1, 8⟩)]

/-- A text of twenty-four characters is built, and two lines are preprocessed. -/
theorem maps_wellFormed_sample :
    (TracedText.assemble (sampleSteps.map BuildStep.fragment)).WellFormed ∧
      (TracedText.assemble (sampleSteps.map BuildStep.fragment)).text.length = 24 ∧
      ∃ result : Preprocessed,
        result.output.text = [' ', ' ', ' ', ' ', ' ', ' ', ' ', '1', '2', '3', '\n'] ∧
        sampleSession.WellMapped Expansion.sampleFiles "main" none sampleLines () result.output := by
  have hvalid : ∀ step ∈ sampleSteps, step.Valid := by
    simp only [sampleSteps, List.forall_mem_cons, BuildStep.Valid]
    exact ⟨trivial, trivial, ⟨TracedText.wellFormed_sampleLine, by decide, by decide⟩,
      TracedText.wellFormed_sampleLine, trivial, by simp⟩
  obtain ⟨hwell, hlength⟩ := maps_wellFormed.1 sampleSteps hvalid
  obtain ⟨outcome, s', result, hrun, hok, htext⟩ := sampleLines_run
  exact ⟨hwell, hlength, result, htext, (maps_wellFormed.2 Expansion.sampleFiles sampleSession s' ()
    () outcome result hok).1 "main" sampleLines hrun⟩

end Session

end CobolText
