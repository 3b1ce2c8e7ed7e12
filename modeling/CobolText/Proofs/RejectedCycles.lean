import CobolText.Proofs.CandidateOrder
import CobolText.Proofs.ReportedFaults

/-!
# Cycles that are rejected

A copybook is taken for one that is being expanded if it comes from the same file, or if it has the
same name in capitals.  As long as the files stay as they are, the search finds the same file under
the same name.  So the name alone only decides if the unit that has it is the main source, or was
included under another spelling: then the copybook is rejected although none of the units that are
being expanded comes from its file.
-/

namespace CobolText

variable {σ : Type} {files : FileAccess (StateM σ)} {fs : σ}

namespace SearchPlan

variable {p : SearchPlan} {name : String}

lemma candidatesFor_congr {library library' : Option String}
    (h : library.getD "" = library'.getD "") :
    p.candidatesFor name library = p.candidatesFor name library' := by
  have hdirectories : p.directoriesAt library = p.directoriesAt library' := by
    funext base
    rw [directoriesAt_eq, directoriesAt_eq, h]
  unfold candidatesFor candidates relativeCandidates
  rw [hdirectories]

/-- What is found depends neither on the position of the directive nor on how a missing library is
written. -/
lemma find_congr {library library' : Option String} {position position' : Option Position}
    {file : Path} {fs' : σ} (h : library.getD "" = library'.getD "")
    (hfound : (p.find files name library position).run fs = (.ok file, fs')) :
    (p.find files name library' position').run fs = (.ok file, fs') := by
  obtain ⟨paths, hpaths, hfirst⟩ := find_eq_ok_iff.mp hfound
  exact find_eq_ok_iff.mpr ⟨paths, by rw [← candidatesFor_congr h, hpaths], hfirst⟩

end SearchPlan

lemma FileAccess.Unchanging.eq_of_find (h : files.Unchanging fs) {p : SearchPlan} {name : String}
    {library : Option String} {position : Option Position} {found : Except Fault Path} {fs' : σ}
    (hfound : (p.find files name library position).run fs = (found, fs')) : fs' = fs := by
  have hkept := h.find p name library position
  rw [hfound] at hkept
  exact hkept

/-- Loading a copybook leaves files that do not change as they are. -/
lemma FileAccess.Unchanging.load (h : files.Unchanging fs) (c : BookCache) (path : Path)
    (encoding : Value) : ((c.load files path encoding).run fs).2 = fs := by
  unfold BookCache.load
  dsimp only
  cases c.get? (Path.resolve files.workDir path) encoding with
  | some text => rfl
  | none =>
    apply bind (h.readText _ encoding)
    intro result
    cases result <;> rfl

namespace Expansion

variable {r : RunRules}

section UnchangedFiles

variable {w w' : World σ}

lemma loadBook_unchanging (hfiles : files.Unchanging fs) {path : Path}
    {text : List Char} (h : Returns (loadBook files r path) w text w') (hw : w.2 = fs) :
    w'.2 = fs := by
  unfold loadBook at h
  obtain ⟨s, w₁, hget, h⟩ := Returns.bind_iff.mp h
  obtain ⟨rfl, rfl⟩ := Returns.get_iff.mp hget
  obtain ⟨⟨result, cache⟩, w₂, hload, h⟩ := Returns.bind_iff.mp h
  obtain ⟨hload, -⟩ := Returns.lift_iff.mp hload
  have hw₂ : w₂.2 = fs := by
    rw [hw] at hload
    rw [← hfiles.load w₁.1.cache path r.encoding, hload]
  obtain ⟨u, w₃, hset, h⟩ := Returns.bind_iff.mp h
  have hw₃ := Returns.set_iff.mp hset
  cases result with
  | error fault => exact absurd h not_haltAtStart
  | ok found =>
    obtain ⟨-, rfl⟩ := Returns.pure_iff.mp h
    rw [hw₃]
    exact hw₂

/-- Whether the expansion of units with `levels` further levels leaves the files as they are. -/
def LeavesFilesAt (files : FileAccess (StateM σ)) (r : RunRules) (fs : σ) (levels : Nat) : Prop :=
  ∀ (stack : List Inclusion) (unit : SourceUnit) (w w' : World σ) (out : TracedText),
    Returns (expandUnit files r levels stack unit) w out w' → w.2 = fs → w'.2 = fs

lemma includeBook_unchanging (hfiles : files.Unchanging fs) {levels : Nat}
    (hbelow : ∀ inner, levels = inner + 1 → LeavesFilesAt files r fs inner) {stack : List Inclusion}
    {clause : CopyClause} {position : Option Position} {book : TracedText}
    (h : Returns (includeBook files r (below files r levels) stack clause position) w book
      w') (hw : w.2 = fs) : w'.2 = fs := by
  obtain ⟨expandText, path, source, out, w₁, w₂, hsome, -, hfound, -, hload, hinner, -⟩ :=
    includeBook_returns h
  have hw₁ : w₁.2 = fs := by
    rw [hw] at hfound
    exact hfiles.eq_of_find hfound
  have hw₂ := loadBook_unchanging hfiles hload hw₁
  cases levels with
  | zero => simp [below] at hsome
  | succ inner =>
    obtain rfl := Option.some.inj hsome
    obtain ⟨unit, w₃, hread, hexpand⟩ := Returns.bind_iff.mp hinner
    obtain ⟨-, rfl⟩ := readUnit_returns.mp hread
    exact hbelow inner rfl _ _ _ _ _ hexpand hw₂

lemma carryOut_unchanging (hfiles : files.Unchanging fs) {levels : Nat}
    (hbelow : ∀ inner, levels = inner + 1 → LeavesFilesAt files r fs inner) {stack : List Inclusion}
    {t : TracedText} {p p' : Progress} {item : Item}
    (h : Returns (carryOut files r (below files r levels) stack t p item) w p' w') (hw : w.2 = fs) :
    w'.2 = fs := by
  obtain ⟨_, _, -, -, rfl⟩ | ⟨_, -, -, rfl⟩ | ⟨keyword, clause, stop, book, -, hbook, -⟩ :=
    carryOut_returns h
  · exact hw
  · exact hw
  · exact includeBook_unchanging hfiles hbelow hbook hw

lemma foldlM_unchanging (hfiles : files.Unchanging fs) {levels : Nat}
    (hbelow : ∀ inner, levels = inner + 1 → LeavesFilesAt files r fs inner) {stack : List Inclusion}
    {t : TracedText} {p q : Progress} {items : List Item}
    (h : Returns (items.foldlM (carryOut files r (below files r levels) stack t) p) w q w')
    (hw : w.2 = fs) : w'.2 = fs := by
  induction items generalizing p w with
  | nil =>
    obtain ⟨-, rfl⟩ := Returns.pure_iff.mp h
    exact hw
  | cons item items ih =>
    obtain ⟨p₁, w₁, hstep, h⟩ := Returns.bind_iff.mp h
    exact ih h (carryOut_unchanging hfiles hbelow hstep hw)

/-- However deeply copybooks are nested, expansion leaves files that do not change as they are. -/
lemma expandUnit_unchanging (hfiles : files.Unchanging fs) (levels : Nat) :
    LeavesFilesAt files r fs levels := by
  induction levels using Nat.strong_induction_on with
  | _ levels ih =>
    intro stack unit w w' out h hw
    obtain ⟨copies, h⟩ := expandUnit_returns h
    obtain ⟨p, hfold, -⟩ := expandDocument_returns h
    exact foldlM_unchanging hfiles (fun inner hinner => ih inner (by omega)) hfold hw

end UnchangedFiles

/-- Whether the search finds the file of a unit under the name of the unit. -/
def FoundFor (files : FileAccess (StateM σ)) (r : RunRules) (fs : σ) (unit : Inclusion) : Prop :=
  ∃ file, unit.path = some file ∧ ∀ position,
    (r.plan.find files unit.name unit.library position).run fs = (.ok file, fs)

/-- The search finds the same file under the same name. -/
lemma FoundFor.sameFile {unit : Inclusion} (h : FoundFor files r fs unit) {name : String}
    {library : Option String} {position : Option Position} {file : Path} {fs' : σ}
    (hname : unit.name = name) (hlibrary : unit.library.getD "" = library.getD "")
    (hfound : (r.plan.find files name library position).run fs = (.ok file, fs')) :
    unit.sameFile files.workDir ⟨name, library, some file⟩ = true := by
  obtain ⟨file', hpath, hfile⟩ := h
  subst hname
  have hagain : (r.plan.find files unit.name library position).run fs = (.ok file', fs) :=
    SearchPlan.find_congr hlibrary (hfile position)
  rw [hfound] at hagain
  obtain rfl := Except.ok.inj (Prod.mk.inj hagain).1
  simp [Inclusion.sameFile, hpath]

namespace Stage

/-- Whether a stage has the files as they are at first, and on its stack the main source at the
bottom and copybooks that are found under their names. -/
structure Sited (files : FileAccess (StateM σ)) (r : RunRules) (fs : σ) (main : Inclusion)
    (s : Stage σ) : Prop where
  files_eq : s.world.2 = fs
  stack_eq : ∃ books, s.stack = main :: books ∧ ∀ unit ∈ books, FoundFor files r fs unit

variable {main : Inclusion} {s b : Stage σ}

lemma Next.sited (hfiles : files.Unchanging fs) (h : Next files r s b)
    (hs : s.Sited files r fs main) : b.Sited files r fs main := by
  obtain ⟨hworld, books, hstack, hbooks⟩ := hs
  cases h with
  | item carried =>
    exact ⟨carryOut_unchanging hfiles (fun inner _ => expandUnit_unchanging hfiles inner) carried
      hworld, books, hstack, hbooks⟩
  | @book levels stack text source unit bookUnit p keyword clause stop items path w w₁ w₂ found same
      fresh loaded read =>
    dsimp only at hworld hstack
    rw [hworld] at found
    have hw₁ := hfiles.eq_of_find found
    rw [hw₁] at found
    have hw₂ := loadBook_unchanging hfiles loaded hw₁
    refine ⟨hw₂, books ++ [⟨clause.name, clause.library, some path⟩], by simp [enter, hstack], ?_⟩
    intro book hbook
    rcases List.mem_append.mp hbook with hbook | hbook
    · exact hbooks book hbook
    · obtain rfl := List.mem_singleton.mp hbook
      exact ⟨path, rfl, fun position => SearchPlan.find_congr rfl found⟩

lemma Reaches.sited (hfiles : files.Unchanging fs) (h : s.Reaches files r b)
    (hs : s.Sited files r fs main) : b.Sited files r fs main := by
  induction h with
  | refl => exact hs
  | tail _ hnext ih => exact hnext.sited hfiles ih

/-- Whether a unit that is being expanded comes from the file of a copybook. -/
def repeatsFile (files : FileAccess (StateM σ)) (s : Stage σ) (clause : CopyClause) (path : Path) :
    Bool :=
  s.stack.any fun i => i.sameFile files.workDir ⟨clause.name, clause.library, some path⟩

/-- Whether a unit that is being expanded has the name of a copybook in capitals, and is the main
source or named in another spelling. -/
def Clashes (s : Stage σ) (main : Inclusion) (clause : CopyClause) : Prop :=
  ∃ unit ∈ s.stack, unit.key = Inclusion.key ⟨clause.name, clause.library, none⟩ ∧
    (unit = main ∨ unit.name ≠ clause.name ∨ unit.library.getD "" ≠ clause.library.getD "")

/-- A copybook is taken for one that is being expanded if its file is, or by a clash of names. -/
lemma repeats_iff (hs : s.Sited files r fs main) {keyword : Token} {clause : CopyClause}
    {path : Path} {fs' : σ} (hfinds : s.Finds files r keyword clause path fs') :
    s.repeats files clause path = true ↔ s.repeatsFile files clause path = true ∨
      (s.repeatsFile files clause path = false ∧ s.Clashes main clause) := by
  obtain ⟨hworld, books, hstack, hbooks⟩ := hs
  have hfound := hfinds.found
  rw [hworld] at hfound
  unfold repeats repeatsFile Clashes
  rw [List.any_eq_true, List.any_eq_true, List.any_eq_false]
  constructor
  · rintro ⟨unit, hunit, hsame⟩
    refine or_iff_not_imp_left.mpr fun hfile => ?_
    have hother : ∀ i ∈ s.stack,
        ¬i.sameFile files.workDir ⟨clause.name, clause.library, some path⟩ = true :=
      fun i hi hi' => hfile ⟨i, hi, hi'⟩
    rw [Inclusion.sameUnit, Bool.or_eq_true, or_iff_left (hother unit hunit), beq_iff_eq] at hsame
    refine ⟨hother, unit, hunit, hsame, ?_⟩
    rw [hstack] at hunit
    rcases List.mem_cons.mp hunit with hmain | hbook
    · exact .inl hmain
    · -- The unit is found under its own name, so it is the file itself unless the names differ.
      right
      by_contra hspelled
      rw [not_or, not_ne_iff, not_ne_iff] at hspelled
      have hfile := (hbooks unit hbook).sameFile hspelled.1 hspelled.2 hfound
      exact hother unit (by rw [hstack]; exact List.mem_cons_of_mem _ hbook) hfile
  · rintro (⟨unit, hunit, hfile⟩ | ⟨-, unit, hunit, hkey, -⟩)
    · exact ⟨unit, hunit, by rw [Inclusion.sameUnit, hfile, Bool.or_true]⟩
    · refine ⟨unit, hunit, ?_⟩
      rw [Inclusion.sameUnit, Bool.or_eq_true, beq_iff_eq]
      exact .inl hkey

/-- The only stages that raise a circular inclusion are those whose directive repeats a unit. -/
lemma Raises.of_circular {chain : List String} {position : Option Position}
    (h : s.Raises files r (.circularCopy chain position)) :
    ∃ keyword clause path fs', s.Finds files r keyword clause path fs' ∧
      s.repeats files clause path = true ∧ chain = (s.grown clause path).map Inclusion.label ∧
      position = directivePosition? s.unit.written keyword := by
  generalize hfault : Fault.circularCopy chain position = fault at h
  have hreported : fault.isReported = true := by
    rw [← hfault]
    rfl
  cases h with
  | malformed item => cases hfault
  | search item missed =>
    rcases SearchPlan.find_error missed with hrefused | ⟨paths, rfl⟩
    · simp [SearchPlan.isReported_of_candidatesFor hrefused] at hreported
    · cases hfault
  | circular finds same =>
    cases hfault
    exact ⟨_, _, _, _, finds, same, rfl, rfl⟩
  | tooDeep finds fresh deepest => cases hfault
  | load finds fresh deeper unloaded =>
    rcases readText_error (BookCache.load_error unloaded) with (⟨_, rfl⟩ | ⟨_, rfl⟩) | ⟨hother, -⟩
    · cases hfault
    · cases hfault
    · simp [hother] at hreported
  | read finds fresh deeper loaded unread =>
    simp [(SourceUnit.read_error unread).1] at hreported

end Stage

end Expansion

namespace Session

open Expansion

variable {s s' : Session} {fs' : σ} {outcome : Outcome} {name : String} {path : Option Path}
  {text : List Char}

/-- Whether a run that ended with `result` rejects a copybook as circular exactly where a directive
names a copybook whose file is being expanded, or else one whose name clashes. -/
def RejectsCycles (files : FileAccess (StateM σ)) (s : Session) (name : String)
    (path : Option Path) (text : List Char) (fs : σ) (result : Except Fault Preprocessed) : Prop :=
  ∀ chain position, result = .error (.circularCopy chain position) ↔
    ∃ stage keyword clause file, s.Visits files name path text fs stage ∧
      stage.Finds files (s.options.runRules s.plan) keyword clause file fs ∧
      (stage.repeatsFile files clause file = true ∨
        (stage.repeatsFile files clause file = false ∧ stage.Clashes ⟨name, none, path⟩ clause)) ∧
      chain = (stage.grown clause file).map Inclusion.label ∧
      position = directivePosition? stage.unit.written keyword

lemma Visits.sited (hfiles : files.Unchanging fs) {stage : Stage σ}
    (h : s.Visits files name path text fs stage) :
    stage.Sited files (s.options.runRules s.plan) fs ⟨name, none, path⟩ := by
  obtain ⟨unit, -, hreached⟩ := h
  exact Stage.Reaches.sited hfiles hreached ⟨rfl, [], rfl, by simp⟩

lemma run_rejectsCycles (hfiles : files.Unchanging fs)
    (h : (s.run files name path text).run fs = ((outcome, s'), fs')) :
    s.RejectsCycles files name path text fs outcome.result := by
  intro chain position
  constructor
  · intro herror
    rcases (run_error_iff h).mp herror with hread | ⟨unit, hread, stage, hreached, hraises⟩
    · exact absurd (SourceUnit.read_error hread).1 (by simp [Fault.isReported])
    · obtain ⟨keyword, clause, file, fs₁, hfinds, hrepeats, hchain, hposition⟩ :=
        hraises.of_circular
      have hvisits : s.Visits files name path text fs stage := ⟨unit, hread, hreached⟩
      have hsited := hvisits.sited hfiles
      obtain rfl : fs₁ = fs := by
        have hfound := hfinds.found
        rw [hsited.files_eq] at hfound
        exact hfiles.eq_of_find hfound
      exact ⟨stage, keyword, clause, file, hvisits, hfinds,
        (Stage.repeats_iff hsited hfinds).mp hrepeats, hchain, hposition⟩
  · rintro ⟨stage, keyword, clause, file, hvisits, hfinds, hkinds, rfl, rfl⟩
    exact hvisits.result_eq h
      (.circular hfinds ((Stage.repeats_iff (hvisits.sited hfiles) hfinds).mpr hkinds))

/-- As long as the files stay as they are, a run rejects a copybook as circular in two cases only:
one of the units that are being expanded comes from its file, or none does but one has its name in
capitals, and is the main source or was included under another spelling. -/
theorem cycles_rejected {σ : Type} (files : FileAccess (StateM σ)) (fs fs' : σ)
    (hfiles : files.Unchanging fs) (s s' : Session) (outcome : Outcome) :
    (∀ name text, (s.processText files name text).run fs = ((outcome, s'), fs') →
      s.RejectsCycles files name none text fs outcome.result) ∧
    ∀ path, (s.processFile files path).run fs = ((outcome, s'), fs') →
      (∃ fault, (readText files path s.options.encoding).run fs = (.error fault, fs) ∧
        outcome.result = .error fault ∧ ∀ chain position, fault ≠ .circularCopy chain position) ∨
      ∃ text, (readText files path s.options.encoding).run fs = (.ok text, fs) ∧
        s.RejectsCycles files path.render (some path) text fs outcome.result := by
  constructor
  · intro name text h
    exact run_rejectsCycles hfiles h
  · intro path h
    have hkept := hfiles.readText path s.options.encoding
    obtain ⟨fault, hread, herror⟩ | ⟨text, fs₁, hread, hrun⟩ := processFile_cases h
    · left
      rw [hread] at hkept
      obtain rfl : fs' = fs := hkept
      refine ⟨fault, hread, herror, ?_⟩
      rintro chain position rfl
      rcases readText_error hread with (⟨_, hother⟩ | ⟨_, hother⟩) | ⟨hother, -⟩
      · cases hother
      · cases hother
      · cases hother
    · right
      rw [hread] at hkept
      obtain rfl : fs₁ = fs := hkept
      exact ⟨text, hread, run_rejectsCycles hfiles hrun⟩

section Sample

/-- The file `b`, which includes the copybook `B`. -/
def smallFile : Path :=
  ⟨0, ["b"]⟩

lemma unchanging_cyclicFiles : cyclicFiles.Unchanging () :=
  ⟨fun _ => rfl, fun _ => rfl⟩

lemma small_visits : ∃ levels unit w, unit.written = cyclicWritten "b" ∧
    shallowSession.Visits cyclicFiles "b" (some smallFile) cyclicText ()
      (cyclicStage levels [⟨"b", none, some smallFile⟩] unit w) := by
  obtain ⟨unit, hread, hwritten⟩ := read_cyclicText "b"
  exact ⟨_, unit, _, hwritten, unit, hread, cyclic_reaches cyclicFiles rfl hwritten 3 _ _⟩

end Sample

/-- Where names are only tried as they are written, the file `b` is not allowed to include the other
file `B`. -/
theorem cycles_rejected_small :
    ∃ (outcome : Outcome) (s' : Session),
      (shallowSession.processFile cyclicFiles smallFile).run () = ((outcome, s'), ()) ∧
      outcome.result = .error (.circularCopy ["b", "B"] (some ⟨"b", 1, 1⟩)) ∧
      shallowSession.plan.caseSensitive = true ∧
      Inclusion.sameFile cyclicFiles.workDir ⟨"b", none, some smallFile⟩
        ⟨"B", none, some ⟨0, ["B"]⟩⟩ = false := by
  rcases hrun : (shallowSession.processFile cyclicFiles smallFile).run () with ⟨⟨outcome, s'⟩, fs⟩
  have hread : (readText cyclicFiles smallFile shallowSession.options.encoding).run () =
      (.ok cyclicText, ()) := by
    cbv
  have hname : smallFile.render = "b" := by
    cbv
  have hother : Inclusion.sameFile cyclicFiles.workDir ⟨"b", none, some smallFile⟩
      ⟨"B", none, some ⟨0, ["B"]⟩⟩ = false := by
    cbv
  have hkey : Inclusion.key ⟨"b", none, some smallFile⟩ = Inclusion.key ⟨"B", none, none⟩ := by
    cbv
  obtain ⟨levels, unit, w, hwritten, hvisits⟩ := small_visits
  have hposition : directivePosition? (cyclicWritten "b") cyclicKeyword = some ⟨"b", 1, 1⟩ := by
    cbv
  rw [← hwritten] at hposition
  rcases (cycles_rejected cyclicFiles () fs unchanging_cyclicFiles shallowSession s' outcome).2
    smallFile hrun with ⟨fault, hfault, -, -⟩ | ⟨text, htext, hrejects⟩
  · rw [hread] at hfault
    cases hfault
  · rw [hread] at htext
    obtain rfl := Except.ok.inj (Prod.mk.inj htext).1
    rw [hname] at hrejects
    refine ⟨outcome, s', rfl, (hrejects _ _).mpr ?_, rfl, hother⟩
    refine ⟨_, cyclicKeyword, cyclicClause, ⟨0, ["B"]⟩, hvisits, ⟨⟨7, _, rfl⟩, find_cyclic _⟩,
      .inr ⟨?_, ?_⟩, rfl, hposition.symm⟩
    · simp only [Stage.repeatsFile, cyclicStage, List.any_cons, List.any_nil, Bool.or_false]
      exact hother
    · exact ⟨_, List.mem_singleton_self _, hkey, .inl rfl⟩

end Session

end CobolText
