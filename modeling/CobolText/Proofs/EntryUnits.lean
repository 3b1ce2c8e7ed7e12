import CobolText.Proofs.CommentSurvival
import CobolText.Proofs.EntryProse

/-!
# Comment entries unit by unit

Whether text is prose of a comment entry is settled in the unit it stands in, by the lines of that
unit alone: every copybook starts in its identification division, wherever the directive that
includes it stands.  So the prose in the expansion of a `COPY` directive is the prose that the
copybook, and those it includes, hold by themselves in text that their directives keep.  There is
none if none of these units has the header of an identification division, and each has a division
header before the first line that starts with the keyword of a paragraph with prose.
-/

namespace CobolText

/-- Whether a character is flagged as prose of a comment entry. -/
def TracedChar.isProse (x : TracedChar) : Bool :=
  x.2.any fun o => o.marks.commentEntry

lemma TracedChar.isComment_of_isProse {x : TracedChar} (h : x.isProse = true) :
    x.isComment = true := by
  obtain ⟨c, o⟩ := x
  cases o with
  | none => exact absurd h (by simp [TracedChar.isProse])
  | some o =>
    have hflag : o.marks.commentEntry = true := h
    simp [TracedChar.isComment, Origin.isComment, hflag]

/-- Replacement neither loses prose nor makes any. -/
lemma TracedText.WellFormed.mem_replace_iff {t : TracedText} (ht : t.WellFormed)
    (rules : List ReplacementRule) {x : TracedChar} (hx : x.isProse = true) :
    x ∈ (t.replace rules).trace ↔ x ∈ t.trace := by
  have hmade : Hereditary fun x => x.isProse = true → x ∈ t.trace := by
    constructor
    · intro c hc
      exact absurd hc (by simp [TracedChar.isProse])
    · intro d o _ c hc
      exact absurd hc (by simp [TracedChar.isProse, Origin.replaced])
  constructor
  · intro hmem
    exact TracedText.forall_trace_replace hmade ht (fun y hy _ => hy) rules x hmem hx
  · intro hmem
    exact ht.mem_trace_replace hmem (TracedChar.isComment_of_isProse hx) rules

namespace Expansion

variable {σ : Type} {files : FileAccess (StateM σ)} {r : RunRules}

namespace Stage

/-- The logical lines of the unit of a stage, before comment entries are looked for. -/
def logicalLines (r : RunRules) (s : Stage σ) : List LogicalLine :=
  SourceUnit.logicalLines r.toLineRules s.unit.name s.text

end Stage

/-- All prose comes from a unit that is entered. -/
lemma carried_prose : Carried files r fun s _ x => s.Entered r → x.isProse = true →
    ∃ b inner y, s.Enters files r b inner ∧ b.Keeps r y ∧
      x = y.within (inner.map Inclusion.name) where
  hereditary s w := by
    constructor
    · intro c _ hc
      exact absurd hc (by simp [TracedChar.isProse])
    · intro d o _ c _ hc
      exact absurd hc (by simp [TracedChar.isProse, Origin.replaced])
  grows _ _ h := h
  own := by
    intro s hread w x hx hentered _
    refine ⟨s, [], x, ⟨.refl, hentered, hread, (List.append_nil _).symm⟩, hx, ?_⟩
    rw [List.map_nil, TracedChar.within_nil]
    rfl
  included := by
    intro s b name path hbook w _ x hx _ hprose
    have hown : x.isProse = true := by
      obtain ⟨c, o⟩ := x
      cases o with
      | none => exact hprose
      | some o => exact hprose
    obtain ⟨b', inner, y, henters, hkeeps, rfl⟩ := hx hbook.entered hown
    obtain ⟨library, hstack⟩ := hbook.stack_eq
    refine ⟨b', ⟨name, library, some path⟩ :: inner, y, ⟨?_, henters.entered, henters.isRead, ?_⟩,
      hkeeps, ?_⟩
    · exact hbook.reached.trans henters.reached
    · rw [henters.stack_eq, hstack, List.append_assoc]
      rfl
    · rw [TracedChar.within_within]
      rfl

namespace Stage

/-- Whether the prose in the expansion of a unit is settled unit by unit. -/
structure ProseByUnit (files : FileAccess (StateM σ)) (r : RunRules) (s : Stage σ)
    (out : TracedText) : Prop where
  /-- The prose that comes out is what the units that are entered hold in text they keep, seen
  through the copybooks around them. -/
  comes_out : ∀ x, x.isProse = true → (x ∈ out.trace ↔ ∃ b inner y, s.Enters files r b inner ∧
    b.Keeps r y ∧ x = y.within (inner.map Inclusion.name))
  /-- What is prose in a unit hangs on the lines of the unit. -/
  own_lines : ∀ b inner, s.Enters files r b inner → ∀ x, x ∈ proseCells b.unit.written.trace ↔
    ∃ before l after k, b.logicalLines r = before ++ l :: after ∧
      CommentEntry.ProseFrom r.dialect before l k ∧ x ∈ l.cells.drop k
  /-- There is no prose if in every unit, none of which has the header of an identification
  division, a division ends before the first keyword of a paragraph with prose. -/
  none_comes_out :
    (∀ b inner, s.Enters files r b inner → ∀ l ∈ b.logicalLines r, l.kind.isCode = true →
      CommentEntry.startsIdentification l.content = false) →
    (∀ b inner, s.Enters files r b inner → ∀ before l after,
      b.logicalLines r = before ++ l :: after → l.kind.isCode = true →
      (CommentEntry.proseStart? r.dialect l.content).isSome = true →
      ∃ u ∈ before ++ [l], u.kind.isCode = true ∧ CommentEntry.endsDivision u.content = true) →
    ∀ x ∈ out.trace, x.isProse = false

section Returned

variable {levels : Nat} {stack : List Inclusion} {text : List Char} {unit : SourceUnit}
  {w w' : World σ} {out : TracedText}
  (hread : SourceUnit.read r.toLineRules unit.name text = .ok unit)
  (h : Returns (expandUnit files r levels stack unit) w out w')
include hread h

/-- The prose that comes out of a unit is that of the units entered for it. -/
lemma prose_comes_out {x : TracedChar} (hx : x.isProse = true) :
    x ∈ out.trace ↔ ∃ b inner y, (enter r levels stack text unit w).Enters files r b inner ∧
      b.Keeps r y ∧ x = y.within (inner.map Inclusion.name) := by
  constructor
  · intro hmem
    obtain ⟨-, -, hcarried⟩ := expandUnit_carries carried_prose levels stack text unit w w' out
      hread h
    exact hcarried x hmem rfl hx
  · -- What a unit keeps comes out of it, and then of all units around it.
    rintro ⟨b, inner, y, henters, ⟨start, stop, hitem, hy⟩, rfl⟩
    have hcomment := TracedChar.isComment_of_isProse hx
    rw [TracedChar.isComment_within] at hcomment
    have hsound : (enter r levels stack text unit w).Sound r := sound_enter hread
    obtain ⟨out', inner', hstack, hcompletes, hcomesOut⟩ :=
      (completes_enter h text).reaches hsound henters.reached
    rw [henters.stack_eq, List.append_cancel_left_eq] at hstack
    rw [hstack]
    apply hcomesOut y _ hcomment
    rw [← henters.entered] at hitem
    exact hcompletes.mem_of_kept (hsound.reaches henters.reached) hitem hy hcomment

lemma proseByUnit_of_returns : (enter r levels stack text unit w).ProseByUnit files r out := by
  refine ⟨fun x => prose_comes_out hread h,
    fun b inner henters x => SourceUnit.mem_proseCells_written henters.isRead x, ?_⟩
  intro hheader hkeyword x hmem
  by_contra hx
  rw [Bool.not_eq_false] at hx
  obtain ⟨b, inner, ⟨c, o⟩, henters, hkeeps, rfl⟩ := (prose_comes_out hread h hx).mp hmem
  cases o with
  | none => exact absurd hx (by simp [TracedChar.isProse, TracedChar.within])
  | some o =>
    have hcell : (c, o.position) ∈ proseCells b.unit.written.trace :=
      mem_proseCells.mpr ⟨o, hkeeps.mem, hx, rfl⟩
    obtain ⟨before, l, after, k, hlines, hprose, -⟩ :=
      (SourceUnit.mem_proseCells_written henters.isRead _).mp hcell
    exact CommentEntry.not_proseFrom (hheader b inner henters) (hkeyword b inner henters) hlines k
      hprose

end Returned

lemma ProseByUnit.replace {s : Stage σ} {out : TracedText} (h : s.ProseByUnit files r out)
    (hout : out.WellFormed) (rules : List ReplacementRule) :
    s.ProseByUnit files r (out.replace rules) where
  comes_out x hx := (hout.mem_replace_iff rules hx).trans (h.comes_out x hx)
  own_lines := h.own_lines
  none_comes_out hheader hkeyword x hmem := by
    by_contra hx
    rw [Bool.not_eq_false] at hx
    have hnone := h.none_comes_out hheader hkeyword x ((hout.mem_replace_iff rules hx).mp hmem)
    rw [hnone] at hx
    exact absurd hx (by simp)

/-- A run that completes a stage at which a `COPY` directive comes next enters the copybook, whose
expansion holds the prose of its own units and those it includes. -/
lemma Completes.copy {s : Stage σ} {out : TracedText} (h : s.Completes files r out)
    {keyword : Token} {clause : CopyClause} {stop : Nat} {items : List Item}
    (hitems : s.items = .copy keyword clause stop :: items) :
    ∃ b path book w', Next files r s b ∧ b.Entered r ∧
      b.stack = s.stack ++ [⟨clause.name, clause.library, some path⟩] ∧
      Returns (includeBook files r (below files r s.levels) s.stack clause
        (directivePosition? s.unit.written keyword)) s.world book w' ∧
      b.ProseByUnit files r book ∧
      ∃ out', b.Completes files r out' ∧
        ∀ x, x.isProse = true → x ∈ book.trace → x ∈ out'.trace := by
  obtain ⟨levels, stack, text, unit, p, _, w⟩ := s
  obtain rfl := hitems
  obtain ⟨p', w', hstep, -⟩ := h.item
  obtain ⟨book, hbook, -⟩ := copy_returns_iff.mp hstep
  obtain ⟨inner, path, source, bookUnit, w₂, out', rfl, hnext, hread, -, -, hexpand, rfl⟩ :=
    includeBook_enters hbook text stop items
  have hisRead := SourceUnit.read_name hread
  have hwell := (expandUnit_carries carried_true inner _ source _ _ _ _ hisRead hexpand).2.1
  refine ⟨_, path, _, w', hnext, rfl, rfl, hbook, ?_, out', completes_enter hexpand source, ?_⟩
  · exact (proseByUnit_of_returns hisRead hexpand).replace hwell clause.rules
  · intro x hx hmem
    exact (hwell.mem_replace_iff clause.rules hx).mp hmem

end Stage

end Expansion

namespace Session

open Expansion

variable {σ : Type}

/-- Whether prose is settled unit by unit in a run, in the output and in the expansion of every
`COPY` directive that is carried out, wherever it stands; and the prose of such an expansion comes
out of the run. -/
def ProseByUnit (files : FileAccess (StateM σ)) (s : Session) (name : String) (path : Option Path)
    (text : List Char) (fs : σ) (output : TracedText) : Prop :=
  ∃ unit, SourceUnit.read (s.options.runRules s.plan).toLineRules name text = .ok unit ∧
    (s.entry name path text unit fs).ProseByUnit files (s.options.runRules s.plan) output ∧
    ∀ stage keyword clause stop items,
      (s.entry name path text unit fs).Reaches files (s.options.runRules s.plan) stage →
      stage.items = .copy keyword clause stop :: items →
      ∃ b path book w', Stage.Next files (s.options.runRules s.plan) stage b ∧
        b.Entered (s.options.runRules s.plan) ∧
        b.stack = stage.stack ++ [⟨clause.name, clause.library, some path⟩] ∧
        Returns (includeBook files (s.options.runRules s.plan)
          (below files (s.options.runRules s.plan) stage.levels) stage.stack
          clause (directivePosition? stage.unit.written keyword)) stage.world book w' ∧
        b.ProseByUnit files (s.options.runRules s.plan) book ∧
        ∀ x ∈ book.trace, x.isProse = true →
          x.within ((b.stack.drop 1).map Inclusion.name) ∈ output.trace

lemma run_proseByUnit {files : FileAccess (StateM σ)} {s s' : Session} {name : String}
    {path : Option Path} {text : List Char} {fs fs' : σ} {outcome : Outcome}
    {result : Preprocessed} (h : (s.run files name path text).run fs = ((outcome, s'), fs'))
    (hok : outcome.result = .ok result) :
    s.ProseByUnit files name path text fs result.output := by
  obtain ⟨unit, state, hunit, hreturns, -⟩ := run_ok h hok
  have hread := SourceUnit.read_name hunit
  have hsound : (s.entry name path text unit fs).Sound (s.options.runRules s.plan) :=
    Stage.sound_enter hread
  have hcompletes := Stage.completes_enter hreturns text
  refine ⟨unit, hunit, Stage.proseByUnit_of_returns hread hreturns, ?_⟩
  intro stage keyword clause stop items hreached hitems
  obtain ⟨out, inner, -, hstage, -⟩ := hcompletes.reaches hsound hreached
  obtain ⟨b, file, book, w', hnext, hentered, hstack, hbook, hprose, out', hout', hmem⟩ :=
    hstage.copy hitems
  refine ⟨b, file, book, w', hnext, hentered, hstack, hbook, hprose, fun x hx hflag => ?_⟩
  obtain ⟨out'', inner', hstack', hb, hcomes⟩ := hcompletes.reaches hsound (hreached.tail hnext)
  obtain rfl := hb.unique hout'
  rw [hstack']
  exact hcomes x (hmem x hflag hx) (TracedChar.isComment_of_isProse hflag)

/-- Comment entries are found unit by unit: in every run that gives a result, the prose in the
expansion of a `COPY` directive is the prose that the copybook and those it includes hold by their
own lines, whatever stands before the directive. -/
theorem comment_entries_by_unit {σ : Type} (files : FileAccess (StateM σ)) (s s' : Session)
    (fs fs' : σ) (outcome : Outcome) (result : Preprocessed) (hok : outcome.result = .ok result) :
    (∀ name text, (s.processText files name text).run fs = ((outcome, s'), fs') →
      s.ProseByUnit files name none text fs result.output) ∧
    ∀ path, (s.processFile files path).run fs = ((outcome, s'), fs') →
      ∃ text fs₁, (readText files path s.options.encoding).run fs = (.ok text, fs₁) ∧
        s.ProseByUnit files path.render (some path) text fs₁ result.output := by
  constructor
  · intro name text h
    exact run_proseByUnit h hok
  · intro path h
    obtain ⟨text, fs₁, hread, hrun⟩ := processFile_ok h hok
    exact ⟨text, fs₁, hread, run_proseByUnit hrun hok⟩

section Sample

/-- Files that all hold a paragraph of two lines. -/
def paragraphFiles : FileAccess (StateM Unit) where
  workDir := ⟨1, []⟩
  isFile _ := pure true
  read _ := pure (.ok [83, 69, 67, 85, 82, 73, 84, 89, 46, 10, 49])

def paragraphText : List Char :=
  ['S', 'E', 'C', 'U', 'R', 'I', 'T', 'Y', '.', '\n', '1']

/-- A `COPY` directive behind the header of another division. -/
def divisionText : List Char :=
  ['D', 'A', 'T', 'A', ' ', 'D', 'I', 'V', 'I', 'S', 'I', 'O', 'N', '.', '\n',
    'C', 'O', 'P', 'Y', ' ', 'B', '.']

/-- A session in free format. -/
def freeSession : Session where
  options := { Options.standard with format := .free, encoding := .text "latin-1" }
  plan := sampleRules.plan
  cache := BookCache.empty

abbrev freeRules : RunRules :=
  freeSession.options.runRules freeSession.plan

def divisionLines : List LogicalLine :=
  [.sampleCode "main" 1 ['D', 'A', 'T', 'A', ' ', 'D', 'I', 'V', 'I', 'S', 'I', 'O', 'N', '.'],
    .sampleCode "main" 2 ['C', 'O', 'P', 'Y', ' ', 'B', '.']]

def keywordLine : LogicalLine :=
  .sampleCode "B" 1 ['S', 'E', 'C', 'U', 'R', 'I', 'T', 'Y', '.']

def proseLine : LogicalLine :=
  .sampleCode "B" 2 ['1']

def divisionWritten : TracedText :=
  LogicalLine.write .ansi85 .free divisionLines

/-- The copybook as it is written out, with its second line as prose. -/
def paragraphWritten : TracedText :=
  LogicalLine.write .ansi85 .free
    [keywordLine, { proseLine with commentEntry := true, marker := LogicalLine.entryMark }]

def copyKeyword : Token :=
  ⟨.word, ['C', 'O', 'P', 'Y'], 15⟩

def paragraphOutput : TracedText :=
  (Progress.initial.push [paragraphWritten.cut 0 17 []]).finish

def divisionProgress : Progress :=
  let first := Progress.initial.push [divisionWritten.cut 0 15 []]
  let second := first.push (splice divisionWritten.text 22 "B" (paragraphOutput.replace []))
  { second with copies := 1 }.push [divisionWritten.cut 22 23 []]

set_option maxRecDepth 20000

lemma read_divisionText :
    ∃ unit, SourceUnit.read freeRules.toLineRules "main" divisionText = .ok unit ∧
      unit.written = divisionWritten := by
  have hlogical : SourceUnit.logicalLines freeRules.toLineRules "main" divisionText =
      divisionLines := by
    cbv
  have hkeyword : ∀ l ∈ divisionLines,
      CommentEntry.proseStart? freeRules.dialect l.content = none := by
    simp only [divisionLines, List.forall_mem_cons]
    exact ⟨by cbv, by cbv, by simp⟩
  exact SourceUnit.exists_read_of_no_keyword hlogical (by simp [divisionLines]) hkeyword

-- The copybook starts in its identification division, so its first line opens an entry.
lemma flagEntries_paragraph :
    LogicalLine.flagEntries .ansi85 [keywordLine, proseLine] =
      [keywordLine, { proseLine with commentEntry := true }] := by
  have hstart : CommentEntry.proseStart? .ansi85 keywordLine.content = some 9 := by
    cbv
  have hstays : CommentEntry.staysInIdentification true keywordLine.content = true := by
    cbv
  have hblank : Text.isBlankText (keywordLine.content.drop 9) = true := by
    cbv
  have hgoes : CommentEntry.isTerminator .ansi85 proseLine.content = false := by
    cbv
  have hfirst : CommentEntry.step .ansi85 .initial keywordLine = (⟨true, true⟩, [keywordLine]) := by
    have hcode : keywordLine.kind.isCode = true := rfl
    simp [CommentEntry.step, CommentEntry.openEntry, CommentEntry.Progress.initial, hcode, hstart,
      hstays, hblank]
  have hsecond : CommentEntry.step .ansi85 ⟨true, true⟩ proseLine =
      (⟨true, true⟩, [{ proseLine with commentEntry := true }]) := by
    have hcode : proseLine.kind.isCode = true := rfl
    simp [CommentEntry.step, hcode, hgoes]
  simp only [LogicalLine.flagEntries, CommentEntry.flagFrom, hfirst, hsecond]
  rfl

lemma read_paragraphText :
    ∃ unit, SourceUnit.read freeRules.toLineRules "B" paragraphText = .ok unit ∧
      unit.written = paragraphWritten := by
  have hlogical : SourceUnit.logicalLines freeRules.toLineRules "B" paragraphText =
      [keywordLine, proseLine] := by
    cbv
  have hmark : [keywordLine, { proseLine with commentEntry := true }].map
      (LogicalLine.mark false) = [keywordLine, { proseLine with
        commentEntry := true, marker := LogicalLine.entryMark }] := by
    cbv
  have hne : SourceUnit.logicalLines freeRules.toLineRules "B" paragraphText ≠ [] := by
    simp [hlogical]
  obtain ⟨unit, hread⟩ := SourceUnit.exists_read hne
  refine ⟨unit, hread, ?_⟩
  rw [SourceUnit.written_of_read hread, hlogical]
  exact congrArg (LogicalLine.write .ansi85 .free)
    ((congrArg _ flagEntries_paragraph).trans hmark)

lemma paragraph_expands {stack : List Inclusion} (hstack : decide (stack.length ≤ 1) = false)
    {unit : SourceUnit} (h : unit.written = paragraphWritten) (levels : Nat) (w : World Unit) :
    Returns (expandUnit paragraphFiles freeRules levels stack unit) w paragraphOutput
      (warned unit w) := by
  have hitems : Item.ofText freeRules.dialect false paragraphWritten.text = [.kept 0 17] := by
    cbv
  apply returns_expandUnit
  rw [h, hstack, hitems]
  apply Returns.bind_iff.mpr
  exact ⟨_, _, Returns.pure_iff.mpr ⟨rfl, rfl⟩, Returns.pure_iff.mpr ⟨rfl, rfl⟩⟩

lemma paragraph_included (diagnostics : List Diagnostic) :
    ∃ w', Returns (includeBook paragraphFiles freeRules (below paragraphFiles freeRules 16)
      [⟨"main", none, none⟩] ⟨"B", none, false, []⟩
      (directivePosition? divisionWritten copyKeyword)) (⟨BookCache.empty, diagnostics⟩, ())
      (paragraphOutput.replace []) w' := by
  have hfound : (freeRules.plan.find paragraphFiles "B" none
      (directivePosition? divisionWritten copyKeyword)).run () = (.ok ⟨0, ["B"]⟩, ()) := by
    cbv
  have hloaded : Returns (loadBook paragraphFiles freeRules ⟨0, ["B"]⟩)
      (⟨BookCache.empty, diagnostics⟩, ()) paragraphText
      (⟨⟨[⟨⟨1, ["B"]⟩, .text "latin-1", paragraphText⟩]⟩, diagnostics⟩, ()) := by
    rw [Returns]
    cbv
  obtain ⟨book, hbook, hwritten⟩ := read_paragraphText
  refine ⟨_, returns_includeBook hfound rfl ?_ hloaded hbook (paragraph_expands rfl hwritten 15 _)⟩
  cbv

lemma division_expands {unit : SourceUnit} (h : unit.written = divisionWritten) :
    ∃ w', Returns (expandUnit paragraphFiles freeRules freeRules.maxDepth
      [⟨"main", none, none⟩] unit) (⟨BookCache.empty, []⟩, ()) divisionProgress.finish w' := by
  have hitems : Item.ofText freeRules.dialect true divisionWritten.text =
      [.kept 0 15, .copy copyKeyword ⟨"B", none, false, []⟩ 22, .kept 22 23] := by
    cbv
  obtain ⟨w', hincluded⟩ := paragraph_included unit.diagnostics
  have hcopied : Returns (carryOut paragraphFiles freeRules (below paragraphFiles freeRules 16)
      [⟨"main", none, none⟩] divisionWritten (Progress.initial.push [divisionWritten.cut 0 15 []])
      (.copy copyKeyword ⟨"B", none, false, []⟩ 22)) (⟨BookCache.empty, unit.diagnostics⟩, ())
      _ w' :=
    copy_returns_iff.mpr ⟨_, hincluded, rfl⟩
  have hkept : ∀ (start stop : Nat) (p : Progress) (w : World Unit),
      Returns (carryOut paragraphFiles freeRules (below paragraphFiles freeRules 16)
        [⟨"main", none, none⟩] divisionWritten p (.kept start stop)) w
        (p.push [divisionWritten.cut start stop []]) w :=
    fun _ _ _ _ => Returns.pure_iff.mpr ⟨rfl, rfl⟩
  have hone : decide (([⟨"main", none, none⟩] : List Inclusion).length ≤ 1) = true := rfl
  refine ⟨w', returns_expandUnit ?_⟩
  rw [h, hone, hitems]
  apply Returns.bind_iff.mpr
  refine ⟨_, _, hkept 0 15 _ _, Returns.bind_iff.mpr ⟨_, w', hcopied, ?_⟩⟩
  exact Returns.bind_iff.mpr ⟨_, w', hkept 22 23 _ _, Returns.pure_iff.mpr ⟨rfl, rfl⟩⟩

lemma prose_divisionProgress :
    divisionProgress.finish.trace[30]? =
      some ('1', some ⟨⟨"B", 2, 1⟩, { commentEntry := true, inclusions := ["B"] }⟩) := by
  cbv

end Sample

/-- A paragraph in a copybook is taken for a comment entry, although its directive stands in the
data division. -/
theorem comment_entries_by_unit_paragraph :
    ∃ result : Preprocessed,
      freeSession.ProseByUnit paragraphFiles "main" none divisionText () result.output ∧
      result.output.trace[30]? =
        some ('1', some ⟨⟨"B", 2, 1⟩, { commentEntry := true, inclusions := ["B"] }⟩) := by
  obtain ⟨unit, hread, hwritten⟩ := read_divisionText
  obtain ⟨⟨state, fs⟩, hreturns⟩ := division_expands hwritten
  have hrun := run_of_returns hread hreturns
  exact ⟨_, (comment_entries_by_unit paragraphFiles freeSession _ () fs _ _ rfl).1 "main"
    divisionText hrun, prose_divisionProgress⟩

end Session

end CobolText
