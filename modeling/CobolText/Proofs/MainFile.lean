import CobolText.Proofs.LineBreaks
import CobolText.Proofs.NestingLimit

/-!
# Sources from a file and sources handed over

A run that knows the file of its main source differs from one that does not in one thing: it takes
this file for one that is being expanded.  So as long as no directive finds the file as its
copybook, the two runs go through the same stages and come to the same end.  Together with the
breaks being unified when a file is read, and again when a text is cut into lines, this makes it
immaterial how a source is handed over and how its lines end.
-/

namespace CobolText

variable {σ : Type} {α β : Type} {files : FileAccess (StateM σ)} {fs fs' : σ}

/-- Two computations one after the other have the outcome of two others if the first ones do, and
the second ones after every return of the first one. -/
lemma Run.outcome_bind_congr {x y : Run (StateM σ) α} {f g : α → Run (StateM σ) β} {w : World σ}
    (hx : Run.outcome x w = Run.outcome y w)
    (hf : ∀ a w₁, Returns x w a w₁ → Run.outcome (f a) w₁ = Run.outcome (g a) w₁) :
    Run.outcome (x >>= f) w = Run.outcome (y >>= g) w := by
  rw [Run.outcome_bind, Run.outcome_bind, ← hx]
  rcases hout : Run.outcome x w with ⟨⟨⟨e⟩ | ⟨a⟩, s⟩, files⟩
  · rfl
  · exact hf a (s, files) hout

lemma Run.outcome_adapt_congr (g : Halt → Halt) {x y : Run (StateM σ) α} {w : World σ}
    (h : Run.outcome x w = Run.outcome y w) :
    Run.outcome (ExceptT.adapt g x) w = Run.outcome (ExceptT.adapt g y) w := by
  rw [Run.outcome_adapt, Run.outcome_adapt, h]

namespace Expansion

variable {r : RunRules} {main main' : Inclusion}

/-- Whether the directive that comes next at a stage cannot tell two main sources apart: the
copybook that it finds counts as both or as none of them. -/
def Stage.Indifferent (files : FileAccess (StateM σ)) (r : RunRules) (main main' : Inclusion)
    (s : Stage σ) : Prop :=
  ∀ keyword clause file fs, s.Finds files r keyword clause file fs →
    main.sameUnit files.workDir ⟨clause.name, clause.library, some file⟩ =
      main'.sameUnit files.workDir ⟨clause.name, clause.library, some file⟩

/-- Whether units with `levels` further levels are expanded in the same way above two main sources,
as long as no directive can tell these apart. -/
def SameAboveAt (files : FileAccess (StateM σ)) (r : RunRules) (main main' : Inclusion)
    (levels : Nat) : Prop :=
  ∀ (books : List Inclusion) (text : List Char) (unit : SourceUnit) (w : World σ),
    (∀ s, (Stage.enter r levels (main :: books) text unit w).Reaches files r s →
      s.Indifferent files r main main') →
    Run.outcome (expandUnit files r levels (main :: books) unit) w =
      Run.outcome (expandUnit files r levels (main' :: books) unit) w

section Stack

variable {levels : Nat} {books : List Inclusion} {text : List Char} {unit : SourceUnit}
  {p : Progress} {items : List Item} {w : World σ} (hlabel : main.label = main'.label)
  (hbelow : ∀ inner, levels = inner + 1 → SameAboveAt files r main main' inner)

include hlabel hbelow

/-- A copybook that is found is entered from both stacks or from none, and with the same report. -/
lemma includeBook_sameAbove {keyword : Token} {clause : CopyClause} {stop : Nat}
    (h : ∀ s, Stage.Reaches files r
      ⟨levels, main :: books, text, unit, p, .copy keyword clause stop :: items, w⟩ s →
      s.Indifferent files r main main') :
    Run.outcome (includeBook files r (below files r levels) (main :: books) clause
        (directivePosition? unit.written keyword)) w =
      Run.outcome (includeBook files r (below files r levels) (main' :: books) clause
        (directivePosition? unit.written keyword)) w := by
  unfold includeBook
  apply Run.outcome_bind_congr rfl
  intro found w₁ hfind
  obtain ⟨hfound, hstate⟩ := Returns.lift_iff.mp hfind
  cases found with
  | error fault => rfl
  | ok path =>
    have hsame := h _ .refl keyword clause path w₁.2 ⟨⟨stop, items, rfl⟩, hfound⟩
    simp only [List.any_cons, List.cons_append, List.map_cons, hlabel, ← hsame]
    split
    · rfl
    · rename_i hfresh
      cases levels with
      | zero => rfl
      | succ inner =>
        apply Run.outcome_bind_congr rfl
        intro source w₂ hload
        refine Run.outcome_bind_congr ?_ fun _ _ _ => rfl
        apply Run.outcome_bind_congr rfl
        intro book w₃ hread
        obtain ⟨hbook, rfl⟩ := readUnit_returns.mp hread
        refine hbelow inner rfl (books ++ [⟨clause.name, clause.library, some path⟩]) source book _
          fun s hs => h s (.head ?_ hs)
        exact .book hfound hstate (Bool.eq_false_iff.mpr hfresh) hload hbook

lemma carryOut_sameAbove {item : Item}
    (h : ∀ s, Stage.Reaches files r ⟨levels, main :: books, text, unit, p, item :: items, w⟩ s →
      s.Indifferent files r main main') :
    Run.outcome (carryOut files r (below files r levels) (main :: books) unit.written p item) w =
      Run.outcome (carryOut files r (below files r levels) (main' :: books) unit.written p item)
        w := by
  cases item with
  | kept start stop => rfl
  | change effect => rfl
  | malformed keyword defect => rfl
  | copy keyword clause stop =>
    have hbook := includeBook_sameAbove hlabel hbelow h
    exact Run.outcome_bind_congr (Run.outcome_adapt_congr _ hbook) fun _ _ _ => rfl

lemma foldlM_sameAbove
    (h : ∀ s, Stage.Reaches files r ⟨levels, main :: books, text, unit, p, items, w⟩ s →
      s.Indifferent files r main main') :
    Run.outcome (items.foldlM
        (carryOut files r (below files r levels) (main :: books) unit.written) p) w =
      Run.outcome (items.foldlM
        (carryOut files r (below files r levels) (main' :: books) unit.written) p) w := by
  induction items generalizing p w with
  | nil => rw [List.foldlM_nil, List.foldlM_nil]
  | cons item items ih =>
    rw [List.foldlM_cons, List.foldlM_cons]
    apply Run.outcome_bind_congr (carryOut_sameAbove hlabel hbelow h)
    intro p₁ w₁ hcarried
    exact ih fun s hs => h s (.head (.item hcarried) hs)

end Stack

/-- However deeply copybooks are nested, a unit is expanded in the same way above two main sources
that no directive can tell apart. -/
theorem expandUnit_sameAbove (hlabel : main.label = main'.label) (levels : Nat) :
    SameAboveAt files r main main' levels := by
  induction levels using Nat.strong_induction_on with
  | _ levels ih =>
    intro books text unit w h
    have hbelow : ∀ inner, levels = inner + 1 → SameAboveAt files r main main' inner :=
      fun inner hinner => ih inner (by omega)
    rw [expandUnit_eq, expandUnit_eq]
    apply Run.outcome_bind_congr rfl
    intro _ w₁ hwarned
    obtain rfl : w₁ = warned unit w := Returns.modify_iff.mp hwarned
    refine Run.outcome_bind_congr (Run.outcome_bind_congr ?_ fun _ _ _ => rfl) fun _ _ _ => rfl
    exact foldlM_sameAbove hlabel hbelow h

end Expansion

/-- Whether a file can be read and decoded, and to which text; its breaks are as they are in the
file. -/
def FileAccess.Decodes (files : FileAccess (StateM σ)) (encoding : Value) (path : Path) (fs : σ)
    (text : List Char) (fs' : σ) : Prop :=
  ∃ name bytes e, encodingName? encoding = some name ∧
    (files.read path).run fs = (.ok bytes, fs') ∧ Encoding.ofName? name = some e ∧
    e.decode bytes = .ok text

lemma FileAccess.Decodes.readText {encoding : Value} {path : Path} {text : List Char}
    (h : files.Decodes encoding path fs text fs') :
    (readText files path encoding).run fs = (.ok (Text.unifyBreaks text), fs') := by
  obtain ⟨name, bytes, e, hname, hread, he, hdecode⟩ := h
  unfold CobolText.readText
  simp only [hname]
  refine access_bind_iff.mpr ⟨_, _, hread, ?_⟩
  simp only [he, hdecode]
  rfl

namespace Session

open Expansion

variable {s : Session} {name : String} {path path' : Option Path} {text text' : List Char}

/-- Whether no directive that a run comes to finds a file as its copybook. -/
def Avoids (files : FileAccess (StateM σ)) (s : Session) (name : String) (path : Option Path)
    (text : List Char) (fs : σ) (file : Path) : Prop :=
  ∀ stage keyword clause found fs', s.Visits files name path text fs stage →
    stage.Finds files (s.options.runRules s.plan) keyword clause found fs' →
    Path.resolve files.workDir found ≠ Path.resolve files.workDir file

/-- A file that is not found makes no difference as the file of the main source. -/
lemma Avoids.indifferent {file : Path} (h : s.Avoids files name path text fs file)
    {stage : Stage σ} (hvisits : s.Visits files name path text fs stage) :
    stage.Indifferent files (s.options.runRules s.plan) ⟨name, none, some file⟩
      ⟨name, none, none⟩ := by
  intro keyword clause found fs' hfinds
  have hother : Inclusion.sameFile files.workDir ⟨name, none, some file⟩
      ⟨clause.name, clause.library, some found⟩ = false :=
    beq_eq_false_iff_ne.mpr (h stage keyword clause found fs' hvisits hfinds).symm
  rw [Inclusion.sameUnit, hother]
  rfl

/-- A run does not depend on the file of its main source if no directive does, nor on how the lines
of the source end. -/
lemma run_congr (htext : Text.physicalLines text = Text.physicalLines text')
    (h : ∀ stage, s.Visits files name path text fs stage →
      stage.Indifferent files (s.options.runRules s.plan) ⟨name, none, path⟩
        ⟨name, none, path'⟩) :
    (s.run files name path text).run fs = (s.run files name path' text').run fs := by
  have hsame : SourceUnit.read (s.options.runRules s.plan).toLineRules name text =
      SourceUnit.read (s.options.runRules s.plan).toLineRules name text' :=
    SourceUnit.read_congr htext
  cases hread : SourceUnit.read (s.options.runRules s.plan).toLineRules name text with
  | error fault => rw [run_eq_error rfl hread, run_eq_error rfl (hsame ▸ hread)]
  | ok unit =>
    have hlabel : Inclusion.label ⟨name, none, path⟩ = Inclusion.label ⟨name, none, path'⟩ := rfl
    have habove : SameAboveAt files (s.options.runRules s.plan) ⟨name, none, path⟩
        ⟨name, none, path'⟩ (s.options.runRules s.plan).maxDepth := expandUnit_sameAbove hlabel _
    have hexpansion : Run.outcome
        (expansion files (s.options.runRules s.plan) name path unit) (⟨s.cache, []⟩, fs) =
        Run.outcome (expansion files (s.options.runRules s.plan) name path' unit)
          (⟨s.cache, []⟩, fs) :=
      habove [] text unit _ fun stage hreached => h stage ⟨unit, hread, hreached⟩
    rw [run_eq rfl hread rfl, run_eq rfl (hsame ▸ hread) rfl]
    simp only [Run.result, Run.after, hexpansion]

/-- Given its name, a source has the same run as a text and as a file that no directive finds. -/
lemma run_file_eq_run_text {file : Path}
    (htext : Text.physicalLines text = Text.physicalLines text')
    (h : s.Avoids files name (some file) text fs file ∨ s.Avoids files name none text' fs file) :
    (s.run files name (some file) text).run fs = (s.run files name none text').run fs := by
  rcases h with h | h
  · exact run_congr htext fun stage hvisits => h.indifferent hvisits
  · symm
    apply run_congr htext.symm
    intro stage hvisits keyword clause found fs' hfinds
    exact (h.indifferent hvisits keyword clause found fs' hfinds).symm

/-- The lines of a source are the same, with the same warnings, however each of them ends.  And it
is preprocessed in the same way from its file and as a text, once the file has been read, as long as
none of the directives that are reached finds that file as its copybook. -/
theorem input_immaterial {σ : Type} (files : FileAccess (StateM σ)) (s : Session) :
    (∀ d format file text, PhysicalLine.IgnoresBreaks d format file text) ∧
    ∀ path text fs fs', files.Decodes s.options.encoding path fs text fs' →
      (s.Avoids files path.render (some path) (Text.unifyBreaks text) fs' path ∨
        s.Avoids files path.render none text fs' path) →
      (s.processFile files path).run fs = (s.processText files path.render text).run fs' := by
  constructor
  · exact PhysicalLine.ignoresBreaks
  · intro path text fs fs' hdecodes havoids
    have hsame := run_file_eq_run_text (Text.physicalLines_unifyBreaks text) havoids
    exact (perform_file hdecodes.readText).trans hsame

section Sample

/-- A file `main` that includes the copybook `B` and ends with a carriage return. -/
def returnFiles : FileAccess (StateM Unit) where
  workDir := ⟨1, []⟩
  isFile path := pure (path.parts = ["main"] || path.parts = ["B"])
  read path :=
    pure (.ok (if path.parts = ["main"] then [67, 79, 80, 89, 32, 66, 46, 13] else [65]))

def returnFile : Path :=
  ⟨0, ["main"]⟩

def returnText : List Char :=
  cyclicText ++ ['\r']

/-- Whether the copybook is still to be included, and nothing is read yet. -/
structure BeforeCopy (stage : Stage Unit) : Prop where
  items : stage.items = [.kept 0 0, .copy cyclicKeyword cyclicClause 7, .kept 7 8] ∨
    stage.items = [.copy cyclicKeyword cyclicClause 7, .kept 7 8]
  cache : stage.world.1.cache = BookCache.empty

/-- Whether no copybook is still to be included. -/
def WithoutCopy (stage : Stage Unit) : Prop :=
  ∀ keyword clause stop, .copy keyword clause stop ∉ stage.items

set_option maxRecDepth 20000

lemma find_return (position : Option Position) :
    (shallowRules.plan.find returnFiles "B" none position).run () = (.ok ⟨0, ["B"]⟩, ()) := by
  cbv

lemma load_return (diagnostics : List Diagnostic) :
    ∃ w, Returns (loadBook returnFiles shallowRules ⟨0, ["B"]⟩)
      (⟨BookCache.empty, diagnostics⟩, ()) ['A'] w := by
  refine ⟨(⟨⟨[⟨⟨1, ["B"]⟩, .text "latin-1", ['A']⟩]⟩, diagnostics⟩, ()), ?_⟩
  rw [Returns]
  cbv

lemma withoutCopy_enter {book : SourceUnit}
    (h : SourceUnit.read shallowRules.toLineRules "B" ['A'] = .ok book) (levels : Nat)
    (stack : List Inclusion) (source : List Char) (w : World Unit) :
    WithoutCopy (.enter shallowRules levels stack source book w) := by
  have hlogical : SourceUnit.logicalLines shallowRules.toLineRules "B" ['A'] =
      [.sampleCode "B" 1 ['A']] := by
    cbv
  obtain ⟨unit, hread, hwritten⟩ : ∃ unit,
      SourceUnit.read shallowRules.toLineRules "B" ['A'] = .ok unit ∧
      unit.written = LogicalLine.write .ansi85 .free [.sampleCode "B" 1 ['A']] := by
    apply SourceUnit.exists_read_of_no_keyword hlogical (by simp)
    rw [List.forall_mem_singleton]
    cbv
  obtain rfl : unit = book := Except.ok.inj (hread.symm.trans h)
  have hitems : ∀ options, Item.ofText .ansi85 options
      (LogicalLine.write .ansi85 .free [.sampleCode "B" 1 ['A']]).text = [.kept 0 2] := by
    intro options
    cases options with
    | false => cbv
    | true => cbv
  intro keyword clause stop hmem
  change Item.copy keyword clause stop ∈ Item.ofText .ansi85 _ unit.written.text at hmem
  rw [hwritten, hitems] at hmem
  cases List.mem_singleton.mp hmem

lemma WithoutCopy.of_next {s b : Stage Unit} (h : Stage.Next returnFiles shallowRules s b)
    (hs : WithoutCopy s) : WithoutCopy b := by
  cases h with
  | item carried =>
    intro keyword clause stop hmem
    exact hs keyword clause stop (List.mem_cons_of_mem _ hmem)
  | book found same fresh loaded read => exact absurd (List.mem_cons_self ..) (hs _ _ _)

/-- Once the copybook is included or entered, there is nothing more to include. -/
lemma BeforeCopy.of_next {s b : Stage Unit} (h : Stage.Next returnFiles shallowRules s b)
    (hs : BeforeCopy s) : BeforeCopy b ∨ WithoutCopy b := by
  obtain ⟨hitems, hcache⟩ := hs
  cases h with
  | item carried =>
    dsimp only at hitems hcache
    rcases hitems with hitems | hitems
    · left
      obtain ⟨rfl, rfl⟩ := List.cons.inj hitems
      obtain ⟨rfl, rfl⟩ := Returns.pure_iff.mp carried
      exact ⟨.inr rfl, hcache⟩
    · right
      obtain ⟨-, rfl⟩ := List.cons.inj hitems
      intro keyword clause stop hmem
      cases List.mem_singleton.mp hmem
  | @book levels stack text source unit book p keyword clause stop items path w w₁ w₂ found same
      fresh loaded read =>
    dsimp only at hitems hcache
    right
    rcases hitems with hitems | hitems
    · cases hitems
    · obtain ⟨hcopy, -⟩ := List.cons.inj hitems
      obtain ⟨-, rfl, -⟩ := Item.copy.inj hcopy
      obtain rfl : path = ⟨0, ["B"]⟩ :=
        Except.ok.inj (Prod.mk.inj (found.symm.trans (find_return _))).1
      obtain ⟨⟨cache, diagnostics⟩, _⟩ := w₁
      obtain rfl : cache = BookCache.empty := by
        rw [← hcache, ← same]
      obtain ⟨w', hload⟩ := load_return diagnostics
      have hsame := loaded.symm.trans hload
      simp only [Prod.mk.injEq, Except.ok.injEq] at hsame
      obtain ⟨⟨rfl, -⟩, -⟩ := hsame
      exact withoutCopy_enter read _ _ _ _

lemma visits_return {stage : Stage Unit}
    (h : shallowSession.Visits returnFiles "main" none returnText () stage) :
    BeforeCopy stage ∨ WithoutCopy stage := by
  obtain ⟨unit, hread, hreached⟩ := h
  obtain ⟨unit', hread', hwritten⟩ := read_cyclicText "main"
  obtain rfl : unit' = unit := by
    have hlines : Text.physicalLines returnText = Text.physicalLines cyclicText := by
      decide
    rw [SourceUnit.read_congr hlines] at hread
    exact Except.ok.inj (hread'.symm.trans hread)
  induction hreached with
  | refl =>
    left
    refine ⟨.inl ?_, rfl⟩
    rw [← items_cyclic "main" true, ← hwritten]
    rfl
  | tail _ hnext ih =>
    rcases ih with hbefore | hwithout
    · exact hbefore.of_next hnext
    · exact .inr (hwithout.of_next hnext)

lemma avoids_return : shallowSession.Avoids returnFiles "main" none returnText () returnFile := by
  rintro stage keyword clause found fs' hvisits ⟨⟨stop, items, hitems⟩, hfound⟩
  rcases visits_return hvisits with ⟨hnext | hnext, -⟩ | hwithout
  · rw [hitems] at hnext
    cases hnext
  · rw [hitems] at hnext
    obtain ⟨-, rfl, -⟩ := Item.copy.inj (List.cons.inj hnext).1
    obtain rfl : found = ⟨0, ["B"]⟩ :=
      Except.ok.inj (Prod.mk.inj (hfound.symm.trans (find_return _))).1
    decide
  · exact absurd (by rw [hitems]; exact List.mem_cons_self ..) (hwithout keyword clause stop)

end Sample

/-- The source `main` includes `B`, and its only line ends with a carriage return: it is
preprocessed in the same way from its file and as a text. -/
theorem input_immaterial_return :
    returnFiles.Decodes shallowSession.options.encoding returnFile () returnText () ∧
      shallowSession.Avoids returnFiles "main" none returnText () returnFile ∧
      (shallowSession.processFile returnFiles returnFile).run () =
        (shallowSession.processText returnFiles "main" returnText).run () := by
  have hname : returnFile.render = "main" := by
    cbv
  have hdecodes : returnFiles.Decodes shallowSession.options.encoding returnFile () returnText () :=
    ⟨"latin-1", _, .latin1, rfl, rfl, by cbv, by cbv⟩
  have hsame := (input_immaterial returnFiles shallowSession).2 returnFile returnText () () hdecodes
  rw [hname] at hsame
  exact ⟨hdecodes, avoids_return, hsame (.inr avoids_return)⟩

end Session

end CobolText
