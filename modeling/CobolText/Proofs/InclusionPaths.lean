import CobolText.Proofs.CharacterSources
import CobolText.Proofs.EntryUnits
import CobolText.Proofs.InclusionBounds

/-!
# Inclusion paths

The names that an extent of the output holds are those of the copybooks around the unit that its
characters were read from, outermost first, however often the text was cut, put under rules and put
into the place of directives on its way.  The position of an extent names the main source if there
are none, and otherwise the file of the innermost of them.
-/

namespace CobolText

variable {σ : Type}

namespace Expansion

variable {files : FileAccess (StateM σ)} {r : RunRules}

namespace Stage

/-- Whether the unit of a stage bears the name of the main source if it is at the bottom of the
stack, and otherwise that of the file on top of the stack. -/
def Named (main : String) (s : Stage σ) : Prop :=
  (s.stack.length = 1 ∧ s.unit.name = main) ∨
    ∃ outer frame file, outer ≠ [] ∧ s.stack = outer ++ [frame] ∧ frame.path = some file ∧
      s.unit.name = file.render

lemma Named.stack_ne_nil {main : String} {s : Stage σ} (h : s.Named main) : s.stack ≠ [] := by
  rcases h with ⟨hlength, -⟩ | ⟨outer, frame, file, -, hstack, -⟩
  · exact List.ne_nil_of_length_eq_add_one hlength
  · simp [hstack]

lemma Next.named {main : String} {s b : Stage σ} (h : Next files r s b) (hs : s.Named main) :
    b.Named main := by
  cases h with
  | item carried => exact hs
  | book found same fresh loaded read =>
    exact .inr ⟨_, _, _, hs.stack_ne_nil, rfl, rfl, SourceUnit.name_of_read read⟩

lemma Reaches.named {main : String} {s b : Stage σ} (h : s.Reaches files r b)
    (hs : s.Named main) : b.Named main := by
  induction h with
  | refl => exact hs
  | tail _ hnext ih => exact hnext.named ih

/-- A character with an origin has its position from a character of a unit, and the names of the
copybooks around that unit. -/
lemma Explains.origin {s : Stage σ} {source : Source σ} {c : Char} {u : Origin}
    (h : s.Explains files r (some source) (c, some u)) :
    ∃ inner d o, s.Enters files r source.stage inner ∧
      source.stage.unit.written.trace[source.offset]? = some (d, some o) ∧
      u.position = o.position ∧ o.position.file = source.stage.unit.name ∧
      u.marks.inclusions = inner.map Inclusion.name ∧ (u.marks.replaced = false → c = d) := by
  obtain ⟨inner, d, _ | o, henters, hget, hx⟩ := h
  · rcases hx with hx | hx
    · exact absurd (congrArg Prod.snd hx) (by simp [TracedChar.within])
    · exact absurd hx (by simp [TracedChar.within])
  · obtain ⟨hin, -, hown⟩ := (SourceUnit.standsIn_written henters.isRead).2 d o
      (List.mem_of_getElem? hget)
    have hnames : (o.within (inner.map Inclusion.name)).marks.inclusions =
        inner.map Inclusion.name := by
      simp only [Origin.within, hown, List.append_nil]
    refine ⟨inner, d, o, henters, hget, ?_⟩
    rcases hx with hx | hx
    · obtain ⟨rfl, hu⟩ := Prod.mk.inj hx
      obtain rfl := Option.some.inj hu
      exact ⟨rfl, hin.1, hnames, fun _ => rfl⟩
    · obtain rfl := Option.some.inj hx
      exact ⟨rfl, hin.1, hnames, fun hkept => absurd hkept (by simp [Origin.replaced])⟩

end Stage

/-- Whether the character of an extent at an offset was read from a source, and the names that the
extent holds are those of the copybooks around the unit of the source. -/
structure ReadThrough (main : Inclusion) (depth : Nat) (output : TracedText) (e : Extent)
    (offset : Nat) (source : Source σ) : Prop where
  /-- A character that no rule wrote is the one that was read. -/
  character : ∃ c o, source.stage.unit.written.trace[source.offset]? = some (c, some o) ∧
    e.positionAt offset = o.position ∧ (e.marks.replaced = false → output.text[offset]? = some c)
  /-- The main source is at the bottom of the stack, the copybooks are above it. -/
  inclusions_eq : e.marks.inclusions = (source.stage.stack.drop 1).map Inclusion.name
  eq_nil_iff : e.marks.inclusions = [] ↔ source.stage.stack = [main]
  length_le : e.marks.inclusions.length ≤ depth
  file_eq : if e.marks.inclusions = [] then e.position.file = main.name
    else ∃ frame file, (source.stage.stack.drop 1).getLast? = some frame ∧
      frame.path = some file ∧ e.position.file = file.render

/-- A character that is explained by its source was read through the copybooks around it. -/
lemma Stage.Explains.readThrough {entry : Stage σ} {bottom : Inclusion} {depth : Nat}
    (hstack : entry.stack = [bottom])
    (hrooted : Rooted files.workDir depth bottom entry.levels entry.stack)
    (hnamed : entry.Named bottom.name) {output : TracedText} {e : Extent} {offset : Nat} {c : Char}
    (hc : output.text[offset]? = some c) {source : Source σ}
    (h : entry.Explains files r (some source) (c, some (e.originAt offset))) :
    (∃ inner, entry.Enters files r source.stage inner) ∧
      ReadThrough bottom depth output e offset source := by
  obtain ⟨inner, d, o, henters, hget, hposition, hfile, hnames, hkept⟩ := h.origin
  have hinner : source.stage.stack = bottom :: inner := by
    rw [henters.stack_eq, hstack]
    rfl
  have hinclusions : e.marks.inclusions = (source.stage.stack.drop 1).map Inclusion.name := by
    rw [hinner]
    exact hnames
  have hnil : e.marks.inclusions = [] ↔ source.stage.stack = [bottom] := by
    rw [hinclusions, hinner]
    simp
  refine ⟨⟨inner, henters⟩, ⟨d, o, hget, hposition, ?_⟩, hinclusions, hnil, ?_, ?_⟩
  · intro hreplaced
    rw [hc, hkept hreplaced]
  · have hlength := (Reaches.rooted henters.reached hrooted).length_le
    rw [hinclusions, List.length_map, List.length_drop]
    omega
  · have hunit : e.position.file = source.stage.unit.name := by
      rw [← hfile, ← hposition]
      unfold Extent.originAt Extent.positionAt
      split <;> rfl
    rw [hunit]
    rcases Reaches.named henters.reached hnamed with ⟨hlength, hname⟩ |
      ⟨outer, frame, file, houter, hframe, hpath, hname⟩
    · rw [hinner, List.length_cons, Nat.add_eq_right, List.length_eq_zero_iff] at hlength
      rw [if_pos (hnil.mpr (by rw [hinner, hlength]))]
      exact hname
    · have hne : ¬e.marks.inclusions = [] := by
        intro hempty
        have hlength := congrArg List.length (hframe.symm.trans (hnil.mp hempty))
        have hpos := List.length_pos_of_ne_nil houter
        simp only [List.length_append, List.length_singleton] at hlength
        omega
      rw [if_neg hne]
      refine ⟨frame, file, ?_, hpath, hname⟩
      rw [hframe, List.drop_append_of_le_length (List.length_pos_of_ne_nil houter),
        List.getLast?_concat]

end Expansion

namespace Session

open Expansion

/-- Whether the inclusions of every extent of the output are those of the unit that its characters
were read from. -/
def PathsHold (files : FileAccess (StateM σ)) (s : Session) (name : String) (path : Option Path)
    (text : List Char) (fs : σ) (depth : Nat) (output : TracedText) : Prop :=
  ∃ unit sources, SourceUnit.read (s.options.runRules s.plan).toLineRules name text = .ok unit ∧
    (∀ xs, Stage.ReadFrom files (s.options.runRules s.plan) (s.entry name path text unit fs)
      (s.entry name path text unit fs) [] xs ↔ xs = sources) ∧
    sources.length = output.text.length ∧
    ∀ e ∈ output.extents, e.start < e.stop ∧ ∀ offset : Nat, e.covers offset = true →
      ∃ source inner, sources[offset]? = some (some source) ∧
        (s.entry name path text unit fs).Enters files (s.options.runRules s.plan) source.stage
          inner ∧
        ReadThrough ⟨name, none, path⟩ depth output e offset source

lemma run_pathsHold {files : FileAccess (StateM σ)} {s s' : Session} {name : String}
    {path : Option Path} {text : List Char} {fs fs' : σ} {outcome : Outcome}
    {result : Preprocessed} (h : (s.run files name path text).run fs = ((outcome, s'), fs'))
    (hok : outcome.result = .ok result) {depth : Nat}
    (hdepth : (s.options.runRules s.plan).maxDepth = depth) :
    s.PathsHold files name path text fs depth result.output := by
  obtain ⟨unit, state, hunit, hreturns, -⟩ := run_ok h hok
  have hread := SourceUnit.read_name hunit
  have hwell := (expandUnit_carries carried_true _ _ text _ _ _ _ hread hreturns).2.1
  obtain ⟨sources, hsources, hexplained⟩ := Stage.explainedAt _ _ text _ _ _ _ hread hreturns
  have hlength := hexplained.length_eq
  rw [TracedText.length_trace] at hlength
  refine ⟨unit, sources, hunit, fun xs => ⟨fun hxs => hxs.unique hsources, ?_⟩, hlength, ?_⟩
  · rintro rfl
    exact hsources
  · intro e he
    refine ⟨hwell.nonempty e he, fun offset hcovers => ?_⟩
    obtain ⟨c, hc, htrace⟩ := hwell.getElem?_trace_of_covers he hcovers
    obtain ⟨hlt, hget⟩ := List.getElem?_eq_some_iff.mp htrace
    have hsource : offset < sources.length := by
      rw [hlength, ← TracedText.length_trace]
      exact hlt
    have hat := hexplained.get hsource hlt
    rw [List.get_eq_getElem, List.get_eq_getElem, hget] at hat
    cases ha : sources[offset] with
    | none =>
      rw [ha] at hat
      exact absurd hat (by simp [Stage.Explains])
    | some source =>
      rw [ha] at hat
      have hrooted : Rooted files.workDir depth ⟨name, none, path⟩
          (s.entry name path text unit fs).levels (s.entry name path text unit fs).stack := by
        rw [← hdepth]
        exact rooted_singleton
      obtain ⟨⟨inner, henters⟩, hthrough⟩ := Stage.Explains.readThrough rfl hrooted
        (.inl ⟨rfl, SourceUnit.name_of_read hunit⟩) hc hat
      exact ⟨source, inner, by rw [List.getElem?_eq_getElem hsource, ha], henters, hthrough⟩

/-- In every run that gives a result, each extent of the output holds the names of the copybooks
around the unit that its characters were read from, and its position names the file of that unit. -/
theorem inclusion_paths {σ : Type} (files : FileAccess (StateM σ)) (s s' : Session) (fs fs' : σ)
    (outcome : Outcome) (result : Preprocessed) (hok : outcome.result = .ok result) (depth : Nat)
    (hdepth : s.options.maxCopyDepth.count? = some (depth : Int)) :
    (∀ name text, (s.processText files name text).run fs = ((outcome, s'), fs') →
      s.PathsHold files name none text fs depth result.output) ∧
    ∀ path, (s.processFile files path).run fs = ((outcome, s'), fs') →
      ∃ text fs₁, (readText files path s.options.encoding).run fs = (.ok text, fs₁) ∧
        s.PathsHold files path.render (some path) text fs₁ depth result.output := by
  have hmax := maxDepth_runRules hdepth
  constructor
  · intro name text h
    exact run_pathsHold h hok hmax
  · intro path h
    obtain ⟨text, fs₁, hread, hrun⟩ := processFile_ok h hok
    exact ⟨text, fs₁, hread, run_pathsHold hrun hok hmax⟩

/-- The second line of a copybook comes out with the name of the copybook. -/
theorem inclusion_paths_paragraph :
    ∃ result : Preprocessed,
      freeSession.PathsHold paragraphFiles "main" none divisionText () 16 result.output ∧
      result.output.trace[30]? =
        some ('1', some ⟨⟨"B", 2, 1⟩, { commentEntry := true, inclusions := ["B"] }⟩) := by
  obtain ⟨unit, hread, hwritten⟩ := read_divisionText
  obtain ⟨⟨state, fs⟩, hreturns⟩ := division_expands hwritten
  have hrun := run_of_returns hread hreturns
  exact ⟨_, (inclusion_paths paragraphFiles freeSession _ () fs _ _ rfl 16 rfl).1 "main"
    divisionText hrun, prose_divisionProgress⟩

end Session

end CobolText
