import CobolText.Proofs.Stages

/-!
# Positions of a whole run

Every output character that no rule wrote stands where its position says: in the main source, or
in the text that was loaded for the copybook whose file the position names.  A character gets its
position when its line is read, and from then on it is only cut out, joined and put behind further
inclusions; what a rule writes is marked, and what is made up has no position.  The texts of
copybooks are looked up in the cache, which only grows.
-/

namespace CobolText

/-- Whether a character that no rule wrote stands where its origin says: in the text of the unit
that is expanded, or in the text of a copybook in the cache. -/
def Origin.Truthful (r : RunRules) (workDir : Path) (cache : BookCache) (name : String)
    (text : List Char) (o : Origin) (c : Char) : Prop :=
  o.marks.replaced = false →
    if o.marks.inclusions = [] then o.StandsIn r.dialect name text c
    else ∃ path book, cache.get? (Path.resolve workDir path) r.encoding = some book ∧
      o.StandsIn r.dialect path.render book c

/-- Whether all characters with an origin stand where it says. -/
def TruthfulTrace (r : RunRules) (workDir : Path) (cache : BookCache) (name : String)
    (text : List Char) (xs : List TracedChar) : Prop :=
  ∀ c o, (c, some o) ∈ xs → o.Truthful r workDir cache name text c

section Truthful

variable {r : RunRules} {workDir : Path} {cache cache' : BookCache} {name : String}
  {text : List Char}

lemma Origin.Truthful.mono {o : Origin} {c : Char} (h : o.Truthful r workDir cache name text c)
    (hcache : cache.Within cache') : o.Truthful r workDir cache' name text c := by
  intro ho
  have hstands := h ho
  split at hstands
  · rename_i hmain
    rw [if_pos hmain]
    exact hstands
  · rename_i hbook
    rw [if_neg hbook]
    obtain ⟨path, book, hget, hin⟩ := hstands
    exact ⟨path, book, hcache _ _ _ hget, hin⟩

/-- What stands in a copybook by itself stands in it when it is included. -/
lemma Origin.Truthful.included {o : Origin} {c : Char} {path : Path} {book : List Char}
    (h : o.Truthful r workDir cache path.render book c)
    (hget : cache.get? (Path.resolve workDir path) r.encoding = some book) (inclusion : String) :
    (o.within [inclusion]).Truthful r workDir cache name text c := by
  intro ho
  have hstands := h ho
  rw [if_neg (by simp [Origin.within])]
  split at hstands
  · exact ⟨path, book, hget, hstands⟩
  · exact hstands

end Truthful

/-- Expansion carries it that characters stand where they say. -/
lemma Expansion.carried_truthful {σ : Type} (files : FileAccess (StateM σ)) (r : RunRules) :
    Carried files r fun s w x => ∀ o, x.2 = some o →
      o.Truthful r files.workDir w.1.cache s.unit.name s.text x.1 where
  hereditary s w :=
    { made := by
        intro c o ho
        exact absurd ho (by simp)
      replaced := by
        intro d o _ c u hu hreplaced
        obtain rfl := Option.some.inj hu
        exact absurd hreplaced (by simp [Origin.replaced]) }
  grows hcache x hx o ho := (hx o ho).mono hcache
  own := by
    rintro s hread w ⟨c, _⟩ hx o rfl _
    obtain ⟨hin, -, hmain⟩ := (SourceUnit.standsIn_written hread).2 c o hx.mem
    rw [if_pos hmain]
    exact hin
  included := by
    rintro s b name path hbook w hcache ⟨c, u⟩ hx o ho
    obtain ⟨v, rfl, rfl⟩ := Option.map_eq_some_iff.mp ho
    have hv := hx v rfl
    rw [hbook.name_eq] at hv
    exact hv.included (hcache _ _ _ hbook.loaded) name

/-- Whether every output character that no rule wrote stands where a lookup says: in the main
source if it came through no copybook, and otherwise in the text that was loaded for the copybook
with the file name of the position. -/
def TracedText.PositionsHold (t : TracedText) (d : Dialect) (workDir : Path) (encoding : Value)
    (cache : BookCache) (name : String) (text : List Char) : Prop :=
  ∀ e ∈ t.extents, ∀ offset : Nat, e.covers offset = true → e.marks.replaced = false →
    ∃ (position : Position) (unit raw : List Char) (c : Char),
      t.map.positionAt? offset = some position ∧
      (if e.marks.inclusions = [] then position.file = name ∧ unit = text
        else ∃ path : Path, path.render = position.file ∧
          cache.get? (Path.resolve workDir path) encoding = some unit) ∧
      Text.lineAt? d.lineWidth unit position.line = some raw ∧
      t.text[offset]? = some c ∧
      Text.StandsAt raw position.column c

/-- In a well-formed map, what holds of the characters holds of the lookups. -/
lemma TracedText.positionsHold_of_truthful {t : TracedText} (ht : t.WellFormed) {r : RunRules}
    {workDir : Path} {cache : BookCache} {name : String} {text : List Char}
    (htruth : TruthfulTrace r workDir cache name text t.trace) :
    t.PositionsHold r.dialect workDir r.encoding cache name text := by
  intro e he offset hcovers hreplaced
  obtain ⟨c, hchar, htrace⟩ := ht.getElem?_trace_of_covers he hcovers
  have hposition : t.map.positionAt? offset = some (e.positionAt offset) := by
    rw [OriginMap.positionAt?, ht.extentAt?_eq_some he hcovers]
    rfl
  have hstands := htruth _ _ (List.mem_of_getElem? htrace) hreplaced
  split at hstands
  · rename_i hmain
    obtain ⟨hfile, raw, hraw, hat⟩ := hstands
    refine ⟨e.positionAt offset, text, raw, c, hposition, ?_, hraw, hchar, hat⟩
    rw [if_pos (show e.marks.inclusions = [] from hmain)]
    exact ⟨hfile, rfl⟩
  · rename_i hbook
    obtain ⟨path, book, hget, hfile, raw, hraw, hat⟩ := hstands
    refine ⟨e.positionAt offset, book, raw, c, hposition, ?_, hraw, hchar, hat⟩
    rw [if_neg (show ¬e.marks.inclusions = [] from hbook)]
    exact ⟨path, hfile.symm, hget⟩

namespace Session

variable {σ : Type} {files : FileAccess (StateM σ)} {s s' : Session} {fs fs' : σ}

lemma run_positionsHold {name : String} {path : Option Path} {text : List Char} {outcome : Outcome}
    {result : Preprocessed} (h : (s.run files name path text).run fs = ((outcome, s'), fs'))
    (hok : outcome.result = .ok result) :
    result.output.PositionsHold s.options.dialect files.workDir s.options.encoding s'.cache name
      text := by
  obtain ⟨unit, state, hunit, hreturns, rfl⟩ := run_ok h hok
  have hname := SourceUnit.name_of_read hunit
  have hread := hunit
  rw [← hname] at hread ⊢
  obtain ⟨-, hwell, hholds⟩ := Expansion.expandUnit_carries (Expansion.carried_truthful files _) _
    _ text unit _ _ _ hread hreturns
  exact TracedText.positionsHold_of_truthful hwell fun c o hx => hholds (c, some o) hx o rfl

/-- Position fidelity of whole runs, whatever the files do meanwhile: if a text or a file is
preprocessed with a result, every output character that no rule wrote stands where a lookup
says. -/
theorem positions_hold {σ : Type} (files : FileAccess (StateM σ)) (s s' : Session) (fs fs' : σ)
    (outcome : Outcome) (result : Preprocessed) (hok : outcome.result = .ok result) :
    (∀ name text, (s.processText files name text).run fs = ((outcome, s'), fs') →
      result.output.PositionsHold s.options.dialect files.workDir s.options.encoding s'.cache name
        text) ∧
    ∀ path, (s.processFile files path).run fs = ((outcome, s'), fs') →
      ∃ text fs₁, (readText files path s.options.encoding).run fs = (.ok text, fs₁) ∧
        result.output.PositionsHold s.options.dialect files.workDir s.options.encoding s'.cache
          path.render text := by
  constructor
  · intro name text h
    exact run_positionsHold h hok
  · intro path h
    obtain ⟨text, fs₁, hread, hrun⟩ := processFile_ok h hok
    exact ⟨text, fs₁, hread, run_positionsHold hrun hok⟩

/-- A session in fixed format with narrow lines. -/
def sampleSession : Session where
  options := { Options.standard with
    dialect := { Dialect.ansi85 with rightMargin := .number 11 }
    encoding := .text "latin-1" }
  plan := Expansion.sampleRules.plan
  cache := BookCache.empty

/-- A literal that goes on in the next line. -/
def sampleText : List Char :=
  [' ', ' ', ' ', ' ', ' ', ' ', ' ', '\x27', '1', '\n',
    ' ', ' ', ' ', ' ', ' ', ' ', '-', '\x27', '2', '\x27']

set_option maxRecDepth 20000 in
/-- The literal is filled up with two spaces, which stand past the end of its first line. -/
theorem positions_hold_sample :
    ∃ (outcome : Outcome) (s' : Session) (result : Preprocessed), outcome.result = .ok result ∧
      result.output.text =
        [' ', ' ', ' ', ' ', ' ', ' ', ' ', '\x27', '1', ' ', ' ', '2', '\x27', '\n'] ∧
      result.output.PositionsHold sampleSession.options.dialect Expansion.sampleFiles.workDir
        sampleSession.options.encoding s'.cache "main" sampleText := by
  have hok : ((sampleSession.processText Expansion.sampleFiles "main" sampleText).run
      ()).1.1.result.toOption.map (fun p => p.output.text) =
        some [' ', ' ', ' ', ' ', ' ', ' ', ' ', '\x27', '1', ' ', ' ', '2', '\x27', '\n'] := by
    cbv
  rcases hrun : (sampleSession.processText Expansion.sampleFiles "main" sampleText).run () with
    ⟨⟨outcome, s'⟩, fs⟩
  rw [hrun] at hok
  cases hresult : outcome.result with
  | error fault => simp [hresult, Except.toOption] at hok
  | ok result =>
    refine ⟨outcome, s', result, hresult, ?_, ?_⟩
    · simpa [hresult, Except.toOption] using hok
    · exact (positions_hold Expansion.sampleFiles sampleSession s' () fs outcome result hresult).1
        "main" sampleText hrun

end Session

end CobolText
