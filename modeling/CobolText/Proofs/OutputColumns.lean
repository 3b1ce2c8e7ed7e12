import CobolText.CommandLine.Locate
import CobolText.Proofs.BuiltMaps
import CobolText.Proofs.OutputLines
import CobolText.Proofs.TextAfterCopy

/-!
# Lookup by line and column

A column of an output line is looked up by adding it to the offset at which the line starts.  For a
column of the line this gives the character that stands there.  A column is not held against the
length of its line, though: one that the line does not have leads to a character of another line, or
out of the text.  Then a position is told exactly if that character has an origin.
-/

namespace CobolText

namespace TracedText

open Expansion

variable {t : TracedText} {n start : Nat} {line : List Char} {column : Int}

/-- The character at `k` stands in a column of output line `n`. -/
def StandsAt (t : TracedText) (n : Nat) (column : Int) (k : Nat) : Prop :=
  t.OnLine n k ∧ (columnsBefore t.text k : Int) + 1 = column

section Columns

/-- No column stands before the first character of a line. -/
lemma IsLine.columnsBefore_start (h : t.IsLine n start line) (hon : t.OnLine n start) :
    columnsBefore t.text start = 0 := by
  cases start with
  | zero => rfl
  | succ s =>
    have hlt : s < t.text.length := by
      have := hon.1
      omega
    have htake : t.text.take (s + 1) = t.text.take s ++ [t.text[s]] := by
      rw [List.take_add_one, List.getElem?_eq_getElem hlt]
      rfl
    -- The character before the line is on another line, so it is a line end.
    have hbefore : ¬t.OnLine n s := by
      intro hs
      have := (h.onLine s).mp hs
      omega
    have hnewline : t.text[s] = '\n' := by
      by_contra hne
      apply hbefore
      refine ⟨hlt, ?_⟩
      rw [← hon.2, htake, List.count_append, List.count_singleton, if_neg (by simpa using hne)]
    rw [columnsBefore, htake, hnewline, List.reverse_append]
    rfl

lemma IsLine.columnsBefore_eq (h : t.IsLine n start line) {k : Nat} (hk : t.OnLine n k) :
    start + columnsBefore t.text k = k := by
  obtain ⟨hle, hlt⟩ := (h.onLine k).mp hk
  have hstart : t.OnLine n start := (h.onLine start).mpr ⟨le_rfl, by omega⟩
  obtain ⟨i, rfl⟩ := Nat.exists_eq_add_of_le hle
  have hline : '\n' ∉ (t.text.drop start).take i := by
    have hcount := hk.2
    rw [List.take_add, List.count_append] at hcount
    have := hstart.2
    rw [← List.count_eq_zero]
    omega
  rw [columnsBefore_add hline (by have := hk.1; omega), h.columnsBefore_start hstart]
  omega

/-- The offset of a column is that of the character in it. -/
lemma IsLine.standsAt_iff (h : t.IsLine n start line) {k : Nat} :
    t.StandsAt n column k ↔ t.OnLine n k ∧ (start : Int) + column - 1 = k := by
  refine and_congr_right fun hk => ?_
  have := h.columnsBefore_eq hk
  omega

end Columns

section Lookup

lemma exists_isLine (hfirst : 1 ≤ n) (hlast : n ≤ t.text.count '\n' + 1) :
    ∃ start line, t.IsLine n start line ∧ (lineStarts t.text)[n - 1]? = some start := by
  have hlt : n - 1 < (placedLines t.text).length := by
    rw [placedLines, length_placeLines, length_linesOf]
    omega
  have hget := List.getElem?_eq_getElem hlt
  have hline := isLine_of_getElem?_placedLines hget
  rw [Nat.sub_add_cancel hfirst] at hline
  exact ⟨_, _, hline, by rw [lineStarts, List.getElem?_map, hget]; rfl⟩

lemma offsetOf_eq (hfirst : 1 ≤ n) (hstart : (lineStarts t.text)[n - 1]? = some start)
    (column : Int) : t.offsetOf n column = .ok (start + column - 1) := by
  have hindex : ((n : Int) - 1).toNat = n - 1 := by
    omega
  unfold offsetOf
  dsimp only
  rw [if_pos (by omega), hindex, hstart]

/-- Only lines of the text are looked up. -/
lemma offsetOf_eq_ok {line offset : Int} (h : t.offsetOf line column = .ok offset) :
    ∃ n : Nat, line = n ∧ 1 ≤ n ∧ n ≤ t.text.count '\n' + 1 := by
  unfold offsetOf at h
  dsimp only at h
  split at h
  · rename_i hline
    cases hget : (lineStarts t.text)[(line - 1).toNat]? with
    | none =>
      rw [hget] at h
      cases h
    | some start =>
      have hlt := (List.getElem?_eq_some_iff.mp hget).1
      rw [lineStarts, List.length_map, placedLines, length_placeLines, length_linesOf] at hlt
      exact ⟨line.toNat, by omega, by omega, by omega⟩
  · cases h

/-- What is looked up is what stands at the offset. -/
lemma positionOf_eq_ok {line : Int} {found : Option Position}
    (h : t.positionOf line column = .ok found) :
    ∃ offset, t.offsetOf line column = .ok offset ∧ t.map.positionAt? offset = found := by
  unfold positionOf at h
  cases hoffset : t.offsetOf line column with
  | error noLine =>
    rw [hoffset] at h
    cases h
  | ok offset =>
    rw [hoffset] at h
    exact ⟨offset, rfl, Except.ok.inj h⟩

/-- A position is only told for a character of the text. -/
lemma WellFormed.exists_onLine (ht : t.WellFormed) {offset : Int} {p : Position}
    (h : t.map.positionAt? offset = some p) : ∃ m k, offset = (k : Nat) ∧ t.OnLine m k := by
  obtain ⟨e, he, -⟩ := Option.map_eq_some_iff.mp h
  obtain ⟨hmem, hcovers⟩ := ht.extentAt?_eq_some_iff.mp he
  have hproper := ht.proper e hmem
  have hbounds := Extent.covers_iff.mp hcovers
  exact ⟨_, offset.toNat, by omega, by omega, rfl⟩

/-- How a column of output line `n` is looked up, at an offset that is found by adding. -/
structure LooksUp (t : TracedText) (n : Nat) (column offset : Int) : Prop where
  offsetOf_eq : t.offsetOf n column = .ok offset
  added : ∃ start line, t.IsLine n start line ∧ offset = start + column - 1
  /-- A column that the line has gives the origin of the character in it. -/
  inside : ∀ k, t.StandsAt n column k →
    offset = k ∧ t.positionOf n column = .ok (t.map.positionAt? k)
  /-- A column that the line does not have gives the origin of a character of another line, if the
  offset is that of a character with an origin, and none otherwise. -/
  outside : (¬∃ k, t.StandsAt n column k) → ∀ p, t.positionOf n column = .ok (some p) ↔
    ∃ m k, m ≠ n ∧ t.OnLine m k ∧ offset = (k : Nat) ∧ t.map.positionAt? k = some p

lemma WellFormed.looksUp (ht : t.WellFormed) (hfirst : 1 ≤ n) (hlast : n ≤ t.text.count '\n' + 1)
    (column : Int) : ∃ offset, t.LooksUp n column offset := by
  obtain ⟨start, line, hline, hstart⟩ := exists_isLine hfirst hlast
  have hoffset := offsetOf_eq hfirst hstart column
  have hposition : t.positionOf n column = .ok (t.map.positionAt? (start + column - 1)) := by
    rw [positionOf, hoffset]
    rfl
  refine ⟨_, hoffset, ⟨start, line, hline, rfl⟩, fun k hk => ?_, fun hout p => ?_⟩
  · have heq := (hline.standsAt_iff.mp hk).2
    exact ⟨heq, by rw [hposition, heq]⟩
  · rw [hposition, Except.ok.injEq]
    constructor
    · intro hp
      obtain ⟨m, k, hk, hon⟩ := ht.exists_onLine hp
      refine ⟨m, k, ?_, hon, hk, by rw [← hk, hp]⟩
      rintro rfl
      exact hout ⟨k, hline.standsAt_iff.mpr ⟨hon, hk⟩⟩
    · rintro ⟨m, k, -, -, hk, hp⟩
      rw [hk, hp]

/-- A position that is told is that of a character of the line itself exactly if the character
stands in the column. -/
lemma WellFormed.exists_told (ht : t.WellFormed) {offset : Int} {p : Position}
    (h : t.LooksUp n column offset) (hp : t.positionOf n column = .ok (some p)) :
    ∃ m k, t.OnLine m k ∧ offset = (k : Nat) ∧ t.map.positionAt? k = some p ∧
      (m = n ↔ t.StandsAt n column k) := by
  obtain ⟨offset', hoffset, hat⟩ := positionOf_eq_ok hp
  rw [h.offsetOf_eq] at hoffset
  obtain rfl := Except.ok.inj hoffset
  obtain ⟨m, k, rfl, hon⟩ := ht.exists_onLine hat
  obtain ⟨start, line, hline, hadded⟩ := h.added
  refine ⟨m, k, hon, rfl, hat, ?_⟩
  rw [hline.standsAt_iff]
  constructor
  · rintro rfl
    exact ⟨hon, hadded.symm⟩
  · rintro ⟨hon', -⟩
    rw [← hon.2, ← hon'.2]

end Lookup

end TracedText

namespace CommandLine

variable {σ : Type} {files : FileStore (StateM σ)} {fs fs' : σ} {transcript : Transcript}

/-- Whether a run under the options of a request for an origin ends in some way. -/
def Ran (files : FileStore (StateM σ)) (r : LocateRequest) (outcome : Outcome) : Prop :=
  ∃ (config : Config) (session s' : Session) (fs fs' : σ),
    config.options r.general.choices >>= Session.start = .ok session ∧
    (session.processFile files.toFileAccess r.source).run fs = ((outcome, s'), fs')

/-- Whether a request for an origin was answered with the position `p`, looked up at `offset` in the
output of a run. -/
structure Tells (files : FileStore (StateM σ)) (r : LocateRequest) (transcript : Transcript)
    (result : Preprocessed) (n : Nat) (offset : Int) (p : Position) : Prop where
  ran : ∃ outcome, Ran files r outcome ∧ outcome.result = .ok result
  line_eq : r.line = some n
  looksUp : result.output.LooksUp n r.column offset
  position_eq : result.output.positionOf n r.column = .ok (some p)
  printed : transcript.events.getLast? = some (.printed (p.render ++ "\n"))

/-- A place is only told for a position that is found. -/
lemma placeTranscript_ending {result : Preprocessed} {line : Option Int} {column : Int}
    (h : (placeTranscript result line column).ending = .ok 0) :
    ∃ l p, line = some l ∧ result.output.positionOf l column = .ok (some p) ∧
      (placeTranscript result line column).events = [.printed (p.render ++ "\n")] := by
  unfold placeTranscript at h ⊢
  cases line with
  | none => cases h
  | some l =>
    dsimp only at h ⊢
    cases hposition : result.output.positionOf l column with
    | error noLine =>
      rw [hposition] at h
      cases h
    | ok found =>
      cases found with
      | none =>
        rw [hposition] at h
        cases h
      | some p => exact ⟨l, p, rfl, hposition, rfl⟩

lemma Ran.wellFormed {r : LocateRequest} {outcome : Outcome} {result : Preprocessed}
    (h : Ran files r outcome) (hresult : outcome.result = .ok result) :
    result.output.WellFormed := by
  obtain ⟨config, session, s', fs, fs', -, hprocess⟩ := h
  obtain ⟨text, fs₁, -, hrun⟩ := Session.processFile_ok hprocess hresult
  obtain ⟨unit, -, -, hwell, -⟩ := Session.run_wellMapped hrun hresult
  exact hwell

/-- A run without a result is not answered with a position. -/
lemma ending_of_error {fault : Fault} {events : List Event}
    (h : (if fault.isReported = true then Transcript.exit events 1
      else (Transcript.abort fault).after events).ending = .ok 0) : False := by
  split at h
  · cases h
  · cases h

/-- A request that ends with code 0 is answered from the result of a run. -/
lemma exists_ran {r : LocateRequest} (h : (r.run files).run fs = (transcript, fs'))
    (hending : transcript.ending = .ok 0) :
    ∃ outcome result, Ran files r outcome ∧ outcome.result = .ok result ∧
      transcript = (placeTranscript result r.line r.column).after
        (outcomeEvents r.source outcome) := by
  unfold LocateRequest.run at h
  obtain ⟨there, fs₁, -, h⟩ := access_bind_iff.mp h
  cases there with
  | false =>
    obtain ⟨rfl, -⟩ := access_pure_iff.mp h
    cases hending
  | true =>
    obtain ⟨loaded, fs₂, -, h⟩ := access_bind_iff.mp h
    cases loaded with
    | error fault =>
      obtain ⟨rfl, -⟩ := access_pure_iff.mp h
      cases hending
    | ok config =>
      dsimp only at h
      cases hsession : config.options r.general.choices >>= Session.start with
      | error fault =>
        rw [hsession] at h
        obtain ⟨rfl, -⟩ := access_pure_iff.mp h
        exact (ending_of_error hending).elim
      | ok session =>
        rw [hsession] at h
        obtain ⟨outcome, fs₃, houtcome, h⟩ := access_bind_iff.mp h
        rcases hprocess : (session.processFile files.toFileAccess r.source).run fs₂ with
          ⟨⟨ended, s'⟩, fs₄⟩
        rw [StateT.run_map, hprocess] at houtcome
        obtain ⟨rfl, -⟩ := Prod.mk.inj houtcome
        have hran : Ran files r ended := ⟨config, session, s', fs₂, fs₄, hsession, hprocess⟩
        dsimp only at h
        cases hresult : ended.result with
        | error fault =>
          simp only [hresult] at h
          obtain ⟨rfl, -⟩ := access_pure_iff.mp h
          exact (ending_of_error hending).elim
        | ok result =>
          simp only [hresult] at h
          exact ⟨ended, result, hran, hresult, (access_pure_iff.mp h).1⟩

lemma tells_of_run {r : LocateRequest} (h : (r.run files).run fs = (transcript, fs'))
    (hending : transcript.ending = .ok 0) :
    ∃ result n offset p, Tells files r transcript result n offset p := by
  obtain ⟨outcome, result, hran, hresult, rfl⟩ := exists_ran h hending
  obtain ⟨line, p, hline, hposition, hevents⟩ := placeTranscript_ending hending
  obtain ⟨offset, hoffset, -⟩ := TracedText.positionOf_eq_ok hposition
  obtain ⟨n, rfl, hfirst, hlast⟩ := TracedText.offsetOf_eq_ok hoffset
  obtain ⟨offset, hlooks⟩ := (hran.wellFormed hresult).looksUp hfirst hlast r.column
  refine ⟨result, n, offset, p, ⟨outcome, hran, hresult⟩, hline, hlooks, hposition, ?_⟩
  rw [Transcript.after, hevents, List.getLast?_append]
  rfl

/-- A column is looked up by adding it to the start of its line, in every text with a well-formed
map, and the command that tells an origin tells what is looked up.  So the position that it prints
is that of a character on another line of the output exactly if the line does not have the
column. -/
theorem lookup_by_column (t : TracedText) (ht : t.WellFormed) (n : Nat) (column : Int)
    (hfirst : 1 ≤ n) (hlast : n ≤ t.text.count '\n' + 1) :
    (∃ offset, t.LooksUp n column offset) ∧
    ∀ {σ : Type} (files : FileStore (StateM σ)) (r : LocateRequest) (fs fs' : σ)
      (transcript : Transcript), (r.run files).run fs = (transcript, fs') →
      transcript.ending = .ok 0 →
      ∃ result l offset p m k, Tells files r transcript result l offset p ∧
        result.output.OnLine m k ∧ offset = (k : Nat) ∧ result.output.map.positionAt? k = some p ∧
        (m = l ↔ result.output.StandsAt l r.column k) := by
  refine ⟨ht.looksUp hfirst hlast column, ?_⟩
  intro σ files r fs fs' transcript hrun hending
  obtain ⟨result, l, offset, p, htells⟩ := tells_of_run hrun hending
  obtain ⟨outcome, hran, hresult⟩ := htells.ran
  obtain ⟨m, k, htold⟩ :=
    (hran.wellFormed hresult).exists_told htells.looksUp htells.position_eq
  exact ⟨result, l, offset, p, m, k, htells, htold⟩

section Sample

/-- Files that all hold one letter. -/
def letterFiles : FileStore (StateM Unit) where
  workDir := ⟨1, []⟩
  isFile _ := pure true
  read _ := pure (.ok [65])
  isDirectory _ := pure false
  makeDirectory _ := pure (.error .missing)
  write _ _ := pure (.error .missing)

/-- A request for two columns in front of the second line. -/
def strayRequest : LocateRequest where
  general := ⟨{ Choices.blank with format := .text "free" }, none, false, false⟩
  source := ⟨0, ["X"]⟩
  line := some 2
  column := -1

set_option maxRecDepth 20000 in
lemma run_strayRequest :
    (strayRequest.run letterFiles).run () = (⟨[.printed "X:1:1\n"], .ok 0⟩, ()) := by
  cbv

end Sample

/-- Column 7 of a line of four characters is a character of the third line, and what is told for the
second line of an output is the origin of the letter on the first one. -/
theorem lookup_by_column_stray :
    (TracedText.sampleLines.positionOf 1 7 = .ok (some ⟨"book", 7, 12⟩) ∧
      ¬∃ k, TracedText.sampleLines.StandsAt 1 7 k) ∧
    ∃ result n offset p m k,
      Tells letterFiles strayRequest ⟨[.printed "X:1:1\n"], .ok 0⟩ result n offset p ∧
        result.output.OnLine m k ∧ result.output.map.positionAt? k = some p ∧ m ≠ n := by
  obtain ⟨⟨offset, hlooks⟩, hlocate⟩ := lookup_by_column TracedText.sampleLines
    TracedText.wellFormed_sampleLines 1 7 le_rfl (by omega)
  have hposition : TracedText.sampleLines.positionOf 1 7 = .ok (some ⟨"book", 7, 12⟩) := by
    cbv
  have hoffset : TracedText.sampleLines.offsetOf 1 7 = .ok 6 := by
    cbv
  have hstray : ¬∃ k, TracedText.sampleLines.StandsAt 1 7 k := by
    rintro ⟨k, hk⟩
    obtain ⟨rfl, -⟩ := hlooks.inside k hk
    obtain rfl : k = 6 := by
      have hsix := Except.ok.inj (hlooks.offsetOf_eq.symm.trans hoffset)
      omega
    exact absurd hk.1.2 (by cbv)
  obtain ⟨result, n, offset, p, m, k, htells, hon, -, hat, hline⟩ :=
    hlocate letterFiles strayRequest () () _ run_strayRequest rfl
  refine ⟨⟨hposition, hstray⟩, result, n, offset, p, m, k, htells, hon, hat, ?_⟩
  intro hsame
  -- No character stands in front of the first column.
  have hcolumn := (hline.mp hsame).2
  change _ = (-1 : Int) at hcolumn
  omega

end CommandLine

end CobolText
