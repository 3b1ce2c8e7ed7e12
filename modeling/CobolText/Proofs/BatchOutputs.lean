import CobolText.CommandLine.Execute
import CobolText.Proofs.FileTrees
import CobolText.Proofs.SharedCache

/-!
# The outputs of a batch

A batch is written into one directory, where the file for a source is named after the stem of the
source alone.  So of the sources with one stem the last one keeps its text, and the texts of the
others are lost unless they are the same.
-/

namespace CobolText

namespace Encoding

lemma toList_loop (bytes : ByteArray) (i : Nat) (done : List UInt8) :
    ByteArray.toList.loop bytes i done = done.reverse ++ bytes.data.toList.drop i := by
  induction i, done using ByteArray.toList.loop.induct bytes with
  | case1 i done h ih =>
    have hlength : i < bytes.data.toList.length := by simpa using h
    have hget : bytes.get! i = bytes.data.toList[i] := by
      rw [Array.getElem_toList]
      exact getElem!_pos bytes.data i h
    rw [ByteArray.toList.loop, if_pos h, ih, List.drop_eq_getElem_cons hlength, hget]
    simp only [List.reverse_cons, List.append_assoc, List.singleton_append]
  | case2 i done h =>
    rw [ByteArray.toList.loop, if_neg h, List.drop_of_length_le (by simpa using h), List.append_nil]

lemma encodeUtf8_inj {s s' : List Char} :
    encodeUtf8 s = encodeUtf8 s' ↔ s = s' := by
  constructor
  · intro h
    simp only [encodeUtf8, ByteArray.toList, toList_loop, List.reverse_nil,
      List.nil_append, List.drop_zero, Array.toList_inj] at h
    exact String.ofList_injective (String.toByteArray_inj.mp (ByteArray.ext h))
  · rintro rfl
    rfl

end Encoding

namespace CommandLine

variable {t t₁ t' : FileTree} {workDir d : List String} {dir : Path}
  {clock : Clock (StateM FileTree)} {writer : Option (Except Fault ReportWriter)}

section Places

def textPlace (d : List String) (stem : String) : List String :=
  d ++ [stem ++ ".pre.cbl"]

def reportPlace (d : List String) (stem : String) : List String :=
  d ++ [stem ++ ".map.json"]

lemma textPlace_inj {stem stem' : String} :
    textPlace d stem = textPlace d stem' ↔ stem = stem' := by
  simp [textPlace]

lemma textPlace_ne_reportPlace (stem stem' : String) : textPlace d stem ≠ reportPlace d stem' := by
  intro h
  have hends : (stem ++ ".pre.cbl").toList.getLast? = (stem' ++ ".map.json").toList.getLast? := by
    simp only [textPlace, reportPlace, List.append_cancel_left_eq, List.cons.injEq] at h
    rw [h.1]
  simp [String.toList_append] at hends

end Places

/-- Whether a clock leaves the files alone. -/
structure Clock.Apart (clock : Clock (StateM FileTree)) : Prop where
  now : ∀ t, (clock.now.run t).2 = t
  elapsed : ∀ t, (clock.elapsed.run t).2 = t

lemma Clock.Apart.run_now (h : clock.Apart) : clock.now.run t = ((clock.now.run t).1, t) :=
  Prod.ext rfl (h.now t)

lemma Clock.Apart.run_elapsed (h : clock.Apart) :
    clock.elapsed.run t = ((clock.elapsed.run t).1, t) :=
  Prod.ext rfl (h.elapsed t)

lemma run_writeFile (workDir : List String) (hopens : t.Opens dir d) {name : String}
    (hname : Path.IsName name) (text : List Char) :
    (writeFile (FileTree.store workDir) (dir.child name) text).run t =
      if t.node? (d ++ [name]) = some .directory then
        (.error (.unwritable (dir.child name) .isDirectory), t)
      else (.ok (), t.put (d ++ [name]) (.file (Encoding.encodeUtf8 text))) := by
  have hrun := FileTree.run_write t workDir (dir.child name) (Encoding.encodeUtf8 text)
  rw [hopens.write_child hname] at hrun
  by_cases hplace : t.node? (d ++ [name]) = some .directory
  · rw [if_pos hplace] at hrun ⊢
    exact access_bind_iff.mpr ⟨_, _, hrun, rfl⟩
  · rw [if_neg hplace] at hrun ⊢
    exact access_bind_iff.mpr ⟨_, _, hrun, rfl⟩

lemma run_writeText (workDir : List String) (hopens : t.Opens dir d) {source : Path}
    (hstem : '/' ∉ source.stem.toList) (text : List Char) :
    (writeFile (FileTree.store workDir) (textPath dir source) text).run t =
      if t.node? (textPlace d source.stem) = some .directory then
        (.error (.unwritable (textPath dir source) .isDirectory), t)
      else (.ok (), t.put (textPlace d source.stem) (.file (Encoding.encodeUtf8 text))) :=
  run_writeFile workDir hopens (Path.isName_append hstem (by decide) (by decide)) text

lemma run_writeReport (workDir : List String) (hopens : t.Opens dir d) {source : Path}
    (hstem : '/' ∉ source.stem.toList) (text : List Char) :
    (writeFile (FileTree.store workDir) (reportPath dir source) text).run t =
      if t.node? (reportPlace d source.stem) = some .directory then
        (.error (.unwritable (reportPath dir source) .isDirectory), t)
      else (.ok (), t.put (reportPlace d source.stem) (.file (Encoding.encodeUtf8 text))) :=
  run_writeFile workDir hopens (Path.isName_append hstem (by decide) (by decide)) text

/-- Whether nothing is in the way of the files for a source. -/
structure Writable (t : FileTree) (d : List String) (writer : Option (Except Fault ReportWriter))
    (stem : String) : Prop where
  text : t.node? (textPlace d stem) ≠ some .directory
  report : ∀ w ∈ writer, (∃ maker, w = .ok maker) ∧ t.node? (reportPlace d stem) ≠ some .directory

/-- Whether a directory has the files for one more source, the text at its place, and no text of
another one has changed. -/
structure Wrote (t t' : FileTree) (dir : Path) (d : List String) (stem : String)
    (text : List Char) : Prop where
  opens : t'.Opens dir d
  text_eq : t'.node? (textPlace d stem) = some (.file (Encoding.encodeUtf8 text))
  others : ∀ other ≠ stem, t'.node? (textPlace d other) = t.node? (textPlace d other)
  directories : ∀ place, t'.node? place = some .directory → t.node? place = some .directory

lemma Writable.mono {stem : String} (h : Writable t d writer stem)
    (hdirectories : ∀ place, t'.node? place = some .directory → t.node? place = some .directory) :
    Writable t' d writer stem :=
  ⟨fun hnode => h.text (hdirectories _ hnode),
    fun w hw => ⟨(h.report w hw).1, fun hnode => (h.report w hw).2 (hdirectories _ hnode)⟩⟩

section Result

variable {stem : String}

lemma wrote_put (hopens : t.Opens dir d) (h : t.node? (textPlace d stem) ≠ some .directory)
    (text : List Char) :
    Wrote t (t.put (textPlace d stem) (.file (Encoding.encodeUtf8 text))) dir d stem text where
  opens := hopens.put h
  text_eq := FileTree.node?_put_self h
  others _ hother := FileTree.node?_put_of_ne (mt textPlace_inj.mp hother)
  directories _ := FileTree.directory_of_put h

lemma Wrote.put_report {text : List Char} (h : Wrote t t' dir d stem text) {other : String}
    (hplace : t'.node? (reportPlace d other) ≠ some .directory) (bytes : List UInt8) :
    Wrote t (t'.put (reportPlace d other) (.file bytes)) dir d stem text where
  opens := h.opens.put hplace
  text_eq := by
    rw [FileTree.node?_put_of_ne (textPlace_ne_reportPlace stem other), h.text_eq]
  others stem' hother := by
    rw [FileTree.node?_put_of_ne (textPlace_ne_reportPlace stem' other), h.others stem' hother]
  directories place hnode := h.directories place (FileTree.directory_of_put hplace hnode)

variable {source : Path}

lemma run_writeResult (workDir : List String) (hclock : clock.Apart) (hopens : t.Opens dir d)
    (hstem : '/' ∉ source.stem.toList) (h : Writable t d writer source.stem)
    (result : Preprocessed) :
    ∃ paths t', (writeResult (FileTree.store workDir) clock writer dir source result).run t =
        (.ok paths, t') ∧ textPath dir source ∈ paths ∧
      Wrote t t' dir d source.stem result.output.text := by
  have htext := run_writeText workDir hopens hstem result.output.text
  rw [if_neg h.text] at htext
  have hwrote := wrote_put hopens h.text result.output.text
  cases writer with
  | none => exact ⟨_, _, access_bind_iff.mpr ⟨_, _, htext, rfl⟩, List.mem_singleton.mpr rfl, hwrote⟩
  | some w =>
    obtain ⟨⟨maker, rfl⟩, hplace⟩ := h.report w rfl
    have hfree := fun hnode => hplace (hwrote.directories _ hnode)
    have hreport := fun text => run_writeReport workDir hwrote.opens hstem text
    simp only [if_neg hfree] at hreport
    refine ⟨_, _, access_bind_iff.mpr ⟨_, _, htext, access_bind_iff.mpr ⟨_, _, hclock.run_now,
      access_bind_iff.mpr ⟨_, _, hreport _, rfl⟩⟩⟩, List.mem_cons_self, hwrote.put_report hfree _⟩

lemma writable_of_writeResult (hclock : clock.Apart) (hopens : t.Opens dir d)
    (hstem : '/' ∉ source.stem.toList) {result : Preprocessed} {paths : List Path}
    (h : (writeResult (FileTree.store workDir) clock writer dir source result).run t =
      (.ok paths, t')) : Writable t d writer source.stem := by
  obtain ⟨first, t₁, hfirst, h⟩ := access_bind_iff.mp h
  rw [run_writeText workDir hopens hstem] at hfirst
  by_cases hplace : t.node? (textPlace d source.stem) = some .directory
  · rw [if_pos hplace] at hfirst
    obtain ⟨rfl, rfl⟩ := Prod.mk.inj hfirst
    cases (access_pure_iff.mp h).1
  · rw [if_neg hplace] at hfirst
    obtain ⟨rfl, rfl⟩ := Prod.mk.inj hfirst
    refine ⟨hplace, fun w hw => ?_⟩
    obtain rfl := Option.mem_def.mp hw
    cases w with
    | error fault => cases (access_pure_iff.mp h).1
    | ok maker =>
      refine ⟨⟨maker, rfl⟩, fun hdirectory => ?_⟩
      obtain ⟨now, t₂, hnow, h⟩ := access_bind_iff.mp h
      rw [hclock.run_now] at hnow
      obtain ⟨-, rfl⟩ := Prod.mk.inj hnow
      obtain ⟨second, t₃, hsecond, h⟩ := access_bind_iff.mp h
      rw [run_writeReport workDir (hopens.put hplace) hstem,
        FileTree.node?_put_of_ne (textPlace_ne_reportPlace _ _).symm, if_pos hdirectory] at hsecond
      obtain ⟨rfl, rfl⟩ := Prod.mk.inj hsecond
      cases (access_pure_iff.mp h).1

end Result

section Results

/-- The result of a batch that is written last under a stem. -/
def lastUnder (stem : String) (done : List (Path × Preprocessed)) : Option (Path × Preprocessed) :=
  (done.filter fun r => r.1.stem == stem).getLast?

lemma lastUnder_cons (stem : String) (r : Path × Preprocessed) (done : List (Path × Preprocessed)) :
    lastUnder stem (r :: done) =
      (lastUnder stem done).or (if r.1.stem = stem then some r else none) := by
  unfold lastUnder
  rw [List.filter_cons]
  by_cases hsame : r.1.stem = stem
  · rw [if_pos (beq_iff_eq.mpr hsame), List.getLast?_cons, if_pos hsame]
    cases (done.filter fun r => r.1.stem == stem).getLast? <;> rfl
  · rw [if_neg (mt beq_iff_eq.mp hsame), if_neg hsame, Option.or_none]

lemma exists_lastUnder {r : Path × Preprocessed} {done : List (Path × Preprocessed)}
    (h : r ∈ done) :
    ∃ last ∈ done, last.1.stem = r.1.stem ∧ lastUnder r.1.stem done = some last := by
  have hmem : r ∈ done.filter fun r' => r'.1.stem == r.1.stem :=
    List.mem_filter.mpr ⟨h, beq_self_eq_true _⟩
  cases hlast : (done.filter fun r' => r'.1.stem == r.1.stem).getLast? with
  | none => exact absurd hmem (List.getLast?_eq_none_iff.mp hlast ▸ List.not_mem_nil)
  | some last =>
    obtain ⟨hdone, hstem⟩ := List.mem_filter.mp (List.mem_of_getLast? hlast)
    exact ⟨last, hdone, beq_iff_eq.mp hstem, hlast⟩

/-- Every result of a batch is written and told, and the last one under a stem stays. -/
lemma run_writeAll (workDir : List String) (hclock : clock.Apart) (hopens : t.Opens dir d)
    (quiet : Bool) {done : List (Path × Preprocessed)}
    (hdone : ∀ r ∈ done, '/' ∉ r.1.stem.toList ∧ Writable t d writer r.1.stem) :
    ∃ events t', (writeAll (FileTree.store workDir) clock writer quiet dir done).run t =
        ((events, none), t') ∧
      (quiet = false → ∀ r ∈ done,
        .printed ("Written: " ++ (textPath dir r.1).render ++ "\n") ∈ events) ∧
      t'.Opens dir d ∧
      ∀ stem, t'.node? (textPlace d stem) =
        ((lastUnder stem done).map fun r => .file (Encoding.encodeUtf8 r.2.output.text)).or
          (t.node? (textPlace d stem)) := by
  induction done generalizing t with
  | nil => exact ⟨[], t, rfl, fun _ _ h => absurd h List.not_mem_nil, hopens, fun _ => rfl⟩
  | cons r done ih =>
    obtain ⟨source, result⟩ := r
    rw [List.forall_mem_cons] at hdone
    obtain ⟨⟨hstem, hwritable⟩, hdone⟩ := hdone
    obtain ⟨paths, t₁, hfirst, hmem, hwrote⟩ :=
      run_writeResult workDir hclock hopens hstem hwritable result
    obtain ⟨events, t', hrest, htold, hopens', hnodes⟩ := ih hwrote.opens fun r hr =>
      ⟨(hdone r hr).1, (hdone r hr).2.mono hwrote.directories⟩
    refine ⟨_, t', access_bind_iff.mpr ⟨_, _, hfirst, access_bind_iff.mpr ⟨_, _, hrest, rfl⟩⟩, ?_,
      hopens', ?_⟩
    · rintro rfl
      rw [List.forall_mem_cons]
      refine ⟨List.mem_append_left _ (List.mem_map_of_mem hmem), fun r hr => ?_⟩
      exact List.mem_append_right _ (htold rfl r hr)
    · intro stem
      rw [hnodes, lastUnder_cons]
      cases hlast : lastUnder stem done with
      | some last => rfl
      | none =>
        by_cases hsame : source.stem = stem
        · subst hsame
          simp [hwrote.text_eq]
        · simp [hsame, hwrote.others stem (Ne.symm hsame)]

/-- The file for a source with a result holds the text of the last result under its stem. -/
lemma exists_last_read (hopens : t'.Opens dir d) {done : List (Path × Preprocessed)}
    (hnodes : ∀ stem, t'.node? (textPlace d stem) =
      ((lastUnder stem done).map fun r => .file (Encoding.encodeUtf8 r.2.output.text)).or
        (t.node? (textPlace d stem)))
    {source : Path} (hstem : '/' ∉ source.stem.toList) {result : Preprocessed}
    (h : (source, result) ∈ done) :
    ∃ last ∈ done, last.1.stem = source.stem ∧ lastUnder source.stem done = some last ∧
      t'.read (textPath dir source) = .ok (Encoding.encodeUtf8 last.2.output.text) := by
  obtain ⟨last, hlast, hsame, hunder⟩ := exists_lastUnder h
  have hnode : t'.node? (textPlace d source.stem) =
      some (.file (Encoding.encodeUtf8 last.2.output.text)) := by
    rw [hnodes, hunder]
    rfl
  exact ⟨last, hlast, hsame, hunder,
    hopens.read_child (Path.isName_append hstem (by decide) (by decide)) hnode⟩

lemma writable_of_writeAll (hclock : clock.Apart) (hopens : t.Opens dir d) {quiet : Bool}
    {source : Path} (hstem : '/' ∉ source.stem.toList) {result : Preprocessed}
    {events : List Event}
    (h : (writeAll (FileTree.store workDir) clock writer quiet dir [(source, result)]).run t =
      ((events, none), t')) : Writable t d writer source.stem := by
  obtain ⟨first, t₁, hfirst, h⟩ := access_bind_iff.mp h
  cases first with
  | error fault =>
    obtain ⟨hpair, -⟩ := access_pure_iff.mp h
    cases hpair
  | ok paths => exact writable_of_writeResult hclock hopens hstem hfirst

end Results

section Outcomes

variable {files : FileAccess (StateM FileTree)} {s session : Session} {source : Path}
  {sources : List Path}

/-- How a source ends in a session of its own. -/
def aloneIn (files : FileAccess (StateM FileTree)) (session : Session) (t : FileTree)
    (source : Path) : Outcome :=
  ((session.processFile files source).run t).1.1

lemma run_processAll (hfiles : files.Unchanging t) (hagrees : s.Agrees files t session)
    (sideBySide : Bool)
    (hfatal : ∀ source ∈ sources, fatal? (aloneIn files session t source) = none) :
    (processAll files sideBySide s sources).run t =
      (sources.map fun source => (source, aloneIn files session t source), t) := by
  induction sources generalizing s with
  | nil => rfl
  | cons source sources ih =>
    rw [List.forall_mem_cons] at hfatal
    obtain ⟨houtcome, hkept, hagrees'⟩ := Session.perform_sameOutcome hfiles hagrees (.file source)
    have hrest := ih hagrees' hfatal.2
    rcases hrun : (s.perform files (.file source)).run t with ⟨⟨outcome, s'⟩, t'⟩
    rw [hrun] at houtcome hkept hrest
    obtain rfl : t' = t := hkept
    obtain rfl : outcome = aloneIn files session t' source := houtcome
    refine access_bind_iff.mpr ⟨_, _, hrun, ?_⟩
    simp only [hfatal.1, Option.isSome_none, Bool.false_and, Bool.false_eq_true, if_false]
    exact access_bind_iff.mpr ⟨_, _, hrest, rfl⟩

lemma run_processAll_single (hfiles : files.Unchanging t)
    (hself : session.Agrees files t session) (sideBySide : Bool) :
    (processAll files sideBySide session [source]).run t =
      ([(source, aloneIn files session t source)], t) := by
  have hkept := (Session.perform_sameOutcome hfiles hself (.file source)).files_eq
  rcases hrun : (session.perform files (.file source)).run t with ⟨⟨outcome, s'⟩, t'⟩
  have houtcome : aloneIn files session t source = outcome := by
    rw [aloneIn, show (session.processFile files source).run t = _ from hrun]
  rw [hrun] at hkept
  obtain rfl : t' = t := hkept
  refine access_bind_iff.mpr ⟨_, _, hrun, ?_⟩
  rw [houtcome]
  dsimp only
  split <;> rfl

variable {outcome : Path → Outcome}

lemma mem_results {result : Preprocessed} :
    (source, result) ∈ results (sources.map fun s => (s, outcome s)) ↔
      source ∈ sources ∧ (outcome source).result = .ok result := by
  simp only [results, List.mem_filterMap, List.mem_map]
  constructor
  · rintro ⟨-, ⟨s, hs, rfl⟩, hresult⟩
    cases hs' : (outcome s).result with
    | error fault => simp [hs'] at hresult
    | ok result' =>
      simp only [hs', Option.some.injEq, Prod.mk.injEq] at hresult
      obtain ⟨rfl, rfl⟩ := hresult
      exact ⟨hs, hs'⟩
  · rintro ⟨hs, hresult⟩
    exact ⟨_, ⟨source, hs, rfl⟩, by rw [hresult]⟩

lemma length_results :
    (results (sources.map fun s => (s, outcome s))).length = sources.length ↔
      ∀ source ∈ sources, ∃ result, (outcome source).result = .ok result := by
  simp only [results, List.length_filterMap_eq_countP, List.countP_map]
  rw [List.countP_eq_length]
  apply forall₂_congr
  intro source _
  cases hresult : (outcome source).result <;> simp [hresult]

lemma length_results_ne :
    (results (sources.map fun s => (s, outcome s))).length ≠ sources.length ↔
      ∃ source ∈ sources, ∃ fault, (outcome source).result = .error fault := by
  rw [Ne, length_results]
  push Not
  apply exists_congr
  intro source
  apply and_congr_right
  intro _
  cases (outcome source).result <;> simp

end Outcomes

section Batch

variable {r : BatchRequest} {session : Session} {source : Path}

lemma unchanging_store : (FileTree.store workDir).toFileAccess.Unchanging t :=
  ⟨fun _ => rfl, fun _ => rfl⟩

lemma agrees_of_start {o : Options} {files : FileAccess (StateM FileTree)}
    (h : Session.start o = .ok session) : session.Agrees files t session := by
  have hempty : session.cache = BookCache.empty := by
    cases hplan : o.searchPlan with
    | error fault => simp [Session.start, hplan, bind, Except.bind] at h
    | ok plan =>
      simp only [Session.start, hplan, bind, Except.bind, pure, Except.pure, Except.ok.injEq] at h
      rw [← h]
  have hfaithful : session.cache.Faithful files t := by
    rw [hempty]
    exact BookCache.faithful_empty
  exact ⟨rfl, rfl, hfaithful, hfaithful⟩

/-- Whether a source comes to an end on its own, with nothing in the way of its files if there is a
result. -/
structure Settles (workDir : List String) (session : Session) (t : FileTree) (d : List String)
    (writer : Option (Except Fault ReportWriter)) (source : Path) : Prop where
  not_fatal : fatal? (aloneIn (FileTree.store workDir).toFileAccess session t source) = none
  writable : ∀ result, (aloneIn (FileTree.store workDir).toFileAccess session t source).result =
    .ok result → Writable t d writer source.stem

lemma settles_of_runBatch (hclock : clock.Apart) (hopens : t.Opens dir d)
    (hself : session.Agrees (FileTree.store workDir).toFileAccess t session)
    (hdir : r.outputDir = some dir) (hstem : '/' ∉ source.stem.toList) {jobs : Int} {code : Nat}
    (h : ((runBatch (FileTree.store workDir) clock { r with sources := [source] } jobs session
      writer).run t).1.ending = .ok code) : Settles workDir session t d writer source := by
  rcases hrun : (runBatch (FileTree.store workDir) clock { r with sources := [source] } jobs session
    writer).run t with ⟨transcript, t'⟩
  rw [hrun] at h
  obtain ⟨outcomes, t₁, houtcomes, hrun⟩ := access_bind_iff.mp hrun
  rw [run_processAll_single unchanging_store hself] at houtcomes
  obtain ⟨rfl, rfl⟩ := Prod.mk.inj houtcomes
  simp only [List.findSome?_cons, List.findSome?_nil] at hrun
  cases hfatal : fatal? (aloneIn (FileTree.store workDir).toFileAccess session t source) with
  | some fault =>
    rw [hfatal] at hrun
    obtain ⟨rfl, -⟩ := access_pure_iff.mp hrun
    cases h
  | none =>
    refine ⟨hfatal, fun result hresult => ?_⟩
    rw [hfatal] at hrun
    obtain ⟨⟨shown, failure⟩, t₂, hshown, hrun⟩ := access_bind_iff.mp hrun
    simp only [deliverAll, hdir, results, List.filterMap_cons, hresult, List.filterMap_nil]
      at hshown
    cases failure with
    | some fault =>
      obtain ⟨rfl, -⟩ := access_pure_iff.mp hrun
      cases h
    | none => exact writable_of_writeAll hclock hopens hstem hshown

lemma run_runBatch_of_delivered {files : FileStore (StateM FileTree)} (hclock : clock.Apart)
    {jobs : Int} {outcomes : List (Path × Outcome)} {events : List Event}
    (houtcomes : (processAll files.toFileAccess (1 < jobs && 1 < r.sources.length) session
      r.sources).run t = (outcomes, t))
    (hfatal : ∀ o ∈ outcomes, fatal? o.2 = none)
    (hdelivered : (deliverAll files clock r writer (results outcomes)).run t =
      ((events, none), t')) :
    ∃ transcript, (runBatch files clock r jobs session writer).run t = (transcript, t') ∧
      transcript.ending =
        .ok (if (results outcomes).length == outcomes.length then 0 else 1) ∧
      ∀ event ∈ events, event ∈ transcript.events := by
  rcases hrun : (runBatch files clock r jobs session writer).run t with ⟨transcript, t₂⟩
  obtain ⟨outcomes', t₁, houtcomes', hrun⟩ := access_bind_iff.mp hrun
  rw [houtcomes] at houtcomes'
  obtain ⟨rfl, rfl⟩ := Prod.mk.inj houtcomes'
  split at hrun
  · rename_i fault hfault
    obtain ⟨o, hmem, ho⟩ := List.exists_of_findSome?_eq_some hfault
    cases (hfatal o hmem).symm.trans ho
  · obtain ⟨delivered, t₁, hdelivered', hrun⟩ := access_bind_iff.mp hrun
    rw [hdelivered] at hdelivered'
    obtain ⟨rfl, rfl⟩ := Prod.mk.inj hdelivered'
    obtain ⟨elapsed, t₁, helapsed, hrun⟩ := access_bind_iff.mp hrun
    rw [hclock.run_elapsed] at helapsed
    obtain ⟨rfl, rfl⟩ := Prod.mk.inj helapsed
    obtain ⟨rfl, rfl⟩ := access_pure_iff.mp hrun
    exact ⟨_, rfl, rfl, fun event h => List.mem_append_left _ (List.mem_append_right _ h)⟩

/-- A batch of sources that settle ends with an exit code.  Every result is told, and under each
stem the text of the last one stays. -/
lemma run_runBatch (jobs : Int) (hclock : clock.Apart) (hopens : t.Opens dir d)
    (hself : session.Agrees (FileTree.store workDir).toFileAccess t session)
    (hdir : r.outputDir = some dir)
    (hsources : ∀ source ∈ r.sources,
      '/' ∉ source.stem.toList ∧ Settles workDir session t d writer source)
    {done : List (Path × Preprocessed)}
    (hdone : done = results (r.sources.map fun source =>
      (source, aloneIn (FileTree.store workDir).toFileAccess session t source))) :
    ∃ transcript t', (runBatch (FileTree.store workDir) clock r jobs session writer).run t =
        (transcript, t') ∧
      transcript.ending = .ok (if done.length = r.sources.length then 0 else 1) ∧
      (r.general.quiet = false → ∀ result ∈ done,
        .printed ("Written: " ++ (textPath dir result.1).render ++ "\n") ∈ transcript.events) ∧
      t'.Opens dir d ∧
      ∀ stem, t'.node? (textPlace d stem) =
        ((lastUnder stem done).map fun result =>
          .file (Encoding.encodeUtf8 result.2.output.text)).or (t.node? (textPlace d stem)) := by
  have hclear : ∀ result ∈ done,
      '/' ∉ result.1.stem.toList ∧ Writable t d writer result.1.stem := by
    rintro ⟨source, result⟩ hmem
    rw [hdone] at hmem
    obtain ⟨hsource, hresult⟩ := mem_results.mp hmem
    exact ⟨(hsources source hsource).1, (hsources source hsource).2.writable result hresult⟩
  obtain ⟨events, t', hwritten, htold, hopens', hnodes⟩ :=
    run_writeAll workDir hclock hopens r.general.quiet hclear
  have hdelivered : (deliverAll (FileTree.store workDir) clock r writer done).run t =
      ((events, none), t') := by
    rw [← hwritten, deliverAll, hdir]
  have hfatal : ∀ source ∈ r.sources,
      fatal? (aloneIn (FileTree.store workDir).toFileAccess session t source) = none :=
    fun source hsource => (hsources source hsource).2.not_fatal
  have houtcomes := run_processAll unchanging_store hself (1 < jobs && 1 < r.sources.length) hfatal
  rw [hdone] at hdelivered
  obtain ⟨transcript, hrun, hending, hshown⟩ := run_runBatch_of_delivered hclock houtcomes
    (List.forall_mem_map.mpr hfatal) hdelivered
  refine ⟨transcript, t', hrun, ?_,
    fun hquiet result hresult => hshown _ (htold hquiet result hresult), hopens', hnodes⟩
  rw [hending, ← hdone, List.length_map]
  simp

end Batch

section Requests

variable {r : BatchRequest} {jobs : Int} {session : Session} {source : Path} {sources : List Path}
  {threshold : LogLevel}

lemma run_load (path : Option Path) :
    ((Config.load (FileTree.store workDir).toFileAccess path).run t).2 = t := by
  unfold Config.load
  cases path with
  | none => rfl
  | some path =>
    apply FileAccess.Unchanging.bind (unchanging_store.readText path .null)
    intro found
    split <;> rfl

lemma run_firstMissing? (h : ∀ source ∈ sources, t.isFile source = true) :
    (firstMissing? (FileTree.store workDir).toFileAccess sources).run t = (none, t) := by
  induction sources with
  | nil => rfl
  | cons source sources ih =>
    rw [List.forall_mem_cons] at h
    refine access_bind_iff.mpr ⟨true, t, ?_, ih h.2⟩
    exact congrArg (·, t) h.1

/-- What the command does with some of the sources of a request. -/
def BatchRequest.runOn (r : BatchRequest) (clock : Clock (StateM FileTree)) (t : FileTree)
    (sources : List Path) : Transcript × FileTree :=
  ((Request.batch { r with sources }).run (FileTree.store t.workDir) clock).run t

/-- Whether a request has sources that are files, an output directory that can be made, which makes
`t₁` of the tree `t`, and options that start a session. -/
structure BatchRequest.Valid (r : BatchRequest) (t t₁ : FileTree) (dir : Path)
    (session : Session) : Prop where
  some_source : r.sources ≠ []
  sources_read : ∀ source ∈ r.sources, ∃ text, source = Path.ofString text
  sources_there : ∀ source ∈ r.sources, t.isFile source = true
  outputDir_eq : r.outputDir = some dir
  made : ((FileTree.store t.workDir).makeDirectories dir).run t = (.ok (), t₁)
  started : ∃ config options,
    ((Config.load (FileTree.store t.workDir).toFileAccess r.general.config).run t₁).1 =
      .ok config ∧ config.options r.general.choices = .ok options ∧
      Session.start options = .ok session

/-- What else a request needs: a threshold for messages, a writer if reports are asked for, and a
number of jobs. -/
structure BatchRequest.Ready (r : BatchRequest) (t t₁ : FileTree) (threshold : LogLevel)
    (writer : Option (Except Fault ReportWriter)) (jobs : Int) : Prop where
  threshold_eq : (do
    let config ← ((Config.load (FileTree.store t.workDir).toFileAccess r.general.config).run t).1
    LogLevel.threshold config r.general) = .ok threshold
  writer_eq : ∀ config,
    ((Config.load (FileTree.store t.workDir).toFileAccess r.general.config).run t₁).1 =
      .ok config → requestedWriter config r = .ok writer
  jobs_eq : r.requestedJobs = .ok jobs

lemma run_runConfigured (clock : Clock (StateM FileTree)) {files : FileStore (StateM FileTree)}
    {config : Config} {options : Options}
    (hload : (Config.load files.toFileAccess r.general.config).run t = (.ok config, t))
    (hoptions : config.options r.general.choices = .ok options)
    (hsession : Session.start options = .ok session) :
    (runConfigured files clock r).run t =
      match requestedWriter config r, r.requestedJobs with
      | .ok writer, .ok jobs => (runBatch files clock r jobs session writer).run t
      | .ok _, .error fault => (Transcript.abort fault, t)
      | .error fault, _ => (Transcript.abort fault, t) := by
  refine access_bind_iff.mpr ⟨_, _, hload, ?_⟩
  dsimp only
  rw [hoptions]
  dsimp only
  rw [hsession]
  cases requestedWriter config r with
  | error fault => rfl
  | ok writer =>
    cases r.requestedJobs with
    | error fault => rfl
    | ok jobs => rfl

lemma run_request {files : FileStore (StateM FileTree)} {loaded : Except Fault Config}
    (hload : (Config.load files.toFileAccess r.general.config).run t = (loaded, t)) :
    ((Request.batch r).run files clock).run t =
      match (do LogLevel.threshold (← loaded) r.general) with
      | .ok threshold =>
        (((r.run files clock).run t).1.above threshold, ((r.run files clock).run t).2)
      | .error fault => (Transcript.abort fault, t) := by
  refine access_bind_iff.mpr ⟨_, _, hload, ?_⟩
  cases loaded with
  | error fault => rfl
  | ok config =>
    dsimp only [Request.general, bind, Except.bind]
    cases LogLevel.threshold config r.general with
    | error fault => rfl
    | ok threshold => rfl

lemma run_batchRequest (h : r.Valid t t₁ dir session)
    (hsources : ∀ source ∈ sources, t.isFile source = true) :
    (BatchRequest.run (FileTree.store t.workDir) clock { r with sources }).run t =
      (((runConfigured (FileTree.store t.workDir) clock { r with sources }).run t₁).1.after
          [.logged .info ("Output directory: " ++ dir.render)],
        ((runConfigured (FileTree.store t.workDir) clock { r with sources }).run t₁).2) := by
  refine access_bind_iff.mpr ⟨_, _, run_firstMissing? hsources, ?_⟩
  dsimp only
  rw [h.outputDir_eq]
  exact access_bind_iff.mpr ⟨_, _, h.made, rfl⟩

lemma run_runOn (h : r.Valid t t₁ dir session) (hready : r.Ready t t₁ threshold writer jobs)
    (hsources : ∀ source ∈ sources, t.isFile source = true) {transcript : Transcript}
    (hrun : (runBatch (FileTree.store t.workDir) clock { r with sources } jobs session writer).run
      t₁ = (transcript, t')) :
    r.runOn clock t sources =
      ((transcript.after [.logged .info ("Output directory: " ++ dir.render)]).above threshold,
        t') := by
  obtain ⟨config, options, hload, hoptions, hsession⟩ := h.started
  have hwriter : requestedWriter config { r with sources } = .ok writer :=
    hready.writer_eq config hload
  have hjobs : BatchRequest.requestedJobs { r with sources } = .ok jobs := hready.jobs_eq
  have hconfigured := run_runConfigured clock (r := { r with sources })
    (Prod.ext hload (run_load _)) hoptions hsession
  rw [hwriter, hjobs] at hconfigured
  dsimp only at hconfigured
  rw [BatchRequest.runOn, run_request (r := { r with sources }) (Prod.ext rfl (run_load _)),
    hready.threshold_eq, run_batchRequest h hsources, hconfigured, hrun]

/-- A request that ends with an exit code for some of its sources was ready for them. -/
lemma exists_ready (h : r.Valid t t₁ dir session)
    (hsources : ∀ source ∈ sources, t.isFile source = true) {code : Nat}
    (hending : (r.runOn clock t sources).1.ending = .ok code) :
    ∃ threshold writer jobs, r.Ready t t₁ threshold writer jobs := by
  obtain ⟨config, options, hload, hoptions, hsession⟩ := h.started
  have hconfigured := run_runConfigured clock (r := { r with sources })
    (Prod.ext hload (run_load _)) hoptions hsession
  rw [BatchRequest.runOn, run_request (r := { r with sources }) (Prod.ext rfl (run_load _))]
    at hending
  dsimp only at hending
  split at hending
  · rename_i threshold hthreshold
    rw [run_batchRequest h hsources, hconfigured] at hending
    cases hwriter : requestedWriter config { r with sources } with
    | error fault =>
      rw [hwriter] at hending
      cases hending
    | ok writer =>
      cases hjobs : BatchRequest.requestedJobs { r with sources } with
      | error fault =>
        rw [hwriter, hjobs] at hending
        cases hending
      | ok jobs =>
        refine ⟨threshold, writer, jobs, hthreshold, fun config' hload' => ?_, hjobs⟩
        obtain rfl := Except.ok.inj (hload'.symm.trans hload)
        exact hwriter
  · cases hending

end Requests

lemma BatchRequest.Valid.not_mem_stem {r : BatchRequest} {session : Session}
    (h : r.Valid t t₁ dir session) {source : Path} (hsource : source ∈ r.sources) :
    '/' ∉ source.stem.toList := by
  obtain ⟨text, rfl⟩ := h.sources_read source hsource
  exact Path.not_mem_stem text

/-- A valid request all of whose sources end with an exit code on their own is ready, and its
sources settle. -/
lemma exists_ready_settles {r : BatchRequest} {session : Session} (hclock : clock.Apart)
    (hvalid : r.Valid t t₁ dir session)
    (halone : ∀ source ∈ r.sources, ∃ code, (r.runOn clock t [source]).1.ending = .ok code)
    (hopens : t₁.Opens dir d)
    (hself : session.Agrees (FileTree.store t.workDir).toFileAccess t₁ session) :
    ∃ threshold writer jobs, r.Ready t t₁ threshold writer jobs ∧
      ∀ source ∈ r.sources, Settles t.workDir session t₁ d writer source := by
  have hthere : ∀ source ∈ r.sources, ∀ s ∈ [source], t.isFile s = true := fun source hsource =>
    List.forall_mem_singleton.mpr (hvalid.sources_there source hsource)
  obtain ⟨first, hfirst⟩ := List.exists_mem_of_ne_nil _ hvalid.some_source
  obtain ⟨code, hending⟩ := halone first hfirst
  obtain ⟨threshold, writer, jobs, hready⟩ := exists_ready hvalid (hthere first hfirst) hending
  refine ⟨threshold, writer, jobs, hready, fun source hsource => ?_⟩
  obtain ⟨code, hending⟩ := halone source hsource
  rcases hrun : (runBatch (FileTree.store t.workDir) clock { r with sources := [source] } jobs
    session writer).run t₁ with ⟨transcript, t'⟩
  rw [run_runOn hvalid hready (hthere source hsource) hrun] at hending
  have hended : ((runBatch (FileTree.store t.workDir) clock { r with sources := [source] } jobs
      session writer).run t₁).1.ending = .ok code := by
    rw [hrun]
    exact hending
  exact settles_of_runBatch hclock hopens hself hvalid.outputDir_eq (hvalid.not_mem_stem hsource)
    hended

/-- A source that settles ends with an exit code on its own. -/
lemma exists_ending {r : BatchRequest} {session : Session} {threshold : LogLevel} {jobs : Int}
    {source : Path} (hclock : clock.Apart) (hvalid : r.Valid t t₁ dir session)
    (hready : r.Ready t t₁ threshold writer jobs) (hopens : t₁.Opens dir d)
    (hself : session.Agrees (FileTree.store t.workDir).toFileAccess t₁ session)
    (hsource : source ∈ r.sources) (hsettles : Settles t.workDir session t₁ d writer source) :
    ∃ code, (r.runOn clock t [source]).1.ending = .ok code := by
  obtain ⟨transcript, t₂, hrun, hending, -⟩ := run_runBatch jobs
    (r := { r with sources := [source] }) hclock hopens hself hvalid.outputDir_eq
    (List.forall_mem_singleton.mpr ⟨hvalid.not_mem_stem hsource, hsettles⟩) rfl
  rw [run_runOn hvalid hready
    (List.forall_mem_singleton.mpr (hvalid.sources_there source hsource)) hrun]
  exact ⟨_, hending⟩

/-- The command ends with code 1 exactly if a source fails, and tells a file for every source that
does not.  The file holds the text of the last such source with its stem, so that no text is lost
exactly if sources with one stem have one text. -/
theorem batch_outputs (r : BatchRequest) (t t₁ : FileTree) (dir : Path) (session : Session)
    (clock : Clock (StateM FileTree)) (hclock : clock.Apart) (hvalid : r.Valid t t₁ dir session)
    (halone : ∀ source ∈ r.sources, ∃ code, (r.runOn clock t [source]).1.ending = .ok code)
    (outcome : Path → Outcome)
    (houtcome : outcome = aloneIn (FileTree.store t.workDir).toFileAccess session t₁) :
    ∃ transcript t₂, r.runOn clock t r.sources = (transcript, t₂) ∧
      (∃ code ≤ 1, transcript.ending = .ok code ∧
        (code = 1 ↔ ∃ source ∈ r.sources, ∃ fault, (outcome source).result = .error fault)) ∧
      (∀ source ∈ r.sources, ∀ result, (outcome source).result = .ok result →
        (r.general.quiet = false →
          .printed ("Written: " ++ (textPath dir source).render ++ "\n") ∈ transcript.events) ∧
        ∃ last, lastUnder source.stem (results (r.sources.map fun s => (s, outcome s))) =
            some last ∧
          t₂.read (textPath dir source) = .ok (Encoding.encodeUtf8 last.2.output.text)) ∧
      ((∀ source ∈ r.sources, ∀ result, (outcome source).result = .ok result →
          t₂.read (textPath dir source) = .ok (Encoding.encodeUtf8 result.output.text)) ↔
        ∀ source ∈ r.sources, ∀ result, (outcome source).result = .ok result →
          ∀ source' ∈ r.sources, ∀ result', (outcome source').result = .ok result' →
            source.stem = source'.stem → result.output.text = result'.output.text) := by
  obtain ⟨d, hopens⟩ := FileTree.opens_of_makeLevels hvalid.made
  obtain ⟨_, _, _, _, hsession⟩ := hvalid.started
  have hself : session.Agrees (FileTree.store t.workDir).toFileAccess t₁ session :=
    agrees_of_start hsession
  obtain ⟨threshold, writer, jobs, hready, hsettles⟩ :=
    exists_ready_settles hclock hvalid halone hopens hself
  obtain ⟨done, hdone⟩ : ∃ done, done = results (r.sources.map fun s => (s, outcome s)) := ⟨_, rfl⟩
  have hmem : ∀ {source result}, (source, result) ∈ done ↔
      source ∈ r.sources ∧ (outcome source).result = .ok result := by
    rw [hdone]
    exact mem_results
  have halone' : done = results (r.sources.map fun s =>
      (s, aloneIn (FileTree.store t.workDir).toFileAccess session t₁ s)) := by
    rw [hdone, houtcome]
  obtain ⟨transcript, t₂, hrun, hending, htold, hopens', hnodes⟩ := run_runBatch jobs hclock hopens
    hself hvalid.outputDir_eq (fun source hsource =>
      ⟨hvalid.not_mem_stem hsource, hsettles source hsource⟩) halone'
  have hread : ∀ source ∈ r.sources, ∀ result, (outcome source).result = .ok result →
      ∃ last ∈ done, last.1.stem = source.stem ∧ lastUnder source.stem done = some last ∧
        t₂.read (textPath dir source) = .ok (Encoding.encodeUtf8 last.2.output.text) := by
    intro source hsource result hresult
    exact exists_last_read hopens' hnodes (hvalid.not_mem_stem hsource)
      (hmem.mpr ⟨hsource, hresult⟩)
  refine ⟨_, t₂, run_runOn hvalid hready hvalid.sources_there hrun, ?_, ?_, ?_⟩
  · refine ⟨_, ?_, hending, ?_⟩
    · split <;> decide
    · rw [← length_results_ne, ← hdone]
      split <;> simp_all
  · intro source hsource result hresult
    obtain ⟨last, -, -, hunder, hlast⟩ := hread source hsource result hresult
    refine ⟨fun hquiet => ?_, last, hdone ▸ hunder, hlast⟩
    have hevent := htold hquiet (source, result) (hmem.mpr ⟨hsource, hresult⟩)
    exact List.mem_filter.mpr ⟨List.mem_append_right _ hevent, rfl⟩
  · constructor
    · intro hkept source hsource result hresult source' hsource' result' hresult' hstem
      have hpath : textPath dir source = textPath dir source' := by
        rw [textPath, textPath, hstem]
      have hbytes := hkept source hsource result hresult
      rw [hpath, hkept source' hsource' result' hresult'] at hbytes
      exact (Encoding.encodeUtf8_inj.mp (Except.ok.inj hbytes)).symm
    · intro hsame source hsource result hresult
      obtain ⟨⟨last, result'⟩, hlast, hstem, -, hbytes⟩ := hread source hsource result hresult
      obtain ⟨hsource', hresult'⟩ := hmem.mp hlast
      rw [hbytes, hsame source hsource result hresult last hsource' result' hresult' hstem.symm]

section Sample

open Expansion

def twinsTree : FileTree where
  workDir := ["w"]
  nodes := [(["w", "a"], .directory), (["w", "a", "X"], .file [65]), (["w", "b"], .directory),
    (["w", "b", "X"], .file [66])]

def twinsOpened : FileTree :=
  twinsTree.put ["w", "out"] .directory

def twin (part : String) : Path :=
  ⟨0, [part, "X"]⟩

def twinsOut : Path :=
  ⟨0, ["out"]⟩

def twinsRequest : BatchRequest where
  general := ⟨{ Choices.blank with format := .text "free" }, none, false, false⟩
  sources := [twin "a", twin "b"]
  outputDir := some twinsOut
  withReports := false
  jobs := some 1

def stillClock : Clock (StateM FileTree) :=
  ⟨pure "", pure ""⟩

def twinsSession : Session :=
  { Session.standardSession with options := { Session.standardSession.options with
      extensions := .list (SearchPlan.standardExtensions.map Value.text) } }

abbrev twinsFiles : FileStore (StateM FileTree) :=
  FileTree.store twinsTree.workDir

set_option maxRecDepth 20000

lemma twinsRequest_valid :
    twinsRequest.Valid twinsTree twinsOpened twinsOut twinsSession where
  some_source := by simp [twinsRequest]
  sources_read := by
    rintro source hsource
    simp only [twinsRequest, List.mem_cons, List.not_mem_nil, or_false] at hsource
    obtain rfl | rfl := hsource
    · exact ⟨"a/X", by cbv⟩
    · exact ⟨"b/X", by cbv⟩
  sources_there := by
    rintro source hsource
    simp only [twinsRequest, List.mem_cons, List.not_mem_nil, or_false] at hsource
    obtain rfl | rfl := hsource
    · cbv
    · cbv
  outputDir_eq := rfl
  made := by cbv
  started := ⟨Config.standard, twinsSession.options, rfl, by cbv, by cbv⟩

lemma twinsRequest_ready : twinsRequest.Ready twinsTree twinsOpened .info none 1 where
  threshold_eq := by cbv
  writer_eq config h := rfl
  jobs_eq := rfl

lemma twins_open : twinsOpened.Opens twinsOut ["w", "out"] where
  locate_eq := by cbv
  node_eq := by cbv

abbrev twinsRules : RunRules :=
  twinsSession.options.runRules twinsSession.plan

/-- Whether a twin holds a character. -/
def Holds (part : String) (c : Char) : Prop :=
  (part, c) = ("a", 'A') ∨ (part, c) = ("b", 'B')

variable {part : String} {c : Char}

lemma readText_twin (h : Holds part c) :
    (readText twinsFiles.toFileAccess (twin part) twinsSession.options.encoding).run twinsOpened =
      (.ok [c], twinsOpened) := by
  obtain ⟨rfl, rfl⟩ | ⟨rfl, rfl⟩ := h
  · cbv
  · cbv

def twinWritten (part : String) (c : Char) : TracedText :=
  LogicalLine.write .ansi85 .free [.sampleCode (twin part).render 1 [c]]

lemma read_twin (h : Holds part c) :
    ∃ unit, SourceUnit.read twinsRules.toLineRules (twin part).render [c] = .ok unit ∧
      unit.written = twinWritten part c := by
  have hlogical : SourceUnit.logicalLines twinsRules.toLineRules (twin part).render [c] =
      [.sampleCode (twin part).render 1 [c]] := by
    obtain ⟨rfl, rfl⟩ | ⟨rfl, rfl⟩ := h
    · cbv
    · cbv
  apply SourceUnit.exists_read_of_no_keyword hlogical (by simp)
  rw [List.forall_mem_singleton]
  obtain ⟨rfl, rfl⟩ | ⟨rfl, rfl⟩ := h
  · cbv
  · cbv

lemma items_twin (h : Holds part c) :
    Item.ofText twinsRules.dialect true (twinWritten part c).text = [.kept 0 2] := by
  obtain ⟨rfl, rfl⟩ | ⟨rfl, rfl⟩ := h
  · cbv
  · cbv

lemma text_twin (h : Holds part c) :
    (Progress.initial.push [(twinWritten part c).cut 0 2 []]).finish.text = [c, '\n'] := by
  obtain ⟨rfl, rfl⟩ | ⟨rfl, rfl⟩ := h
  · cbv
  · cbv

/-- A twin that holds one character is written as a line with it. -/
lemma exists_result_twin (h : Holds part c) : ∃ result,
    (aloneIn twinsFiles.toFileAccess twinsSession twinsOpened (twin part)).result = .ok result ∧
      result.output.text = [c, '\n'] := by
  obtain ⟨unit, hread, hwritten⟩ := read_twin h
  have hexpands : Returns (expandUnit twinsFiles.toFileAccess twinsRules twinsRules.maxDepth
      [⟨(twin part).render, none, some (twin part)⟩] unit) (⟨BookCache.empty, []⟩, twinsOpened)
      (Progress.initial.push [(twinWritten part c).cut 0 2 []]).finish
      (warned unit (⟨BookCache.empty, []⟩, twinsOpened)) := by
    apply returns_expandUnit
    rw [hwritten, show decide ([_].length ≤ 1) = true from rfl, items_twin h]
    apply Returns.bind_iff.mpr
    exact ⟨_, _, Returns.pure_iff.mpr ⟨rfl, rfl⟩, Returns.pure_iff.mpr ⟨rfl, rfl⟩⟩
  have hrun := Session.run_of_returns (s := twinsSession) hread hexpands
  have hperform := Session.perform_file (s := twinsSession) (readText_twin h)
  have hout := congrArg (·.1.1.result) (hperform.trans hrun)
  exact ⟨_, hout, text_twin h⟩

lemma twin_settles (h : Holds part c) :
    Settles twinsTree.workDir twinsSession twinsOpened ["w", "out"] none (twin part) := by
  obtain ⟨result, hresult, -⟩ := exists_result_twin h
  refine ⟨?_, fun _ _ => ⟨?_, fun w hw => absurd hw (Option.not_mem_none w)⟩⟩
  · rw [fatal?, hresult]
  · obtain ⟨rfl, rfl⟩ | ⟨rfl, rfl⟩ := h
    · cbv
      simp
    · cbv
      simp

end Sample

/-- Two sources with one stem: both are told, and only the text of the second one is kept. -/
theorem batch_outputs_twins :
    ∃ transcript t₂,
      twinsRequest.runOn stillClock twinsTree [twin "a", twin "b"] = (transcript, t₂) ∧
      transcript.ending = .ok 0 ∧ .printed "Written: out/X.pre.cbl\n" ∈ transcript.events ∧
      (∃ result, (aloneIn twinsFiles.toFileAccess twinsSession twinsOpened (twin "a")).result =
        .ok result ∧ result.output.text = ['A', '\n']) ∧
      t₂.read ⟨0, ["out", "X.pre.cbl"]⟩ = .ok (Encoding.encodeUtf8 ['B', '\n']) := by
  have hclock : stillClock.Apart := ⟨fun _ => rfl, fun _ => rfl⟩
  have ha : Holds "a" 'A' := .inl rfl
  have hb : Holds "b" 'B' := .inr rfl
  have hsettles : ∀ source ∈ twinsRequest.sources,
      Settles twinsTree.workDir twinsSession twinsOpened ["w", "out"] none source := by
    simpa [twinsRequest] using And.intro (twin_settles ha) (twin_settles hb)
  have hself : twinsSession.Agrees twinsFiles.toFileAccess twinsOpened twinsSession :=
    agrees_of_start (o := twinsSession.options) (by cbv)
  obtain ⟨transcript, t₂, hrun, ⟨code, hle, hending, hcode⟩, hkept, -⟩ := batch_outputs twinsRequest
    twinsTree twinsOpened twinsOut twinsSession stillClock hclock twinsRequest_valid
    (fun source hsource => exists_ending hclock twinsRequest_valid twinsRequest_ready twins_open
      hself hsource (hsettles source hsource)) _ rfl
  obtain ⟨first, hfirst, htext⟩ := exists_result_twin ha
  obtain ⟨second, hsecond, htext'⟩ := exists_result_twin hb
  have hpath : textPath twinsOut (twin "a") = ⟨0, ["out", "X.pre.cbl"]⟩ := by
    cbv
  obtain ⟨htold, last, hlast, hread⟩ := hkept (twin "a") List.mem_cons_self first hfirst
  rw [hpath] at htold hread
  refine ⟨transcript, t₂, hrun, ?_, htold rfl, ⟨first, hfirst, htext⟩, ?_⟩
  · have hone : code ≠ 1 := by
      rintro rfl
      obtain ⟨source, hsource, fault, hfault⟩ := hcode.mp rfl
      simp only [twinsRequest, List.mem_cons, List.not_mem_nil, or_false] at hsource
      obtain rfl | rfl := hsource
      · rw [hfirst] at hfault
        cases hfault
      · rw [hsecond] at hfault
        cases hfault
    obtain rfl : code = 0 := by omega
    exact hending
  · have hsame : (twin "b").stem = (twin "a").stem := by
      cbv
    simp only [twinsRequest, results, List.map_cons, List.map_nil, List.filterMap_cons, hfirst,
      hsecond, List.filterMap_nil, lastUnder_cons, hsame, if_true] at hlast
    obtain rfl := Option.some.inj hlast
    rw [hread, htext']

end CommandLine

end CobolText
