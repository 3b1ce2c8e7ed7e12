import CobolText.Proofs.EntryKeywords

/-!
# Flagged lines

Which lines come out of the search for comment entries, and which of them are flagged.  A line is
kept, flagged as a whole, or divided into a keyword and flagged prose, and nothing of it is lost.
What is flagged goes back to a line that opens the entry: behind it, the first line of code that is
not flagged as a whole is the first one that ends an entry.

A flag only depends on the lines before it, so a line is told to be flagged by what comes out of the
lines up to it.  The reader is inside of an entry exactly if one of the lines opens it and no line
of code behind that one ends it; this is carried from line to line.
-/

namespace CobolText

namespace LogicalLine

lemma kind_withSegments (l : LogicalLine) (segments : List Segment) :
    (l.withSegments segments).kind = l.kind := by
  unfold withSegments
  split <;> rfl

lemma content_divide_fst (l : LogicalLine) {n : Nat} (h : n ≤ l.content.length) :
    (l.divide n).1.content = l.content.take n := by
  have hsplit : (l.divide n).1.cells ++ l.cells.drop n = l.cells.take n ++ l.cells.drop n := by
    rw [List.take_append_drop, ← cells_divide_snd l h, cells_divide]
  have hcells := List.append_cancel_right hsplit
  rw [content_eq_cells, hcells, List.map_take, ← content_eq_cells]

end LogicalLine

namespace CommentEntry

section Reader

variable {d : Dialect}

/-- Where the reader stands after some lines. -/
def progressAfter (d : Dialect) (lines : List LogicalLine) : Progress :=
  lines.foldl (fun p l => (step d p l).1) .initial

lemma progressAfter_concat (lines : List LogicalLine) (l : LogicalLine) :
    progressAfter d (lines ++ [l]) = (step d (progressAfter d lines) l).1 := by
  rw [progressAfter, List.foldl_append, List.foldl_cons, List.foldl_nil, progressAfter]

lemma standsAfter_progressAfter (lines : List LogicalLine) :
    StandsAfter d lines (progressAfter d lines) := by
  induction lines using List.reverseRecOn with
  | nil => exact standsAfter_initial d
  | append_singleton lines l ih =>
    rw [progressAfter_concat]
    exact ih.step l

lemma flagFrom_append (p : Progress) (lines later : List LogicalLine) :
    flagFrom d p (lines ++ later) =
      flagFrom d p lines ++ flagFrom d (lines.foldl (fun p l => (step d p l).1) p) later := by
  induction lines generalizing p with
  | nil => rfl
  | cons l lines ih =>
    simp only [List.cons_append, flagFrom, ih, List.foldl_cons, List.append_assoc]

lemma flagEntries_append (lines later : List LogicalLine) :
    LogicalLine.flagEntries d (lines ++ later) =
      LogicalLine.flagEntries d lines ++ flagFrom d (progressAfter d lines) later :=
  flagFrom_append .initial lines later

lemma flagEntries_concat (lines : List LogicalLine) (l : LogicalLine) :
    LogicalLine.flagEntries d (lines ++ [l]) =
      LogicalLine.flagEntries d lines ++ (step d (progressAfter d lines) l).2 := by
  simp only [flagEntries_append, flagFrom, List.append_nil]

/-- What the reader does with a line: it leaves a line that is not code alone, flags a line of the
entry it is in, and looks at any other line for a keyword. -/
lemma step_cases (d : Dialect) (p : Progress) (l : LogicalLine) :
    (l.kind.isCode = false ∧ step d p l = (p, [l])) ∨
    (l.kind.isCode = true ∧ p.inEntry = true ∧ isTerminator d l.content = false ∧
      step d p l = (p, [{ l with commentEntry := true }])) ∨
    (l.kind.isCode = true ∧ (p.inEntry = true → isTerminator d l.content = true) ∧
      step d p l = openEntry d p.inIdentification l) := by
  unfold step
  by_cases hcode : l.kind.isCode = true
  · rw [if_neg (by simp [hcode])]
    by_cases hgoes : (p.inEntry && !isTerminator d l.content) = true
    · rw [if_pos hgoes]
      rw [Bool.and_eq_true, Bool.not_eq_true'] at hgoes
      exact .inr (.inl ⟨hcode, hgoes.1, hgoes.2, rfl⟩)
    · rw [if_neg hgoes]
      refine .inr (.inr ⟨hcode, fun hentry => ?_, rfl⟩)
      simpa [hentry] using hgoes
  · rw [if_pos (by simpa using hcode)]
    exact .inl ⟨by simpa using hcode, rfl⟩

/-- What comes out of a line that is looked at for a keyword. -/
lemma openEntry_snd_cases (d : Dialect) (inside : Bool) (l : LogicalLine) :
    (openEntry d inside l).2 = [l] ∨ ∃ n, staysInIdentification inside l.content = true ∧
      proseStart? d l.content = some n ∧
      (openEntry d inside l).2 =
        [(l.divide n).1, { (l.divide n).2 with commentEntry := true }] := by
  unfold openEntry
  cases hinside : staysInIdentification inside l.content with
  | false => exact .inl (by simp [hinside])
  | true =>
    cases hstart : proseStart? d l.content with
    | none => exact .inl (by simp [hinside, hstart])
    | some n =>
      simp only [hinside, hstart, if_true]
      split
      · exact .inl rfl
      · exact .inr ⟨n, trivial, rfl, rfl⟩

end Reader

section Headers

/-- Whether a line is a division header or ends a program.  It is taken with all of its content,
also if a part of it is prose; as a whole it never is prose, because a header ends an entry. -/
def isHeader (l : LogicalLine) : Bool :=
  l.kind.isCode && endsDivision l.content

/-- Whether the last header among some lines is one of an identification division, or there is
none. -/
def AfterIdentificationHeader (lines : List LogicalLine) : Prop :=
  ∀ l ∈ (lines.filter isHeader).getLast?, startsIdentification l.content = true

lemma staysInIdentification_eq (inside : Bool) (content : List Char) :
    staysInIdentification inside content =
      if endsDivision content then startsIdentification content else inside := by
  cases hname : divisionName? content <;>
    simp [staysInIdentification, endsDivision, startsIdentification, hname]

lemma inIdentification_iff_header (lines : List LogicalLine) :
    inIdentification lines = true ↔ AfterIdentificationHeader lines := by
  induction lines using List.reverseRecOn with
  | nil => simp [inIdentification, AfterIdentificationHeader]
  | append_singleton lines l ih =>
    rw [inIdentification_concat, AfterIdentificationHeader, List.filter_append]
    by_cases hheader : isHeader l = true
    · rw [List.filter_cons_of_pos hheader, List.filter_nil, List.getLast?_concat]
      rw [isHeader, Bool.and_eq_true] at hheader
      simp [hheader.1, hheader.2, staysInIdentification_eq]
    · rw [List.filter_cons_of_neg hheader, List.filter_nil, List.append_nil]
      refine Iff.trans (Eq.to_iff ?_) ih
      rw [isHeader, Bool.and_eq_true, not_and, Bool.not_eq_true] at hheader
      by_cases hcode : l.kind.isCode = true
      · simp [hcode, hheader hcode, staysInIdentification_eq]
      · rw [if_neg hcode]

end Headers

section Openings

variable {d : Dialect}

/-- Whether a line behind some others is flagged as a whole. -/
def FlaggedWhole (d : Dialect) (before : List LogicalLine) (l : LogicalLine) : Prop :=
  LogicalLine.flagEntries d (before ++ [l]) =
    LogicalLine.flagEntries d before ++ [{ l with commentEntry := true }]

/-- Whether a line behind some others opens a comment entry: it starts with a keyword, it stands in
an identification division, and it is not prose itself. -/
structure OpeningLine (d : Dialect) (before : List LogicalLine) (l : LogicalLine) : Prop where
  isCode : l.kind.isCode = true
  keyword : (proseStart? d l.content).isSome = true
  header : AfterIdentificationHeader (before ++ [l])
  unflagged : ¬FlaggedWhole d before l

lemma flaggedWhole_iff {before : List LogicalLine} {l : LogicalLine} (hcode : l.kind.isCode = true)
    (hl : l.commentEntry = false) :
    FlaggedWhole d before l ↔
      (progressAfter d before).inEntry = true ∧ isTerminator d l.content = false := by
  have hne : l ≠ { l with commentEntry := true } := fun heq => by
    rw [heq] at hl
    cases hl
  rw [FlaggedWhole, flagEntries_concat, List.append_cancel_left_eq]
  rcases step_cases d (progressAfter d before) l with
    ⟨hnot, -⟩ | ⟨-, hentry, hgoes, hstep⟩ | ⟨-, hends, hstep⟩
  · rw [hcode] at hnot
    cases hnot
  · rw [hstep]
    exact iff_of_true rfl ⟨hentry, hgoes⟩
  · refine iff_of_false (fun heq => ?_) fun hprose => ?_
    · rw [hstep] at heq
      rcases openEntry_snd_cases d (progressAfter d before).inIdentification l with
        hkept | ⟨n, -, -, hdivided⟩
      · rw [hkept] at heq
        exact hne (List.singleton_inj.mp heq)
      · rw [hdivided] at heq
        simp at heq
    · rw [hends hprose.1] at hprose
      cases hprose.2

lemma openingLine_iff {before : List LogicalLine} {l : LogicalLine} (hl : l.commentEntry = false) :
    OpeningLine d before l ↔ Opens d before l ∧
      ((progressAfter d before).inEntry = true → isTerminator d l.content = true) := by
  constructor
  · intro h
    refine ⟨⟨h.isCode, (inIdentification_iff_header _).mpr h.header, h.keyword⟩, fun hentry => ?_⟩
    by_contra hgoes
    exact h.unflagged ((flaggedWhole_iff h.isCode hl).mpr ⟨hentry, by simpa using hgoes⟩)
  · rintro ⟨h, hends⟩
    refine ⟨h.isCode, h.keyword, (inIdentification_iff_header _).mp h.inside, fun hflagged => ?_⟩
    obtain ⟨hentry, hgoes⟩ := (flaggedWhole_iff h.isCode hl).mp hflagged
    rw [hends hentry] at hgoes
    cases hgoes

/-- A line that opens an entry leaves the reader in it. -/
lemma OpeningLine.inEntry {before : List LogicalLine} {l : LogicalLine}
    (h : OpeningLine d before l) : (progressAfter d (before ++ [l])).inEntry = true := by
  refine (standsAfter_progressAfter _).entry.mpr (inEntry_concat.mpr (.inl ?_))
  exact ⟨h.isCode, (inIdentification_iff_header _).mpr h.header, h.keyword⟩

/-- A reader in an entry comes from the line that opens it. -/
lemma exists_openingLine {lines : List LogicalLine} (hlines : ∀ l ∈ lines, l.commentEntry = false)
    (h : (progressAfter d lines).inEntry = true) :
    ∃ before l mid, lines = before ++ l :: mid ∧ OpeningLine d before l ∧
      ∀ u ∈ mid, u.kind.isCode = true → isTerminator d u.content = false := by
  induction lines using List.reverseRecOn with
  | nil => cases h
  | append_singleton lines u ih =>
    rw [List.forall_mem_append, List.forall_mem_singleton] at hlines
    have hgrow : (u.kind.isCode = true → isTerminator d u.content = false) →
        (progressAfter d lines).inEntry = true → ∃ before l mid, lines ++ [u] = before ++ l :: mid ∧
          OpeningLine d before l ∧ ∀ v ∈ mid, v.kind.isCode = true →
            isTerminator d v.content = false := by
      intro hu hentry
      obtain ⟨before, l, mid, rfl, hopening, hmid⟩ := ih hlines.1 hentry
      refine ⟨before, l, mid ++ [u], by simp, hopening, ?_⟩
      rw [List.forall_mem_append, List.forall_mem_singleton]
      exact ⟨hmid, hu⟩
    rcases step_cases d (progressAfter d lines) u with
      ⟨hnot, hstep⟩ | ⟨-, hentry, hgoes, -⟩ | ⟨hcode, hends, -⟩
    · rw [progressAfter_concat, hstep] at h
      exact hgrow (fun hcode => by simp [hcode] at hnot) h
    · exact hgrow (fun _ => hgoes) hentry
    · rcases inEntry_concat.mp ((standsAfter_progressAfter _).entry.mp h) with hopens | hentry
      · exact ⟨lines, u, [], rfl, (openingLine_iff hlines.2).mpr ⟨hopens, hends⟩, by simp⟩
      · have hgoes := hentry.2 hcode
        rw [hends ((standsAfter_progressAfter _).entry.mpr hentry.1)] at hgoes
        cases hgoes

/-- Whether a line that comes out is no prose and starts with a keyword. -/
structure IsTriggerLine (d : Dialect) (l : LogicalLine) : Prop where
  isCode : l.kind.isCode = true
  unflagged : l.commentEntry = false
  keyword : (proseStart? d l.content).isSome = true

lemma isTriggerLine_divide_fst {l : LogicalLine} {n : Nat} (hcode : l.kind.isCode = true)
    (hl : l.commentEntry = false) (h : proseStart? d l.content = some n) :
    IsTriggerLine d (l.divide n).1 := by
  refine ⟨?_, ?_, ?_⟩
  · rw [LogicalLine.divide, LogicalLine.kind_withSegments]
    exact hcode
  · rw [LogicalLine.divide, LogicalLine.commentEntry_withSegments]
    exact hl
  · rw [LogicalLine.content_divide_fst l (proseStart?_le h)]
    exact (proseStart?_take h).1

/-- What comes out of a line that opens an entry starts with a trigger line. -/
lemma OpeningLine.exists_triggerLine {before : List LogicalLine} {l : LogicalLine}
    (h : OpeningLine d before l) (hl : l.commentEntry = false) :
    ∃ t tail, LogicalLine.flagEntries d (before ++ [l]) =
        LogicalLine.flagEntries d before ++ t :: tail ∧
      IsTriggerLine d t ∧ ∀ u ∈ tail, u.commentEntry = true := by
  obtain ⟨hopens, hends⟩ := (openingLine_iff hl).mp h
  rw [flagEntries_concat]
  rcases step_cases d (progressAfter d before) l with
    ⟨hnot, -⟩ | ⟨-, hentry, hgoes, -⟩ | ⟨hcode, -, hstep⟩
  · rw [h.isCode] at hnot
    cases hnot
  · rw [hends hentry] at hgoes
    cases hgoes
  · rw [hstep]
    rcases openEntry_snd_cases d (progressAfter d before).inIdentification l with
      hkept | ⟨n, -, hstart, hdivided⟩
    · rw [hkept]
      exact ⟨l, [], rfl, ⟨hcode, hl, h.keyword⟩, by simp⟩
    · rw [hdivided]
      exact ⟨_, _, rfl, isTriggerLine_divide_fst hcode hl hstart, by simp⟩

/-- Up to a line that ends the entry, all lines of code are flagged as a whole. -/
lemma flagEntries_append_prose {before mid : List LogicalLine}
    (h : (progressAfter d before).inEntry = true)
    (hmid : ∀ u ∈ mid, u.kind.isCode = true → isTerminator d u.content = false) :
    (progressAfter d (before ++ mid)).inEntry = true ∧
      ∃ out, LogicalLine.flagEntries d (before ++ mid) = LogicalLine.flagEntries d before ++ out ∧
        ∀ u ∈ out, u.kind.isCode = true → u.commentEntry = true := by
  induction mid using List.reverseRecOn with
  | nil =>
    rw [List.append_nil]
    exact ⟨h, [], by simp, by simp⟩
  | append_singleton mid u ih =>
    rw [List.forall_mem_append, List.forall_mem_singleton] at hmid
    obtain ⟨hentry, out, hout, hflags⟩ := ih hmid.1
    rw [← List.append_assoc, progressAfter_concat, flagEntries_concat, hout]
    rcases step_cases d (progressAfter d (before ++ mid)) u with
      ⟨hnot, hstep⟩ | ⟨-, -, -, hstep⟩ | ⟨hcode, hends, -⟩
    · rw [hstep]
      refine ⟨hentry, out ++ [u], by simp, ?_⟩
      rw [List.forall_mem_append, List.forall_mem_singleton]
      exact ⟨hflags, fun hcode => by simp [hcode] at hnot⟩
    · rw [hstep]
      refine ⟨hentry, out ++ [{ u with commentEntry := true }], by simp, ?_⟩
      rw [List.forall_mem_append, List.forall_mem_singleton]
      exact ⟨hflags, fun _ => rfl⟩
    · have hgoes := hmid.2 hcode
      rw [hends hentry] at hgoes
      cases hgoes

lemma OpeningLine.flaggedWhole_iff {before mid : List LogicalLine} {l u : LogicalLine}
    (h : OpeningLine d before l) (hu : u.commentEntry = false) (hcode : u.kind.isCode = true)
    (hmid : ∀ v ∈ mid, v.kind.isCode = true → isTerminator d v.content = false) :
    FlaggedWhole d (before ++ l :: mid) u ↔ isTerminator d u.content = false := by
  have hentry := (flagEntries_append_prose h.inEntry hmid).1
  rw [List.append_assoc, List.singleton_append] at hentry
  rw [CommentEntry.flaggedWhole_iff hcode hu]
  exact and_iff_right hentry

end Openings

section Outcomes

variable {d : Dialect}

/-- What may come out of a line: the line itself, the line as prose of the entry that it goes on, or
its keyword and the prose behind it. -/
inductive Becomes (d : Dialect) (l : LogicalLine) : List LogicalLine → Prop
  | kept : Becomes d l [l]
  | prose (isCode : l.kind.isCode = true) (goesOn : isTerminator d l.content = false) :
      Becomes d l [{ l with commentEntry := true }]
  | divided {n : Nat} (isCode : l.kind.isCode = true) (start : proseStart? d l.content = some n) :
      Becomes d l [(l.divide n).1, { (l.divide n).2 with commentEntry := true }]

lemma becomes_step (p : Progress) (l : LogicalLine) : Becomes d l (step d p l).2 := by
  rcases step_cases d p l with ⟨-, hstep⟩ | ⟨hcode, -, hgoes, hstep⟩ | ⟨hcode, -, hstep⟩
  · rw [hstep]
    exact .kept
  · rw [hstep]
    exact .prose hcode hgoes
  · rw [hstep]
    rcases openEntry_snd_cases d p.inIdentification l with hkept | ⟨n, -, hstart, hdivided⟩
    · rw [hkept]
      exact .kept
    · rw [hdivided]
      exact .divided hcode hstart

/-- Every line that comes out comes out of a line that is read. -/
lemma exists_line_of_output {lines pre post : List LogicalLine} {f : LogicalLine}
    (h : LogicalLine.flagEntries d lines = pre ++ f :: post) :
    ∃ before u later out rest, lines = before ++ u :: later ∧
      pre = LogicalLine.flagEntries d before ++ out ∧
      (step d (progressAfter d before) u).2 = out ++ f :: rest := by
  induction lines using List.reverseRecOn generalizing post with
  | nil => simp [LogicalLine.flagEntries, flagFrom] at h
  | append_singleton lines u ih =>
    rw [flagEntries_concat] at h
    rcases List.append_eq_append_iff.mp h with ⟨out, rfl, hout⟩ | ⟨front, hfront, hout⟩
    · exact ⟨lines, u, [], out, post, rfl, rfl, hout⟩
    · cases front with
      | nil =>
        rw [List.append_nil] at hfront
        exact ⟨lines, u, [], [], post, rfl, by simp [hfront], hout.symm⟩
      | cons g front =>
        obtain ⟨rfl, -⟩ := List.cons.inj hout
        obtain ⟨before, v, later, out, rest, rfl, hpre, hstep⟩ := ih hfront
        exact ⟨before, v, later ++ [u], out, rest, by simp, hpre, hstep⟩

/-- Whether the nearest line of code that is not flagged, among the lines `pre` that came out so
far, is the trigger line of a line that opens an entry. -/
def BehindTriggerLine (d : Dialect) (lines pre : List LogicalLine) : Prop :=
  ∃ before l later t tail mid, lines = before ++ l :: later ∧ OpeningLine d before l ∧
    LogicalLine.flagEntries d (before ++ [l]) = LogicalLine.flagEntries d before ++ t :: tail ∧
    (∀ u ∈ tail, u.commentEntry = true) ∧ IsTriggerLine d t ∧
    pre = LogicalLine.flagEntries d before ++ t :: mid ∧
    ∀ u ∈ mid, u.kind.isCode = true → u.commentEntry = true

/-- A line that the reader comes to inside of an entry stands behind the line that opens it. -/
lemma behindTriggerLine_of_inEntry {before later : List LogicalLine} {u : LogicalLine}
    (hbefore : ∀ l ∈ before, l.commentEntry = false)
    (h : (progressAfter d before).inEntry = true) :
    BehindTriggerLine d (before ++ u :: later) (LogicalLine.flagEntries d before) := by
  obtain ⟨earlier, l, mid, rfl, hopening, hmid⟩ := exists_openingLine hbefore h
  obtain ⟨t, tail, ht, htrigger, htail⟩ := hopening.exists_triggerLine (hbefore l (by simp))
  obtain ⟨-, prose, hprose, hflags⟩ := flagEntries_append_prose hopening.inEntry hmid
  rw [List.append_assoc, List.singleton_append, ht] at hprose
  refine ⟨earlier, l, mid ++ u :: later, t, tail, tail ++ prose, by simp, hopening, ht, htail,
    htrigger, ?_, ?_⟩
  · rw [hprose, List.append_assoc, List.cons_append]
  · rw [List.forall_mem_append]
    exact ⟨fun v hv _ => htail v hv, hflags⟩

/-- The prose of a line that is divided stands behind its keyword. -/
lemma behindTriggerLine_of_divided {before later : List LogicalLine} {u : LogicalLine} {n : Nat}
    (hu : u.commentEntry = false) (hcode : u.kind.isCode = true)
    (hends : (progressAfter d before).inEntry = true → isTerminator d u.content = true)
    (hinside : staysInIdentification (progressAfter d before).inIdentification u.content = true)
    (hstart : proseStart? d u.content = some n)
    (h : (step d (progressAfter d before) u).2 =
      [(u.divide n).1, { (u.divide n).2 with commentEntry := true }]) :
    BehindTriggerLine d (before ++ u :: later)
      (LogicalLine.flagEntries d before ++ [(u.divide n).1]) := by
  have hopening : OpeningLine d before u := by
    refine (openingLine_iff hu).mpr ⟨(opens_iff hcode).mpr ?_, hends⟩
    rw [← (standsAfter_progressAfter before).division, hinside, hstart]
    rfl
  refine ⟨before, u, later, (u.divide n).1, [{ (u.divide n).2 with commentEntry := true }], [], rfl,
    hopening, ?_, by simp, isTriggerLine_divide_fst hcode hu hstart, rfl, by simp⟩
  rw [flagEntries_concat, h]

lemma behindTriggerLine_of_flagged {lines pre post : List LogicalLine} {f : LogicalLine}
    (hlines : ∀ l ∈ lines, l.commentEntry = false)
    (h : LogicalLine.flagEntries d lines = pre ++ f :: post) (hf : f.commentEntry = true) :
    BehindTriggerLine d lines pre := by
  obtain ⟨before, u, later, out, rest, rfl, rfl, hout⟩ := exists_line_of_output h
  have hu : u.commentEntry = false := hlines u (by simp)
  have hkept : [u] ≠ out ++ f :: rest := by
    intro heq
    have hmem : f ∈ [u] := by simp [heq]
    rw [List.mem_singleton.mp hmem, hu] at hf
    cases hf
  rcases step_cases d (progressAfter d before) u with
    ⟨-, hstep⟩ | ⟨-, hentry, -, hstep⟩ | ⟨hcode, hends, hstep⟩
  · rw [hstep] at hout
    exact absurd hout hkept
  · have hnil : out = [] := by
      rw [hstep] at hout
      cases out with
      | nil => rfl
      | cons g out => simp at hout
    rw [hnil, List.append_nil]
    exact behindTriggerLine_of_inEntry (fun l hl => hlines l (by simp [hl])) hentry
  · rcases openEntry_snd_cases d (progressAfter d before).inIdentification u with
      hwhole | ⟨n, hinside, hstart, hdivided⟩
    · rw [hstep, hwhole] at hout
      exact absurd hout hkept
    · rw [← hstep] at hdivided
      have hhead : out = [(u.divide n).1] := by
        rw [hdivided] at hout
        cases out with
        | nil =>
          rw [← (List.cons.inj hout).1, (isTriggerLine_divide_fst hcode hu hstart).unflagged] at hf
          cases hf
        | cons g out =>
          cases out with
          | nil => rw [(List.cons.inj hout).1]
          | cons g' out => simp at hout
      rw [hhead]
      exact behindTriggerLine_of_divided hu hcode hends hinside hstart hdivided

lemma isHeader_of_divide_fst {l : LogicalLine} {n : Nat} (h : proseStart? d l.content = some n)
    (hheader : isHeader (l.divide n).1 = true) : isHeader l = true := by
  rw [isHeader, Bool.and_eq_true, LogicalLine.content_divide_fst l (proseStart?_le h),
    LogicalLine.divide, LogicalLine.kind_withSegments] at hheader
  rw [isHeader, hheader.1, endsDivision_of_take h hheader.2]
  rfl

/-- Among the lines that come out and are no prose, the headers are those of the lines that are
read, unless a header is divided itself. -/
lemma filter_isHeader_flagEntries {lines : List LogicalLine}
    (hlines : ∀ l ∈ lines, l.commentEntry = false)
    (hheaders : ∀ l ∈ lines, isHeader l = true → proseStart? d l.content = none) :
    ((LogicalLine.flagEntries d lines).filter fun u => !u.commentEntry).filter isHeader =
      lines.filter isHeader := by
  induction lines using List.reverseRecOn with
  | nil => rfl
  | append_singleton lines l ih =>
    rw [List.forall_mem_append, List.forall_mem_singleton] at hlines hheaders
    rw [flagEntries_concat, List.filter_append, List.filter_append, List.filter_append,
      ih hlines.1 hheaders.1]
    congr 1
    have hout := becomes_step (d := d) (progressAfter d lines) l
    generalize (step d (progressAfter d lines) l).2 = out at hout
    cases hout with
    | kept => simp [hlines.2]
    | prose isCode goesOn =>
      have hplain : isHeader l = false := by
        rw [isTerminator, Bool.or_eq_false_iff] at goesOn
        rw [isHeader, endsDivision, goesOn.1, Bool.and_false]
      simp [hplain]
    | @divided n isCode start =>
      have hplain : isHeader l = false := by
        by_contra hheader
        rw [hheaders.2 (by simpa using hheader)] at start
        cases start
      have hhead : isHeader (l.divide n).1 = false := by
        by_contra hheader
        rw [isHeader_of_divide_fst start (by simpa using hheader)] at hplain
        cases hplain
      simp [hplain, hhead]

/-- Unless a header is divided itself, the last header that came out in front of prose, and is no
prose, is one of an identification division. -/
lemma BehindTriggerLine.header {lines pre : List LogicalLine} (h : BehindTriggerLine d lines pre)
    (hlines : ∀ l ∈ lines, l.commentEntry = false)
    (hheaders : ∀ l ∈ lines, isHeader l = true → proseStart? d l.content = none) :
    AfterIdentificationHeader (pre.filter fun u => !u.commentEntry) := by
  obtain ⟨before, l, later, t, tail, mid, rfl, hopening, ht, htail, htrigger, rfl, hmid⟩ := h
  have hsub : ∀ u ∈ before ++ [l], u ∈ before ++ l :: later := by
    intro u hu
    rw [List.append_cons]
    exact List.mem_append_left later hu
  have hfilter := filter_isHeader_flagEntries (fun u hu => hlines u (hsub u hu))
    fun u hu => hheaders u (hsub u hu)
  have htailNone : tail.filter (fun u => !u.commentEntry) = [] := by
    rw [List.filter_eq_nil_iff]
    intro u hu
    simp [htail u hu]
  have hmidNone : (mid.filter fun u => !u.commentEntry).filter isHeader = [] := by
    rw [List.filter_filter, List.filter_eq_nil_iff]
    intro u hu
    rw [isHeader]
    cases hcode : u.kind.isCode with
    | false => simp
    | true => simp [hmid u hu hcode]
  have hsame : ((LogicalLine.flagEntries d before ++ t :: mid).filter fun u =>
      !u.commentEntry).filter isHeader = (before ++ [l]).filter isHeader := by
    rw [← hfilter, ht, List.append_cons _ t mid, List.append_cons _ t tail,
      List.filter_append _ mid, List.filter_append, hmidNone, List.filter_append _ tail, htailNone]
    simp
  have hheader := hopening.header
  rw [AfterIdentificationHeader] at hheader ⊢
  rwa [hsame]

end Outcomes

end CommentEntry

namespace LogicalLine

open CommentEntry

/-- The search for comment entries keeps every character of the lines at its place, and every line
is kept, flagged or divided.  What is flagged stands behind a trigger line of an identification
division, with no other code in between than flagged code.  Which division it is in, the headers up
to the line that opens the entry say; unless a header is divided itself, so do the headers that come
out in front of it.  Behind a line that opens an entry, lines of code are flagged as a whole up to
the first one that ends the entry. -/
theorem flagEntries_flags {d : Dialect} {lines : List LogicalLine}
    (hlines : ∀ l ∈ lines, l.commentEntry = false) :
    (flagEntries d lines).flatMap cells = lines.flatMap cells ∧
    (∀ before l later, lines = before ++ l :: later → ∃ out,
      flagEntries d (before ++ [l]) = flagEntries d before ++ out ∧
      flagEntries d (before ++ [l]) <+: flagEntries d lines ∧ Becomes d l out) ∧
    (∀ pre f post, flagEntries d lines = pre ++ f :: post → f.commentEntry = true →
      BehindTriggerLine d lines pre ∧
      ((∀ l ∈ lines, isHeader l = true → proseStart? d l.content = none) →
        AfterIdentificationHeader (pre.filter fun u => !u.commentEntry))) ∧
    ∀ before l mid u later, lines = before ++ l :: (mid ++ u :: later) → OpeningLine d before l →
      u.kind.isCode = true → (∀ v ∈ mid, v.kind.isCode = true → isTerminator d v.content = false) →
      (FlaggedWhole d (before ++ l :: mid) u ↔ isTerminator d u.content = false) := by
  refine ⟨cells_flagFrom d .initial lines, ?_, ?_, ?_⟩
  · rintro before l later rfl
    refine ⟨_, flagEntries_concat before l, ?_, becomes_step _ l⟩
    rw [List.append_cons before l later, flagEntries_append (before ++ [l]) later]
    exact List.prefix_append _ _
  · intro pre f post h hf
    have hbehind := behindTriggerLine_of_flagged hlines h hf
    exact ⟨hbehind, hbehind.header hlines⟩
  · rintro before l mid u later rfl hopening hcode hmid
    exact hopening.flaggedWhole_iff (hlines u (by simp)) hcode hmid

/-- A line that opens an entry. -/
def authorLine : LogicalLine :=
  sampleCode "AUTHOR" 1 "AUTHOR. JO".toList

/-- A line of prose that starts with a word of a header. -/
def entryLine : LogicalLine :=
  sampleCode "AUTHOR" 2 "ID DO".toList

/-- A line that closes the entry. -/
def headerLine : LogicalLine :=
  sampleCode "AUTHOR" 3 "DATA DIVISION.".toList

/-- An entry of two lines in front of a division header. -/
def authorLines : List LogicalLine :=
  [authorLine, entryLine, headerLine]

lemma proseStart?_authorLine : proseStart? .ansi85 authorLine.content = some 7 := by
  cbv

lemma openingLine_authorLine : OpeningLine .ansi85 [] authorLine := by
  refine (openingLine_iff rfl).mpr ⟨⟨rfl, by cbv, ?_⟩, fun h => by cases h⟩
  rw [proseStart?_authorLine]
  rfl

/-- The keyword stands on its own, and the name behind it is flagged. -/
lemma flagEntries_authorLines :
    flagEntries .ansi85 authorLines = [(authorLine.divide 7).1] ++
      { (authorLine.divide 7).2 with commentEntry := true } ::
        flagFrom .ansi85 ⟨true, true⟩ [entryLine, headerLine] := by
  have hcode : authorLine.kind.isCode = true := rfl
  have hstays : staysInIdentification true authorLine.content = true := by cbv
  have hblank : Text.isBlankText (authorLine.content.drop 7) = false := by cbv
  have hstep : step .ansi85 .initial authorLine = (⟨true, true⟩, [(authorLine.divide 7).1,
      { (authorLine.divide 7).2 with commentEntry := true }]) := by
    simp [step, openEntry, CommentEntry.Progress.initial, hcode, proseStart?_authorLine, hstays,
      hblank]
  rw [flagEntries, authorLines, flagFrom, hstep]
  rfl

/-- The name of the author is flagged behind its keyword, the line below it as a whole, and the
division header is not flagged. -/
theorem flagEntries_flags_author :
    (∀ l ∈ authorLines, l.commentEntry = false) ∧
    (flagEntries .ansi85 authorLines).flatMap cells = authorLines.flatMap cells ∧
    (∃ out, flagEntries .ansi85 [authorLine, entryLine] = flagEntries .ansi85 [authorLine] ++ out ∧
      Becomes .ansi85 entryLine out) ∧
    (∃ keyword name post, flagEntries .ansi85 authorLines = [keyword] ++ name :: post ∧
      name.commentEntry = true ∧ BehindTriggerLine .ansi85 authorLines [keyword] ∧
      AfterIdentificationHeader ([keyword].filter fun u => !u.commentEntry)) ∧
    OpeningLine .ansi85 [] authorLine ∧ FlaggedWhole .ansi85 [authorLine] entryLine ∧
    ¬FlaggedWhole .ansi85 [authorLine, entryLine] headerLine := by
  have hentry : isTerminator .ansi85 entryLine.content = false := by cbv
  have hheader : isTerminator .ansi85 headerLine.content = true := by cbv
  have hlines : ∀ l ∈ authorLines, l.commentEntry = false := by decide
  have hheaders : ∀ l ∈ authorLines, isHeader l = true → proseStart? .ansi85 l.content = none := by
    have hall : (authorLines.all fun l =>
        !isHeader l || (proseStart? .ansi85 l.content).isNone) = true := by
      cbv
    intro l hl hheader
    simpa [hheader] using List.all_eq_true.mp hall l hl
  obtain ⟨hcells, hlater, hflagged, hends⟩ := flagEntries_flags (d := .ansi85) hlines
  obtain ⟨out, hflag, -, hbecomes⟩ := hlater [authorLine] entryLine [headerLine] rfl
  obtain ⟨hbehind, hafter⟩ := hflagged _ _ _ flagEntries_authorLines rfl
  refine ⟨hlines, hcells, ⟨out, hflag, hbecomes⟩,
    ⟨_, _, _, flagEntries_authorLines, rfl, hbehind, hafter hheaders⟩, openingLine_authorLine,
    ?_, ?_⟩
  · exact (hends [] _ [] _ [headerLine] rfl openingLine_authorLine rfl (by simp)).mpr hentry
  · exact mt (hends [] _ [entryLine] _ [] rfl openingLine_authorLine rfl (by simp [hentry])).mp
      fun hgoes => absurd (hheader.symm.trans hgoes) (by decide)

end LogicalLine

end CobolText
