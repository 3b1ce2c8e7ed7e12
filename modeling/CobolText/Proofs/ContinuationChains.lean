import CobolText.LogicalLine.Continuation
import Mathlib.Data.List.Basic
import Mathlib.Data.List.Induction

/-!
# Chains of continuation lines

The logical lines of a source cut it into chains of physical lines, and where a chain starts can be
told from two neighbouring lines alone: at every line that is no continuation, and at a continuation
that has nothing in front of it or a line that is written out as a comment.  The warnings of a line
can be told from the lines up to it.

The lines are read one after the other, and each is either joined to the last logical line or starts
one.  `addLine` is this step; that a line of code can be joined to is a matter of the last physical
line, because a line that is joined leaves the kind of the logical line as it is.
-/

namespace CobolText

/-- The indicators that stand for anything in a dialect. -/
def Dialect.indicators (d : Dialect) : List Key :=
  d.commentIndicators ++ d.pageEjectIndicators ++ d.continuationIndicators ++ d.debugIndicators ++
    d.directiveIndicators

namespace PhysicalLine

/-- What the indicator of a line, or its content, says about it. -/
def kind (d : Dialect) (l : PhysicalLine) : LineKind :=
  (l.classify d).1

/-- Whether the indicator of a line is not blank and stands for nothing in the dialect. -/
def HasStrangeIndicator (d : Dialect) (l : PhysicalLine) : Prop :=
  l.format ≠ .free ∧ isBlankIndicator l.indicator = false ∧
    Key.text (String.ofList l.indicator) ∉ d.indicators

instance (d : Dialect) (l : PhysicalLine) : Decidable (l.HasStrangeIndicator d) :=
  inferInstanceAs (Decidable (_ ∧ _))

lemma kindOfIndicator?_eq_none_iff {d : Dialect} {indicator : Key} :
    kindOfIndicator? d indicator = none ↔ indicator ∉ d.indicators := by
  simp only [kindOfIndicator?, Dialect.indicators, List.mem_append, List.contains_iff_mem]
  repeat' split
  all_goals simp_all

/-- A line with a strange indicator is taken as a normal one, with a warning, and no other line
gets a warning by its indicator alone. -/
lemma classify_eq (d : Dialect) (l : PhysicalLine) :
    l.classify d = if l.HasStrangeIndicator d then
        (.normal, some ⟨.unknownIndicator l.indicator, l.position (-1)⟩)
      else (l.kind d, none) := by
  unfold kind classify
  by_cases hfree : l.format = .free
  · have hplain : ¬l.HasStrangeIndicator d := fun h => h.1 hfree
    simp [hfree, hplain]
  by_cases hblank : isBlankIndicator l.indicator = true
  · have hplain : ¬l.HasStrangeIndicator d := fun h => absurd hblank (by simp [h.2.1])
    simp [hfree, hblank, hplain]
  cases hkind : kindOfIndicator? d (String.ofList l.indicator) with
  | none =>
    have hstrange : l.HasStrangeIndicator d :=
      ⟨hfree, by simpa using hblank, kindOfIndicator?_eq_none_iff.mp hkind⟩
    simp [hfree, hblank, hstrange]
  | some kind =>
    have hplain : ¬l.HasStrangeIndicator d := fun h => by
      simp [kindOfIndicator?_eq_none_iff.mpr h.2.2] at hkind
    simp [hfree, hblank, hplain]

lemma kind_of_hasStrangeIndicator {d : Dialect} {l : PhysicalLine}
    (h : l.HasStrangeIndicator d) : l.kind d = .normal := by
  rw [kind, classify_eq, if_pos h]

lemma source_firstSegment (l : PhysicalLine) (kind : LineKind) :
    (l.firstSegment kind).source = l := by
  simp only [firstSegment]
  split <;> rfl

end PhysicalLine

namespace LogicalLine

section Reading

variable {d : Dialect}

/-- The logical line that a physical line starts; a continuation that starts one is taken as a
normal line. -/
def start (d : Dialect) (line : PhysicalLine) : LogicalLine :=
  let kind := if line.kind d = .continuation then .normal else line.kind d
  single kind (line.firstSegment kind)

/-- Reads a line that starts a logical line. -/
def startLine (d : Dialect) (read : List LogicalLine × List Diagnostic) (line : PhysicalLine) :
    List LogicalLine × List Diagnostic :=
  (read.1 ++ [start d line], read.2 ++
    if line.kind d = .continuation then [⟨.orphanContinuation, line.position (-1)⟩]
    else (line.classify d).2.toList)

/-- Reads one more line behind those that are read. -/
def addLine (d : Dialect) (read : List LogicalLine × List Diagnostic) (line : PhysicalLine) :
    List LogicalLine × List Diagnostic :=
  match read.1.getLast? with
  | some last =>
    if line.kind d = .continuation ∧ last.kind.isCode then
      (read.1.dropLast ++ [last.extend d line], read.2 ++
        if (last.extend d line).lastIsBlank then [⟨.emptyContinuation, line.position 0⟩] else [])
    else startLine d read line
  | none => startLine d read line

lemma addLine_concat (init : List LogicalLine) (last : LogicalLine) (warnings : List Diagnostic)
    (line : PhysicalLine) :
    addLine d (init ++ [last], warnings) line =
      if line.kind d = .continuation ∧ last.kind.isCode then
        (init ++ [last.extend d line], warnings ++
          if (last.extend d line).lastIsBlank then [⟨.emptyContinuation, line.position 0⟩] else [])
      else startLine d (init ++ [last], warnings) line := by
  simp [addLine]

lemma foldl_addLine_concat (init : List LogicalLine) (current : LogicalLine)
    (warnings : List Diagnostic) (lines : List PhysicalLine) :
    lines.foldl (addLine d) (init ++ [current], warnings) =
      (init ++ (gather d current lines).1, warnings ++ (gather d current lines).2) := by
  induction lines generalizing init current warnings with
  | nil => simp [gather]
  | cons line lines ih =>
    have hkind : (line.classify d).1 = line.kind d := rfl
    rw [List.foldl_cons, addLine_concat]
    simp only [gather, hkind, beq_iff_eq]
    by_cases hcontinuation : line.kind d = .continuation
    · by_cases hcode : current.kind.isCode = true
      · rw [if_pos ⟨hcontinuation, hcode⟩, if_pos hcontinuation, if_pos hcode, ih]
        simp
      · rw [if_neg fun h => hcode h.2, if_pos hcontinuation, if_neg hcode, startLine, ih]
        simp [start, hcontinuation]
    · rw [if_neg fun h => hcontinuation h.1, if_neg hcontinuation, startLine, ih]
      simp [start, hcontinuation]

/-- The lines of a source are read one after the other. -/
lemma ofPhysical_eq_foldl (lines : List PhysicalLine) :
    ofPhysical d lines = lines.foldl (addLine d) ([], []) := by
  cases lines with
  | nil => rfl
  | cons line lines =>
    have hkind : (line.classify d).1 = line.kind d := rfl
    have hfirst : addLine d ([], []) line = startLine d ([], []) line := rfl
    rw [List.foldl_cons, hfirst, startLine, foldl_addLine_concat]
    simp only [ofPhysical, hkind, beq_iff_eq]
    by_cases hcontinuation : line.kind d = .continuation
    · rw [if_pos hcontinuation, if_pos hcontinuation]
      simp [start, hcontinuation]
    · rw [if_neg hcontinuation, if_neg hcontinuation]
      simp [start, hcontinuation]

lemma ofPhysical_concat (lines : List PhysicalLine) (line : PhysicalLine) :
    ofPhysical d (lines ++ [line]) = addLine d (ofPhysical d lines) line := by
  rw [ofPhysical_eq_foldl, ofPhysical_eq_foldl, List.foldl_append, List.foldl_cons, List.foldl_nil]

/-- Whether a line is joined to the logical line before it, where `before` are the physical lines
before it. -/
def Joins (d : Dialect) (before : List PhysicalLine) (line : PhysicalLine) : Prop :=
  line.kind d = .continuation ∧ ∃ last ∈ before.getLast?, (last.kind d).isCommentLike = false

instance (before : List PhysicalLine) (line : PhysicalLine) : Decidable (Joins d before line) :=
  inferInstanceAs (Decidable (_ ∧ _))

lemma isCode_start (line : PhysicalLine) :
    (start d line).kind.isCode = !(line.kind d).isCommentLike := by
  unfold start
  cases hkind : line.kind d <;> rfl

/-- A continuation can follow the last logical line unless the last physical line is written out as
a comment. -/
lemma isCode_getLast?_ofPhysical (lines : List PhysicalLine) :
    (ofPhysical d lines).1.getLast?.map (·.kind.isCode) =
      lines.getLast?.map fun line => !(line.kind d).isCommentLike := by
  induction lines using List.reverseRecOn with
  | nil => rfl
  | append_singleton lines line ih =>
    have hstart : (startLine d (ofPhysical d lines) line).1.getLast?.map (·.kind.isCode) =
        some (!(line.kind d).isCommentLike) := by
      simp [startLine, isCode_start]
    rw [ofPhysical_concat, List.getLast?_concat, Option.map_some]
    unfold addLine
    split
    · split
      · -- A line that is joined leaves the kind as it is.
        rename_i last hlast hjoined
        simp [extend, hjoined, LineKind.isCommentLike]
      · exact hstart
    · exact hstart

lemma joins_iff {lines : List PhysicalLine} {line : PhysicalLine} :
    Joins d lines line ↔ line.kind d = .continuation ∧
      ∃ last ∈ (ofPhysical d lines).1.getLast?, last.kind.isCode = true := by
  have hlast := isCode_getLast?_ofPhysical (d := d) lines
  refine and_congr_right fun _ => ?_
  cases hphysical : lines.getLast? <;> cases hlogical : (ofPhysical d lines).1.getLast? <;>
    simp_all

lemma ofPhysical_concat_of_joins {lines : List PhysicalLine} {line : PhysicalLine}
    (h : Joins d lines line) : ∃ init last, (ofPhysical d lines).1 = init ++ [last] ∧
      last.kind.isCode = true ∧ ofPhysical d (lines ++ [line]) =
        (init ++ [last.extend d line], (ofPhysical d lines).2 ++
          if (last.extend d line).lastIsBlank then [⟨.emptyContinuation, line.position 0⟩]
          else []) := by
  obtain ⟨hkind, last, hlast, hcode⟩ := joins_iff.mp h
  obtain ⟨init, hinit⟩ := List.getLast?_eq_some_iff.mp hlast
  refine ⟨init, last, hinit, hcode, ?_⟩
  rw [ofPhysical_concat]
  simp [addLine, hinit, hkind, hcode]

lemma ofPhysical_concat_of_not_joins {lines : List PhysicalLine} {line : PhysicalLine}
    (h : ¬Joins d lines line) :
    ofPhysical d (lines ++ [line]) = startLine d (ofPhysical d lines) line := by
  rw [ofPhysical_concat, addLine]
  split
  · rename_i last hlast
    rw [if_neg fun hjoined => h (joins_iff.mpr ⟨hjoined.1, last, hlast, hjoined.2⟩)]
  · rfl

end Reading

section Chains

variable {d : Dialect}

/-- Whether one of the logical lines starts with physical line `k`. -/
def StartsAt (lines : List LogicalLine) (k : Nat) : Prop :=
  ∃ before l after, lines = before ++ l :: after ∧ (before.flatMap provenance).length = k

lemma provenance_start (line : PhysicalLine) : (start d line).provenance = [line] := by
  simp only [provenance, start, single, PhysicalLine.source_firstSegment]

lemma flatMap_provenance_ofPhysical (lines : List PhysicalLine) :
    (ofPhysical d lines).1.flatMap provenance = lines := by
  induction lines using List.reverseRecOn with
  | nil => rfl
  | append_singleton lines line ih =>
    by_cases hjoins : Joins d lines line
    · obtain ⟨init, last, hinit, -, hread⟩ := ofPhysical_concat_of_joins hjoins
      have hextend : (last.extend d line).provenance = last.provenance ++ [line] := rfl
      rw [hinit, List.flatMap_append, List.flatMap_singleton] at ih
      rw [hread, List.flatMap_append, List.flatMap_singleton, hextend, ← List.append_assoc, ih]
    · rw [ofPhysical_concat_of_not_joins hjoins, startLine, List.flatMap_append,
        List.flatMap_singleton, provenance_start, ih]

lemma startsAt_concat {lines : List LogicalLine} {l : LogicalLine} {k : Nat} :
    StartsAt (lines ++ [l]) k ↔ StartsAt lines k ∨ k = (lines.flatMap provenance).length := by
  constructor
  · rintro ⟨before, u, after, heq, rfl⟩
    rcases List.eq_nil_or_concat after with rfl | ⟨mid, v, rfl⟩
    · obtain ⟨rfl, -⟩ := List.append_inj' heq rfl
      exact .inr rfl
    · rw [List.concat_eq_append, ← List.cons_append, ← List.append_assoc] at heq
      obtain ⟨rfl, -⟩ := List.append_inj' heq rfl
      exact .inl ⟨before, u, mid, rfl, rfl⟩
  · rintro (⟨before, u, after, rfl, rfl⟩ | rfl)
    · exact ⟨before, u, after ++ [l], by simp, rfl⟩
    · exact ⟨lines, l, [], rfl, rfl⟩

lemma StartsAt.lt {lines : List LogicalLine} {k : Nat} (h : StartsAt lines k) :
    k < (lines.flatMap provenance).length := by
  obtain ⟨before, l, after, rfl, rfl⟩ := h
  simp only [List.flatMap_append, List.flatMap_cons, List.length_append, provenance,
    List.length_cons]
  omega

lemma startsAt_ofPhysical_concat {lines : List PhysicalLine} {line : PhysicalLine} {k : Nat} :
    StartsAt (ofPhysical d (lines ++ [line])).1 k ↔
      StartsAt (ofPhysical d lines).1 k ∨ k = lines.length ∧ ¬Joins d lines line := by
  by_cases hjoins : Joins d lines line
  · obtain ⟨init, last, hinit, -, hread⟩ := ofPhysical_concat_of_joins hjoins
    rw [hread, hinit, startsAt_concat, startsAt_concat]
    simp [hjoins]
  · rw [ofPhysical_concat_of_not_joins hjoins, startLine, startsAt_concat,
      flatMap_provenance_ofPhysical]
    simp [hjoins]

lemma startsAt_ofPhysical_iff (lines : List PhysicalLine) {k : Nat} (h : k < lines.length) :
    StartsAt (ofPhysical d lines).1 k ↔ ¬Joins d (lines.take k) lines[k] := by
  induction lines using List.reverseRecOn with
  | nil => simp at h
  | append_singleton lines line ih =>
    rw [startsAt_ofPhysical_concat]
    rw [List.length_append, List.length_singleton] at h
    by_cases hk : k < lines.length
    · rw [ih hk, List.take_append_of_le_length (by omega), List.getElem_append_left hk]
      simp [Nat.ne_of_lt hk]
    · obtain rfl : k = lines.length := by omega
      have hnot : ¬StartsAt (ofPhysical d lines).1 lines.length := by
        intro hstarts
        have hlt := hstarts.lt
        rw [flatMap_provenance_ofPhysical] at hlt
        omega
      simp [hnot]

end Chains

section Warnings

variable {d : Dialect}

/-- What a continuation line brings: its content without the blanks in front, and without the quote
that comes first if a literal is open. -/
def broughtText (literalOpen : Bool) (line : PhysicalLine) : List Char :=
  match Text.trimLeft line.content with
  | [] => []
  | c :: rest => if literalOpen && Text.isQuote c then rest else c :: rest

/-- Whether some lines leave a literal open: whether the content of the last logical line does. -/
def leavesLiteralOpen (floating : Bool) (d : Dialect) (lines : List PhysicalLine) : Bool :=
  (ofPhysical d lines).1.getLast?.any fun last => (openQuote floating last.content).isSome

/-- The warning about a line, told from the physical lines before it. -/
def warning? (d : Dialect) (before : List PhysicalLine) (line : PhysicalLine) :
    Option Diagnostic :=
  if line.HasStrangeIndicator d then
    some ⟨.unknownIndicator line.indicator, line.position (-1)⟩
  else if line.kind d ≠ .continuation then none
  else if Joins d before line then
    let literalOpen := leavesLiteralOpen (d.hasFloatingComments line.format) d before
    if Text.isBlankText (broughtText literalOpen line) then
      some ⟨.emptyContinuation, line.position 0⟩
    else none
  else some ⟨.orphanContinuation, line.position (-1)⟩

lemma text_continuationSegment (line : PhysicalLine) (literalOpen : Bool) :
    (continuationSegment line literalOpen).text = broughtText literalOpen line := by
  unfold continuationSegment broughtText
  cases Text.trimLeft line.content with
  | nil => simp
  | cons c rest =>
    cases literalOpen <;> cases hquote : Text.isQuote c <;> simp [hquote, Segment.drop]

lemma lastIsBlank_extend (l : LogicalLine) (line : PhysicalLine) :
    (l.extend d line).lastIsBlank = Text.isBlankText (broughtText
      (openQuote (d.hasFloatingComments line.format) l.content).isSome line) := by
  simp [lastIsBlank, extend, text_continuationSegment]

lemma warnings_ofPhysical_concat (lines : List PhysicalLine) (line : PhysicalLine) :
    (ofPhysical d (lines ++ [line])).2 =
      (ofPhysical d lines).2 ++ (warning? d lines line).toList := by
  by_cases hjoins : Joins d lines line
  · obtain ⟨init, last, hinit, -, hread⟩ := ofPhysical_concat_of_joins hjoins
    have hplain : ¬line.HasStrangeIndicator d := fun hstrange => by
      have hkind := hjoins.1
      rw [PhysicalLine.kind_of_hasStrangeIndicator hstrange] at hkind
      exact absurd hkind (by decide)
    have hopen : leavesLiteralOpen (d.hasFloatingComments line.format) d lines =
        (openQuote (d.hasFloatingComments line.format) last.content).isSome := by
      simp [leavesLiteralOpen, hinit]
    rw [hread, lastIsBlank_extend, warning?, if_neg hplain, if_neg (not_not.mpr hjoins.1),
      if_pos hjoins]
    simp only [hopen]
    split <;> rfl
  · rw [ofPhysical_concat_of_not_joins hjoins, startLine, warning?, PhysicalLine.classify_eq]
    by_cases hstrange : line.HasStrangeIndicator d
    · simp [hstrange, PhysicalLine.kind_of_hasStrangeIndicator hstrange]
    · by_cases hkind : line.kind d = .continuation <;> simp [hstrange, hkind, hjoins]

lemma warnings_ofPhysical (lines : List PhysicalLine) :
    (ofPhysical d lines).2 = (List.range lines.length).filterMap fun k =>
      lines[k]?.bind (warning? d (lines.take k)) := by
  induction lines using List.reverseRecOn with
  | nil => rfl
  | append_singleton lines line ih =>
    have hbefore : ∀ k ∈ List.range lines.length,
        ((lines ++ [line])[k]?.bind (warning? d ((lines ++ [line]).take k))) =
          lines[k]?.bind (warning? d (lines.take k)) := by
      intro k hk
      have hlt := List.mem_range.mp hk
      rw [List.getElem?_append_left hlt, List.take_append_of_le_length (by omega)]
    rw [warnings_ofPhysical_concat, ih, List.length_append, List.length_singleton,
      List.range_succ, List.filterMap_append, List.filterMap_congr hbefore]
    cases hwarning : warning? d lines line <;> simp [hwarning]

end Warnings

/-- The logical lines of a source hold its physical lines, each once and in their order.  One starts
at a line exactly if the line is no continuation, is the first one or stands right behind a line
that is written out as a comment.  A line gives at most one warning: for an indicator that stands
for nothing, for a continuation that starts a logical line, or for one that is joined and brings no
more than blanks. -/
theorem chains_of_ofPhysical (d : Dialect) (lines : List PhysicalLine) :
    (ofPhysical d lines).1.flatMap provenance = lines ∧
    (∀ k (h : k < lines.length), StartsAt (ofPhysical d lines).1 k ↔
      lines[k].kind d ≠ .continuation ∨ k = 0 ∨ (lines[k - 1].kind d).isCommentLike = true) ∧
    (ofPhysical d lines).2 = (List.range lines.length).filterMap fun k =>
      lines[k]?.bind (warning? d (lines.take k)) := by
  refine ⟨flatMap_provenance_ofPhysical lines, fun k h => ?_, warnings_ofPhysical lines⟩
  rw [startsAt_ofPhysical_iff lines h, Joins, not_and_or]
  refine or_congr_right ?_
  cases k with
  | zero => simp
  | succ k => simp [List.getLast?_take, List.getElem?_eq_getElem (show k < lines.length by omega)]

/-- A comment, two continuations, the second of which is blank, and a line with an unknown
indicator. -/
def orphanLines : List PhysicalLine :=
  [['*'], ['-', 'A'], ['-', ' '], ['?', 'B']].zipIdx.map fun (raw, i) =>
    PhysicalLine.divide .ansi85 .tandem "ORPHAN" (i + 1) raw

theorem chains_of_ofPhysical_orphan :
    StartsAt (ofPhysical .ansi85 orphanLines).1 1 ∧ ¬StartsAt (ofPhysical .ansi85 orphanLines).1 2 ∧
    (ofPhysical .ansi85 orphanLines).2.map (·.problem) =
      [.orphanContinuation, .emptyContinuation, .unknownIndicator ['?']] := by
  obtain ⟨-, hstarts, hwarnings⟩ := chains_of_ofPhysical .ansi85 orphanLines
  refine ⟨(hstarts 1 (by decide)).mpr (by decide), mt (hstarts 2 (by decide)).mp (by decide), ?_⟩
  rw [hwarnings]
  decide

end LogicalLine

end CobolText
