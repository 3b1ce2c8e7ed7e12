import CobolText.Proofs.LineOrder
import Mathlib.Data.List.Induction

/-!
# The prose of a unit

The comment entries of a unit, told without the state of the reader.  A line of code opens an entry
if it starts with the keyword of a paragraph with prose and the lines of the unit up to it leave the
unit in its identification division, in which every unit starts.  The entry goes on up to the next
line of code that ends it.  Prose is what stands on the lines inside of an entry, and what stands
behind the keyword on a line that opens one; no other character of the unit is flagged.
-/

namespace CobolText

namespace CommentEntry

/-- Whether a unit is in its identification division after some of its lines. -/
def inIdentification (lines : List LogicalLine) : Bool :=
  lines.foldl
    (fun inside l => if l.kind.isCode then staysInIdentification inside l.content else inside) true

/-- Whether a line opens a comment entry behind the lines `before`. -/
structure Opens (d : Dialect) (before : List LogicalLine) (l : LogicalLine) : Prop where
  isCode : l.kind.isCode = true
  inside : inIdentification (before ++ [l]) = true
  keyword : (proseStart? d l.content).isSome = true

/-- Whether a comment entry is open after some lines: one of them opens it, and no line of code
behind that one ends it. -/
def InEntry (d : Dialect) (lines : List LogicalLine) : Prop :=
  ∃ before l after, lines = before ++ l :: after ∧ Opens d before l ∧
    ∀ u ∈ after, u.kind.isCode = true → isTerminator d u.content = false

/-- Whether a line behind the lines `before` holds prose from an offset on: a line inside of an
entry from its start on, and a line that opens an entry behind its keyword, unless only blanks
follow there. -/
inductive ProseFrom (d : Dialect) (before : List LogicalLine) (l : LogicalLine) : Nat → Prop
  | entry (isCode : l.kind.isCode = true) (inEntry : InEntry d before)
      (goesOn : isTerminator d l.content = false) : ProseFrom d before l 0
  | keyword {n : Nat} (opens : Opens d before l)
      (outside : InEntry d before → isTerminator d l.content = true)
      (start : proseStart? d l.content = some n)
      (prose : Text.isBlankText (l.content.drop n) = false) : ProseFrom d before l n

lemma inIdentification_concat (lines : List LogicalLine) (l : LogicalLine) :
    inIdentification (lines ++ [l]) =
      if l.kind.isCode then staysInIdentification (inIdentification lines) l.content
      else inIdentification lines := by
  simp only [inIdentification, List.foldl_append, List.foldl_cons, List.foldl_nil]

lemma opens_iff {d : Dialect} {lines : List LogicalLine} {l : LogicalLine}
    (h : l.kind.isCode = true) :
    Opens d lines l ↔ (staysInIdentification (inIdentification lines) l.content &&
      (proseStart? d l.content).isSome) = true := by
  have hinside := inIdentification_concat lines l
  rw [if_pos h] at hinside
  rw [Bool.and_eq_true]
  constructor
  · intro hopens
    rw [← hinside]
    exact ⟨hopens.inside, hopens.keyword⟩
  · rintro ⟨hstays, hkeyword⟩
    rw [← hinside] at hstays
    exact ⟨h, hstays, hkeyword⟩

lemma inEntry_concat {d : Dialect} {lines : List LogicalLine} {l : LogicalLine} :
    InEntry d (lines ++ [l]) ↔ Opens d lines l ∨
      InEntry d lines ∧ (l.kind.isCode = true → isTerminator d l.content = false) := by
  constructor
  · rintro ⟨before, u, after, heq, hopens, hafter⟩
    rcases List.eq_nil_or_concat after with rfl | ⟨mid, v, rfl⟩
    · obtain ⟨rfl, hu⟩ := List.append_inj' heq rfl
      rw [(List.cons.inj hu).1]
      exact .inl hopens
    · rw [List.concat_eq_append, ← List.cons_append, ← List.append_assoc] at heq
      obtain ⟨rfl, hv⟩ := List.append_inj' heq rfl
      rw [(List.cons.inj hv).1]
      refine .inr ⟨⟨before, u, mid, rfl, hopens, fun x hx => hafter x ?_⟩, hafter v ?_⟩
      · simp [hx]
      · simp
  · rintro (hopens | ⟨⟨before, u, after, rfl, hopens, hafter⟩, hl⟩)
    · exact ⟨lines, l, [], rfl, hopens, by simp⟩
    · refine ⟨before, u, after ++ [l], by simp, hopens, fun x hx => ?_⟩
      rcases List.mem_append.mp hx with hx | hx
      · exact hafter x hx
      · rw [List.mem_singleton.mp hx]
        exact hl

lemma staysInIdentification_of_not_terminator {d : Dialect} {content : List Char}
    (h : isTerminator d content = false) (inside : Bool) :
    staysInIdentification inside content = inside := by
  simp only [isTerminator, Bool.or_eq_false_iff, Option.isSome_eq_false_iff,
    Option.isNone_iff_eq_none] at h
  simp only [staysInIdentification, h.1.1, h.1.2, Bool.false_eq_true, if_false]

/-- Where the reader stands after some lines. -/
structure StandsAfter (d : Dialect) (lines : List LogicalLine) (p : Progress) : Prop where
  division : p.inIdentification = inIdentification lines
  entry : p.inEntry = true ↔ InEntry d lines

lemma standsAfter_initial (d : Dialect) : StandsAfter d [] Progress.initial := by
  refine ⟨rfl, ?_⟩
  simp [Progress.initial, InEntry]

lemma openEntry_fst (d : Dialect) (inside : Bool) (l : LogicalLine) :
    (openEntry d inside l).1 = ⟨staysInIdentification inside l.content,
      staysInIdentification inside l.content && (proseStart? d l.content).isSome⟩ := by
  unfold openEntry
  cases hinside : staysInIdentification inside l.content with
  | false => simp [hinside]
  | true =>
    cases hstart : proseStart? d l.content with
    | none => simp [hinside, hstart]
    | some n =>
      simp only [hinside, hstart, if_true]
      split <;> rfl

lemma StandsAfter.step {d : Dialect} {lines : List LogicalLine} {p : Progress}
    (h : StandsAfter d lines p) (l : LogicalLine) :
    StandsAfter d (lines ++ [l]) (CommentEntry.step d p l).1 := by
  unfold CommentEntry.step
  by_cases hcode : l.kind.isCode = true
  · rw [if_neg (by simp [hcode])]
    by_cases hgoes : (p.inEntry && !isTerminator d l.content) = true
    · rw [if_pos hgoes]
      rw [Bool.and_eq_true, Bool.not_eq_true'] at hgoes
      -- A line of the entry is no division header, so the division goes on.
      refine ⟨?_, iff_of_true hgoes.1 ?_⟩
      · rw [inIdentification_concat, if_pos hcode,
          staysInIdentification_of_not_terminator hgoes.2]
        exact h.division
      · exact inEntry_concat.mpr (.inr ⟨h.entry.mp hgoes.1, fun _ => hgoes.2⟩)
    · rw [if_neg hgoes, openEntry_fst, h.division]
      refine ⟨?_, ?_⟩
      · rw [inIdentification_concat, if_pos hcode]
      · -- An entry that was open is ended by this line.
        have hended : ¬(InEntry d lines ∧ (l.kind.isCode = true →
            isTerminator d l.content = false)) := by
          rintro ⟨hentry, hl⟩
          rw [h.entry.mpr hentry, hl hcode] at hgoes
          exact hgoes rfl
        rw [inEntry_concat, or_iff_left hended, opens_iff hcode]
  · rw [if_pos (by simpa using hcode)]
    refine ⟨?_, ?_⟩
    · rw [inIdentification_concat, if_neg hcode]
      exact h.division
    · rw [inEntry_concat, h.entry]
      constructor
      · intro hentry
        exact .inr ⟨hentry, fun hl => absurd hl hcode⟩
      · rintro (hopens | ⟨hentry, -⟩)
        · exact absurd hopens.isCode hcode
        · exact hentry

lemma flagFrom_of_no_keyword {d : Dialect} {lines : List LogicalLine}
    (h : ∀ l ∈ lines, proseStart? d l.content = none) (inside : Bool) :
    flagFrom d ⟨inside, false⟩ lines = lines := by
  induction lines generalizing inside with
  | nil => rfl
  | cons l lines ih =>
    have hstep : ∃ later, step d ⟨inside, false⟩ l = (⟨later, false⟩, [l]) := by
      unfold step
      split
      · exact ⟨inside, rfl⟩
      · simp [openEntry, h l (by simp)]
    obtain ⟨later, hstep⟩ := hstep
    simp only [flagFrom, hstep]
    rw [ih fun u hu => h u (by simp [hu])]
    rfl

lemma proseStart?_le {d : Dialect} {content : List Char} {n : Nat}
    (h : proseStart? d content = some n) : n ≤ content.length := by
  obtain ⟨rest, -, rfl⟩ := Option.map_eq_some_iff.mp h
  omega

end CommentEntry

namespace LogicalLine

open CommentEntry

/-- The characters of the lines that are flagged, with their positions. -/
def prose (lines : List LogicalLine) : List (Char × Position) :=
  lines.flatMap fun l => if l.commentEntry then l.cells else []

lemma prose_append (as bs : List LogicalLine) : prose (as ++ bs) = prose as ++ prose bs :=
  List.flatMap_append

lemma length_divideSegments {offset consumed : Nat} {segments : List Segment}
    (h : consumed ≤ offset) (h' : offset ≤ consumed + (segments.flatMap Segment.cells).length) :
    ((divideSegments offset consumed segments).1.flatMap Segment.cells).length =
      offset - consumed := by
  induction segments generalizing consumed with
  | nil =>
    simp only [List.flatMap_nil, List.length_nil] at h'
    simp only [divideSegments, List.flatMap_nil, List.length_nil]
    omega
  | cons s rest ih =>
    simp only [List.flatMap_cons, List.length_append, Segment.length_cells] at h'
    simp only [divideSegments]
    by_cases hwhole : (consumed : Int) + s.text.length ≤ offset
    · rw [if_pos hwhole]
      simp only [List.flatMap_cons, List.length_append, Segment.length_cells]
      rw [ih (by omega) (by omega)]
      omega
    · have hrest : (offset : Int) < (consumed + s.text.length : Nat) := by omega
      rw [if_neg hwhole, divideSegments_of_lt hrest]
      split
      · simp only [List.flatMap_nil, List.length_nil]
        omega
      · simp only [List.flatMap_cons, List.flatMap_nil, List.append_nil, Segment.length_cells,
          Segment.take, List.length_take]
        omega

lemma cells_divide_snd (l : LogicalLine) {n : Nat} (h : n ≤ l.content.length) :
    (l.divide n).2.cells = l.cells.drop n := by
  rw [← length_cells] at h
  have hlength : (l.divide n).1.cells.length = n := by
    simp only [cells, divide, segments_withSegments]
    rw [length_divideSegments (Nat.zero_le n) (by rw [Nat.zero_add]; exact h)]
    rfl
  rw [← cells_divide l n, List.drop_left' hlength]

lemma commentEntry_withSegments (l : LogicalLine) (segments : List Segment) :
    (l.withSegments segments).commentEntry = l.commentEntry := by
  unfold withSegments
  split <;> rfl

/-- Outside of an entry, the reader flags what stands behind the keyword of a line that opens
one. -/
lemma mem_prose_openEntry {d : Dialect} {lines : List LogicalLine} {l : LogicalLine}
    (hcode : l.kind.isCode = true) (hl : l.commentEntry = false) (x : Char × Position) :
    x ∈ prose (openEntry d (inIdentification lines) l).2 ↔ Opens d lines l ∧
      ∃ k, proseStart? d l.content = some k ∧ Text.isBlankText (l.content.drop k) = false ∧
        x ∈ l.cells.drop k := by
  have hplain : x ∉ prose [l] := by simp [prose, hl]
  have hiff : Opens d lines l ↔ _ := opens_iff hcode
  unfold openEntry
  by_cases hopens : Opens d lines l
  · have hboth := hiff.mp hopens
    rw [Bool.and_eq_true] at hboth
    obtain ⟨n, hn⟩ := Option.isSome_iff_exists.mp hboth.2
    simp only [hboth.1, if_true, hn, Option.some.injEq, exists_eq_left', hopens, true_and]
    by_cases hblank : Text.isBlankText (l.content.drop n) = true
    · rw [if_pos hblank, hblank]
      exact iff_of_false hplain (by simp)
    · have hcells : prose [(l.divide n).1, { (l.divide n).2 with commentEntry := true }] =
          l.cells.drop n := by
        rw [← cells_divide_snd l (proseStart?_le hn)]
        simp [prose, cells, divide, commentEntry_withSegments, hl]
      rw [if_neg hblank]
      simp only [hcells, Bool.eq_false_iff.mpr hblank, true_and]
  · have hnone : (if staysInIdentification (inIdentification lines) l.content = true then
        proseStart? d l.content else none) = none := by
      by_contra hsome
      rw [hiff] at hopens
      split at hsome
      · rename_i hstays
        cases hstart : proseStart? d l.content with
        | none => exact hsome hstart
        | some n => simp [hstays, hstart] at hopens
      · exact hsome rfl
    simp only [hnone, hopens, false_and, iff_false]
    exact hplain

lemma mem_prose_step {d : Dialect} {lines : List LogicalLine} {p : CommentEntry.Progress}
    (h : StandsAfter d lines p) {l : LogicalLine} (hl : l.commentEntry = false)
    (x : Char × Position) :
    x ∈ prose (step d p l).2 ↔ ∃ k, ProseFrom d lines l k ∧ x ∈ l.cells.drop k := by
  have hentry : (p.inEntry && !isTerminator d l.content) = true ↔
      InEntry d lines ∧ isTerminator d l.content = false := by
    rw [Bool.and_eq_true, Bool.not_eq_true', h.entry]
  unfold CommentEntry.step
  by_cases hcode : l.kind.isCode = true
  · rw [if_neg (by simp [hcode])]
    by_cases hgoes : (p.inEntry && !isTerminator d l.content) = true
    · obtain ⟨hin, hterm⟩ := hentry.mp hgoes
      have hcells : prose [{ l with commentEntry := true }] = l.cells := by simp [prose, cells]
      rw [if_pos hgoes, hcells]
      constructor
      · intro hx
        exact ⟨0, .entry hcode hin hterm, hx⟩
      · rintro ⟨k, -, hx⟩
        exact List.mem_of_mem_drop hx
    · rw [if_neg hgoes, h.division, mem_prose_openEntry hcode hl]
      constructor
      · rintro ⟨hopens, k, hstart, hprose, hx⟩
        refine ⟨k, .keyword hopens (fun hin => ?_) hstart hprose, hx⟩
        by_contra hterm
        exact hgoes (hentry.mpr ⟨hin, by simpa using hterm⟩)
      · rintro ⟨k, hk, hx⟩
        cases hk with
        | entry _ hin hterm => exact absurd (hentry.mpr ⟨hin, hterm⟩) hgoes
        | keyword opens _ start prose => exact ⟨opens, k, start, prose, hx⟩
  · rw [if_pos (by simpa using hcode)]
    refine iff_of_false (by simp [prose, hl]) ?_
    rintro ⟨k, hk, -⟩
    cases hk with
    | entry isCode => exact hcode isCode
    | keyword opens => exact hcode opens.isCode

/-- What the reader flags of lines that follow others. -/
lemma mem_prose_flagFrom {d : Dialect} {earlier lines : List LogicalLine}
    {p : CommentEntry.Progress} (h : StandsAfter d earlier p)
    (hlines : ∀ l ∈ lines, l.commentEntry = false) (x : Char × Position) :
    x ∈ prose (flagFrom d p lines) ↔ ∃ before l after k, lines = before ++ l :: after ∧
      ProseFrom d (earlier ++ before) l k ∧ x ∈ l.cells.drop k := by
  induction lines generalizing earlier p with
  | nil => simp [flagFrom, prose]
  | cons l lines ih =>
    have hstep := mem_prose_step h (hlines l (by simp)) x
    have hrest := ih (h.step l) fun u hu => hlines u (by simp [hu])
    simp only [flagFrom, prose_append, List.mem_append, hstep, hrest]
    constructor
    · rintro (⟨k, hk, hx⟩ | ⟨before, u, after, k, rfl, hk, hx⟩)
      · exact ⟨[], l, lines, k, rfl, by simpa using hk, hx⟩
      · exact ⟨l :: before, u, after, k, rfl, by simpa using hk, hx⟩
    · rintro ⟨before, u, after, k, heq, hk, hx⟩
      cases before with
      | nil =>
        obtain ⟨rfl, -⟩ := List.cons.inj heq
        exact .inl ⟨k, by simpa using hk, hx⟩
      | cons first before =>
        obtain ⟨rfl, rfl⟩ := List.cons.inj heq
        exact .inr ⟨before, u, after, k, rfl, by simpa using hk, hx⟩

lemma commentEntry_gather (d : Dialect) {current : LogicalLine} (lines : List PhysicalLine)
    (h : current.commentEntry = false) :
    ∀ l ∈ (gather d current lines).1, l.commentEntry = false := by
  induction lines generalizing current with
  | nil => simpa [gather] using h
  | cons line lines ih =>
    simp only [gather]
    split
    · split
      · exact ih h
      · exact List.forall_mem_cons.mpr ⟨h, ih rfl⟩
    · exact List.forall_mem_cons.mpr ⟨h, ih rfl⟩

lemma commentEntry_ofPhysical (d : Dialect) (lines : List PhysicalLine) :
    ∀ l ∈ (ofPhysical d lines).1, l.commentEntry = false := by
  cases lines with
  | nil => simp [ofPhysical]
  | cons line lines =>
    simp only [ofPhysical]
    split
    · exact commentEntry_gather d lines rfl
    · exact commentEntry_gather d lines rfl

end LogicalLine

/-- The characters that are flagged as prose of a comment entry, with their positions. -/
def proseCells (xs : List TracedChar) : List (Char × Position) :=
  xs.filterMap fun x => x.2.bind fun o =>
    if o.marks.commentEntry then some (x.1, o.position) else none

lemma mem_proseCells {xs : List TracedChar} {c : Char} {position : Position} :
    (c, position) ∈ proseCells xs ↔
      ∃ o, (c, some o) ∈ xs ∧ o.marks.commentEntry = true ∧ o.position = position := by
  simp only [proseCells, List.mem_filterMap, Option.bind_eq_some_iff]
  constructor
  · rintro ⟨⟨c', _⟩, hx, o, rfl, hcell⟩
    split at hcell
    · rename_i hflag
      obtain ⟨rfl, rfl⟩ := Prod.mk.inj (Option.some.inj hcell)
      exact ⟨o, hx, hflag, rfl⟩
    · exact absurd hcell (by simp)
  · rintro ⟨o, hx, hflag, rfl⟩
    exact ⟨(c, some o), hx, o, rfl, by rw [if_pos hflag]⟩

namespace LogicalLine

lemma proseCells_segmentFragment (l : LogicalLine) (s : Segment) (continued : Bool) :
    proseCells (l.segmentFragment s continued).trace = if l.commentEntry then s.cells else [] := by
  rw [trace_segmentFragment, proseCells, List.filterMap_map]
  cases l.commentEntry with
  | false => exact List.filterMap_eq_nil_iff.mpr fun _ _ => rfl
  | true => exact List.filterMap_some

lemma proseCells_write (d : Dialect) (format : SourceFormat) (lines : List LogicalLine) :
    proseCells (write d format lines).trace = prose lines := by
  rw [trace_write, proseCells, List.filterMap_flatMap, prose]
  congr 1
  funext l
  have hline := filterMap_fragments (fun _ => rfl) (proseCells_segmentFragment l)
    (d.layout format).indentWidth
  rw [hline, cells]
  cases l.commentEntry with
  | false => exact List.flatMap_eq_nil_iff.mpr fun _ _ => rfl
  | true => rfl

lemma prose_mark (debugging : Bool) (lines : List LogicalLine) :
    prose (lines.map (mark debugging)) = prose lines := by
  have hflag : ∀ l : LogicalLine, (l.mark debugging).commentEntry = l.commentEntry := by
    intro l
    unfold mark
    split
    · rfl
    · split <;> rfl
  simp only [prose, List.flatMap_map, hflag, cells_mark]

/-- A line of code in free format. -/
def sampleCode (file : String) (number : Nat) (raw : List Char) : LogicalLine :=
  single .normal ⟨PhysicalLine.divide .ansi85 .free file number raw, 1, raw⟩

end LogicalLine

namespace SourceUnit

open CommentEntry

/-- The logical lines of a text, before comment entries are looked for. -/
def logicalLines (r : LineRules) (name : String) (text : List Char) : List LogicalLine :=
  match PhysicalLine.read r.dialect r.format name text with
  | .ok (physical, _) => (LogicalLine.ofPhysical r.dialect physical).1
  | .error _ => []

lemma exists_read {r : LineRules} {name : String} {text : List Char}
    (h : logicalLines r name text ≠ []) : ∃ unit, SourceUnit.read r name text = .ok unit := by
  unfold logicalLines at h
  split at h
  · rename_i physical tooLong hread
    refine ⟨SourceUnit.ofLines r name physical tooLong, ?_⟩
    rw [SourceUnit.read, hread]
    rfl
  · exact absurd rfl h

lemma written_of_read {r : LineRules} {name : String} {text : List Char} {unit : SourceUnit}
    (h : SourceUnit.read r name text = .ok unit) :
    unit.written = LogicalLine.write r.dialect r.format
      ((LogicalLine.flagEntries r.dialect (logicalLines r name text)).map
        (LogicalLine.mark r.debugging)) := by
  obtain ⟨physical, tooLong, hread, rfl⟩ := SourceUnit.ofLines_of_read h
  rw [logicalLines, hread]
  rfl

lemma exists_read_of_no_keyword {r : LineRules} {name : String} {text : List Char}
    {lines : List LogicalLine} (hlines : logicalLines r name text = lines) (hne : lines ≠ [])
    (h : ∀ l ∈ lines, proseStart? r.dialect l.content = none) :
    ∃ unit, SourceUnit.read r name text = .ok unit ∧ unit.written =
      LogicalLine.write r.dialect r.format (lines.map (LogicalLine.mark r.debugging)) := by
  rw [← hlines] at hne h ⊢
  obtain ⟨unit, hread⟩ := exists_read hne
  refine ⟨unit, hread, ?_⟩
  rw [written_of_read hread]
  exact congrArg (fun ls : List LogicalLine => LogicalLine.write r.dialect r.format (ls.map _))
    (flagFrom_of_no_keyword h true)

lemma commentEntry_logicalLines (r : LineRules) (name : String) (text : List Char) :
    ∀ l ∈ logicalLines r name text, l.commentEntry = false := by
  unfold logicalLines
  split
  · exact LogicalLine.commentEntry_ofPhysical r.dialect _
  · simp

/-- The characters of a unit that are flagged are the prose of its own lines. -/
theorem mem_proseCells_written {r : LineRules} {name : String} {text : List Char}
    {unit : SourceUnit} (h : SourceUnit.read r name text = .ok unit) (x : Char × Position) :
    x ∈ proseCells unit.written.trace ↔ ∃ before l after k,
      logicalLines r name text = before ++ l :: after ∧ ProseFrom r.dialect before l k ∧
      x ∈ l.cells.drop k := by
  rw [written_of_read h, LogicalLine.proseCells_write, LogicalLine.prose_mark]
  exact LogicalLine.mem_prose_flagFrom (standsAfter_initial r.dialect)
    (commentEntry_logicalLines r name text) x

end SourceUnit

namespace CommentEntry

/-- Whether a line is a header of an identification division. -/
def startsIdentification (content : List Char) : Bool :=
  (divisionName? content).isSome && staysInIdentification false content

/-- Whether a line is a division header or ends a program. -/
def endsDivision (content : List Char) : Bool :=
  (divisionName? content).isSome || isEndProgram content

/-- Without a header of an identification division, a unit is in its identification division up to
its first division header. -/
lemma inIdentification_iff {lines : List LogicalLine}
    (h : ∀ l ∈ lines, l.kind.isCode = true → startsIdentification l.content = false) :
    inIdentification lines = true ↔
      ∀ l ∈ lines, l.kind.isCode = true → endsDivision l.content = false := by
  induction lines using List.reverseRecOn with
  | nil => simp [inIdentification]
  | append_singleton lines l ih =>
    have hlines := ih fun u hu => h u (List.mem_append_left _ hu)
    have hl := h l (List.mem_append_right _ (List.mem_singleton_self l))
    rw [inIdentification_concat, List.forall_mem_append, List.forall_mem_singleton, ← hlines]
    by_cases hcode : l.kind.isCode = true
    · have hheader := hl hcode
      rw [if_pos hcode]
      simp only [startsIdentification, staysInIdentification] at hheader
      simp only [hcode, forall_const, staysInIdentification, endsDivision]
      cases hname : divisionName? l.content with
      | some name =>
        simp only [hname, Option.isSome_some, Bool.true_and] at hheader
        simp only [hheader, Option.isSome_some, Bool.true_or, Bool.false_eq_true,
          Bool.true_eq_false, and_false]
      | none => cases isEndProgram l.content <;> simp
    · rw [if_neg hcode]
      simp [hcode]

lemma ProseFrom.exists_opens {d : Dialect} {before : List LogicalLine} {l : LogicalLine} {k : Nat}
    (h : ProseFrom d before l k) :
    ∃ earlier u later, before ++ [l] = earlier ++ u :: later ∧ Opens d earlier u := by
  cases h with
  | entry isCode inEntry goesOn =>
    obtain ⟨earlier, u, later, rfl, hopens, -⟩ := inEntry
    exact ⟨earlier, u, later ++ [l], by simp, hopens⟩
  | keyword opens => exact ⟨before, l, [], rfl, opens⟩

/-- Lines without the header of an identification division hold no prose if a division ends before
the first keyword of a paragraph with prose. -/
lemma not_proseFrom {d : Dialect} {lines : List LogicalLine}
    (hheader : ∀ l ∈ lines, l.kind.isCode = true → startsIdentification l.content = false)
    (hkeyword : ∀ before l after, lines = before ++ l :: after → l.kind.isCode = true →
      (proseStart? d l.content).isSome = true →
      ∃ u ∈ before ++ [l], u.kind.isCode = true ∧ endsDivision u.content = true)
    {before after : List LogicalLine} {l : LogicalLine} (hlines : lines = before ++ l :: after)
    (k : Nat) : ¬ProseFrom d before l k := by
  intro hprose
  obtain ⟨earlier, u, later, hsplit, hopens⟩ := hprose.exists_opens
  have hall : lines = earlier ++ u :: (later ++ after) := by
    rw [hlines, List.append_cons, hsplit, List.append_assoc]
    rfl
  obtain ⟨v, hv, hcode, hends⟩ := hkeyword earlier u _ hall hopens.isCode hopens.keyword
  have hmem : ∀ m ∈ earlier ++ [u], m ∈ lines := by
    intro m hm
    rw [hall, List.append_cons]
    exact List.mem_append_left _ hm
  have hinside := (inIdentification_iff fun m hm => hheader m (hmem m hm)).mp hopens.inside v hv
    hcode
  rw [hinside] at hends
  exact absurd hends (by simp)

end CommentEntry

end CobolText
