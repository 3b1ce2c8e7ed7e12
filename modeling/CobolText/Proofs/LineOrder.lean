import CobolText.Proofs.LineFidelity

/-!
# The order of the lines of a unit

The characters of a unit that have an origin come in the order of the source, and none comes twice.
Joining lines keeps them in their order, because every physical line gives at most one segment;
dividing a line at a comment entry neither loses nor moves a character.
-/

namespace CobolText

/-- Whether a position stands before another one, line by line and column by column. -/
def Position.Before (p q : Position) : Prop :=
  p.line < q.line ∨ p.line = q.line ∧ p.column < q.column

/-- The position of a character that came through no copybook. -/
def Origin.main? (o : Origin) : Option Position :=
  if o.marks.inclusions = [] then some o.position else none

/-- The positions of the characters that came through no copybook, in their order. -/
def mainPositions (xs : List TracedChar) : List Position :=
  xs.filterMap fun x => x.2.bind Origin.main?

lemma mainPositions_append (xs ys : List TracedChar) :
    mainPositions (xs ++ ys) = mainPositions xs ++ mainPositions ys :=
  List.filterMap_append

lemma mainPositions_flatMap {α : Type} (xs : List α) (f : α → List TracedChar) :
    mainPositions (xs.flatMap f) = xs.flatMap fun x => mainPositions (f x) :=
  List.filterMap_flatMap

namespace Segment

/-- The characters of a segment with the positions they are read from. -/
def cells (s : Segment) : List (Char × Position) :=
  s.text.mapIdx fun i c => (c, { s.position with column := s.column + i })

lemma length_cells (s : Segment) : s.cells.length = s.text.length := by
  rw [cells, List.length_mapIdx]

lemma map_fst_cells (s : Segment) : s.cells.map Prod.fst = s.text := by
  apply List.ext_getElem?
  intro i
  simp only [cells, List.getElem?_map, List.getElem?_mapIdx, Option.map_map]
  exact Option.map_id'

lemma cells_take_append_drop (s : Segment) (n : Nat) :
    (s.take n).cells ++ (s.drop n).cells = s.cells := by
  apply List.ext_getElem?
  intro i
  simp only [cells, take, drop, List.getElem?_append, List.length_mapIdx, List.length_take,
    List.getElem?_mapIdx, List.getElem?_take, List.getElem?_drop]
  split
  · rw [if_pos (by omega)]
    rfl
  · by_cases hn : n ≤ s.text.length
    · rw [show n + (i - min n s.text.length) = i by omega]
      congr 1
      funext c
      simp only [position, Prod.mk.injEq, Position.mk.injEq, true_and]
      omega
    · rw [List.getElem?_eq_none (by omega), List.getElem?_eq_none (by omega)]
      rfl

lemma cells_take (s : Segment) (n : Nat) : (s.take n).cells = s.cells.take n := by
  apply List.ext_getElem?
  intro i
  simp only [cells, take, List.getElem?_mapIdx, List.getElem?_take]
  split
  · rfl
  · rfl

lemma cells_drop (s : Segment) (n : Nat) : (s.drop n).cells = s.cells.drop n := by
  by_cases hn : n ≤ s.text.length
  · have hlength : (s.take n).cells.length = n := by
      rw [length_cells, take, List.length_take, Nat.min_eq_left hn]
    rw [← cells_take_append_drop s n, List.drop_left' hlength]
  · have hnil : (s.drop n).cells.length = 0 := by
      rw [length_cells, drop, List.length_drop]
      omega
    rw [List.length_eq_zero_iff.mp hnil, List.drop_of_length_le]
    rw [length_cells]
    omega

lemma pairwise_cells (s : Segment) : s.cells.Pairwise fun a b => a.2.Before b.2 := by
  rw [List.pairwise_iff_getElem]
  intro i j hi hj hij
  simp only [cells, List.getElem_mapIdx]
  exact .inr ⟨rfl, by simp only; omega⟩

lemma line_of_mem_cells {s : Segment} {x : Char × Position} (h : x ∈ s.cells) :
    x.2.line = s.source.number := by
  obtain ⟨i, hi, rfl⟩ := List.mem_mapIdx.mp h
  rfl

end Segment

namespace LogicalLine

/-- The characters of a line with the positions they are read from. -/
def cells (l : LogicalLine) : List (Char × Position) :=
  l.segments.flatMap Segment.cells

lemma length_cells (l : LogicalLine) : l.cells.length = l.content.length := by
  rw [cells, content, List.length_flatMap, List.length_flatMap]
  congr 1
  exact List.map_congr_left fun s _ => s.length_cells

lemma content_eq_cells (l : LogicalLine) : l.content = l.cells.map Prod.fst := by
  rw [content, cells, List.map_flatMap]
  congr 1
  funext s
  exact s.map_fst_cells.symm

/-- All that lies behind the offset belongs to the second part. -/
lemma divideSegments_of_lt {offset : Int} {consumed : Nat} (h : offset < consumed)
    (segments : List Segment) : divideSegments offset consumed segments = ([], segments) := by
  induction segments generalizing consumed with
  | nil => rfl
  | cons s rest ih =>
    have hrest : offset < (consumed + s.text.length : Nat) := by omega
    simp only [divideSegments, ih hrest]
    rw [if_neg (by omega), if_pos (by omega)]

lemma cells_divideSegments (offset : Int) (consumed : Nat) (segments : List Segment) :
    (divideSegments offset consumed segments).1.flatMap Segment.cells ++
      (divideSegments offset consumed segments).2.flatMap Segment.cells =
        segments.flatMap Segment.cells := by
  induction segments generalizing consumed with
  | nil => rfl
  | cons s rest ih =>
    simp only [divideSegments]
    by_cases hwhole : (consumed : Int) + s.text.length ≤ offset
    · rw [if_pos hwhole]
      simp only [List.flatMap_cons, List.append_assoc, ih]
    · have hrest : offset < (consumed + s.text.length : Nat) := by omega
      rw [if_neg hwhole, divideSegments_of_lt hrest]
      split
      · rfl
      · simp only [List.flatMap_cons, List.flatMap_nil, List.append_nil]
        rw [← List.append_assoc, Segment.cells_take_append_drop]

lemma segments_withSegments (l : LogicalLine) (segments : List Segment) :
    (l.withSegments segments).segments = segments := by
  unfold withSegments
  split <;> rfl

lemma cells_divide (l : LogicalLine) (offset : Int) :
    (l.divide offset).1.cells ++ (l.divide offset).2.cells = l.cells := by
  simp only [cells, divide, segments_withSegments]
  exact cells_divideSegments offset 0 l.segments

/-- Finding comment entries neither loses nor moves a character of a line. -/
lemma cells_step (d : Dialect) (p : CommentEntry.Progress) (l : LogicalLine) :
    (CommentEntry.step d p l).2.flatMap cells = l.cells := by
  have hsingle : [l].flatMap cells = l.cells := by simp
  unfold CommentEntry.step
  split
  · exact hsingle
  · split
    · exact hsingle
    · unfold CommentEntry.openEntry
      simp only
      split
      · exact hsingle
      · rename_i n hn
        split
        · exact hsingle
        · rw [← cells_divide l n]
          simp [cells]

lemma cells_flagFrom (d : Dialect) (p : CommentEntry.Progress) (lines : List LogicalLine) :
    (CommentEntry.flagFrom d p lines).flatMap cells = lines.flatMap cells := by
  induction lines generalizing p with
  | nil => rfl
  | cons l lines ih =>
    simp only [CommentEntry.flagFrom, List.flatMap_append, List.flatMap_cons]
    rw [cells_step, ih]

lemma cells_mark (debugging : Bool) (l : LogicalLine) : (l.mark debugging).cells = l.cells := by
  rw [cells, segments_mark, cells]

lemma trace_segmentFragment (l : LogicalLine) (s : Segment) (continued : Bool) :
    (l.segmentFragment s continued).trace = s.cells.map fun x => (x.1, some
      ⟨x.2, { continuation := continued, comment := l.commented,
              commentEntry := l.commentEntry }⟩) := by
  rw [segmentFragment, Fragment.trace_copied _ _ rfl]
  apply List.ext_getElem?
  intro i
  simp only [Segment.cells, List.getElem?_mapIdx, List.getElem?_map, Option.map_map]
  rfl

lemma mainPositions_segmentFragment (l : LogicalLine) (s : Segment) (continued : Bool) :
    mainPositions (l.segmentFragment s continued).trace = s.cells.map Prod.snd := by
  rw [trace_segmentFragment, mainPositions, List.filterMap_map, ← List.filterMap_eq_map]
  rfl

/-- What is read off the characters of a line that have an origin is read off its segments. -/
lemma filterMap_fragments {α : Type} {f : TracedChar → Option α} (hf : ∀ c, f (c, none) = none)
    {l : LogicalLine} {g : Segment → List α}
    (hg : ∀ s continued, (l.segmentFragment s continued).trace.filterMap f = g s) (indent : Nat) :
    ((l.fragments indent).flatMap Fragment.trace).filterMap f = l.segments.flatMap g := by
  have hmade : ∀ text, (Fragment.synthetic text).trace.filterMap f = [] := by
    intro text
    rw [Fragment.trace_synthetic, List.filterMap_map, List.filterMap_eq_nil_iff]
    exact fun c _ => hf c
  have hsegments : (l.segmentFragments.flatMap fun u => u.trace.filterMap f) =
      l.segments.flatMap g := by
    unfold segmentFragments
    split
    · rename_i hnil
      rw [hnil]
      rfl
    · rename_i s rest hcons
      rw [hcons]
      simp only [List.flatMap_cons, List.flatMap_map, hg]
  rw [List.filterMap_flatMap, fragments, List.flatMap_cons, List.flatMap_append, hmade, hsegments,
    List.flatMap_singleton, hmade, List.nil_append, List.append_nil]

/-- The characters of a line that have an origin are written out in their order. -/
lemma mainPositions_fragments (l : LogicalLine) (indent : Nat) :
    mainPositions ((l.fragments indent).flatMap Fragment.trace) = l.cells.map Prod.snd := by
  rw [cells, List.map_flatMap]
  exact filterMap_fragments (fun _ => rfl) (mainPositions_segmentFragment l) indent

lemma mainPositions_write (d : Dialect) (format : SourceFormat) (lines : List LogicalLine) :
    mainPositions (write d format lines).trace = (lines.flatMap cells).map Prod.snd := by
  rw [trace_write, mainPositions_flatMap, List.map_flatMap]
  congr 1
  funext l
  exact mainPositions_fragments l _

/-- The physical lines that the segments of a line come from. -/
def sources (l : LogicalLine) : List PhysicalLine :=
  l.segments.map Segment.source

lemma sources_trimReversed (segments : List Segment) :
    ((trimReversed segments).map Segment.source).Sublist (segments.map Segment.source) := by
  induction segments with
  | nil => exact List.Sublist.refl _
  | cons s rest ih =>
    simp only [trimReversed]
    split
    · exact ih.cons _
    · exact List.Sublist.refl _

lemma sources_trimSegments (segments : List Segment) :
    ((trimSegments segments).map Segment.source).Sublist (segments.map Segment.source) := by
  have h := (sources_trimReversed segments.reverse).reverse
  rw [← List.map_reverse, ← List.map_reverse, List.reverse_reverse] at h
  exact h

lemma sources_padSegments (margin : Option Int) (segments : List Segment) :
    (padSegments margin segments).map Segment.source = segments.map Segment.source := by
  unfold padSegments
  split
  · rename_i m last hmargin hlast
    obtain ⟨init, rfl⟩ := List.getLast?_eq_some_iff.mp hlast
    simp
  · rfl

/-- A line that is joined adds one segment behind those that are there. -/
lemma sources_extend (d : Dialect) (l : LogicalLine) (line : PhysicalLine) :
    (l.extend d line).sources.Sublist (l.sources ++ [line]) := by
  have hline : ∀ literalOpen, (continuationSegment line literalOpen).source = line := by
    intro literalOpen
    unfold continuationSegment
    simp only
    split <;> rfl
  simp only [sources, extend, List.map_append, List.map_cons, List.map_nil, hline]
  apply List.Sublist.append _ (List.Sublist.refl _)
  split
  · exact sources_trimSegments l.segments
  · split
    · rw [sources_padSegments]
    · exact List.Sublist.refl _

lemma sources_single (line : PhysicalLine) (kind lineKind : LineKind) :
    (single kind (line.firstSegment lineKind)).sources = [line] := by
  unfold single sources PhysicalLine.firstSegment
  simp only
  split <;> rfl

/-- Every physical line gives at most one segment, and the segments keep the order of the lines. -/
lemma sources_gather (d : Dialect) (current : LogicalLine) (lines : List PhysicalLine) :
    ((gather d current lines).1.flatMap sources).Sublist (current.sources ++ lines) := by
  induction lines generalizing current with
  | nil => simp [gather]
  | cons line lines ih =>
    -- A line that starts a logical line of its own stands behind all of the current one.
    have hstart : ∀ kind lineKind,
        ((current :: (gather d (single kind (line.firstSegment lineKind)) lines).1).flatMap
          sources).Sublist (current.sources ++ line :: lines) := by
      intro kind lineKind
      have h := ih (single kind (line.firstSegment lineKind))
      rw [sources_single] at h
      rw [List.flatMap_cons]
      exact List.Sublist.append (List.Sublist.refl _) h
    simp only [gather]
    split
    · split
      · have hjoined :=
          List.Sublist.append (sources_extend d current line) (List.Sublist.refl lines)
        rw [List.append_assoc] at hjoined
        exact (ih (current.extend d line)).trans hjoined
      · exact hstart _ _
    · exact hstart _ _

lemma sources_ofPhysical (d : Dialect) (lines : List PhysicalLine) :
    ((ofPhysical d lines).1.flatMap sources).Sublist lines := by
  cases lines with
  | nil => exact List.Sublist.refl _
  | cons line lines =>
    have hfirst : ∀ kind lineKind,
        ((gather d (single kind (line.firstSegment lineKind)) lines).1.flatMap sources).Sublist
          (line :: lines) := by
      intro kind lineKind
      have h := sources_gather d (single kind (line.firstSegment lineKind)) lines
      rw [sources_single] at h
      exact h
    simp only [ofPhysical]
    split
    · exact hfirst _ _
    · exact hfirst _ _

/-- Lines whose segments come from ascending lines have their characters in ascending order. -/
lemma pairwise_cells_of_sources {lines : List LogicalLine}
    (h : (lines.flatMap sources).Pairwise fun a b => a.number < b.number) :
    (lines.flatMap cells).Pairwise fun a b => a.2.Before b.2 := by
  have hsources : lines.flatMap sources = (lines.flatMap segments).map Segment.source := by
    rw [List.map_flatMap]
    rfl
  have hcells : lines.flatMap cells = (lines.flatMap segments).flatMap Segment.cells := by
    rw [List.flatMap_assoc]
    rfl
  rw [hsources, List.pairwise_map] at h
  rw [hcells, List.pairwise_flatMap]
  refine ⟨fun s _ => s.pairwise_cells, h.imp ?_⟩
  intro s u hlt x hx y hy
  left
  rw [Segment.line_of_mem_cells hx, Segment.line_of_mem_cells hy]
  exact Int.ofNat_lt.mpr hlt

end LogicalLine

/-- The lines of a text are numbered in ascending order. -/
lemma PhysicalLine.pairwise_read {d : Dialect} {format : SourceFormat} {file : String}
    {text : List Char} {lines : List PhysicalLine} {warnings : List Diagnostic}
    (h : read d format file text = .ok (lines, warnings)) :
    lines.Pairwise fun a b => a.number < b.number := by
  unfold read at h
  split at h
  · split at h
    · simp only [Except.ok.injEq, Prod.mk.injEq] at h
      rw [← h.1]
      exact List.Pairwise.nil
    · simp at h
  · have hlines := congrArg Prod.fst (Except.ok.inj h)
    rw [← show _ = lines from hlines]
    simp only [ofText, List.map_map, List.pairwise_map, Function.comp, readLine_fst]
    exact (pairwise_zipIdx (Text.physicalLines text)).imp fun hlt => Nat.succ_lt_succ hlt

/-- The characters of a unit that have an origin stand in the order of the source, each of them
once. -/
theorem SourceUnit.pairwise_written {r : LineRules} {name : String} {text : List Char}
    {unit : SourceUnit} (h : SourceUnit.read r name text = .ok unit) :
    (mainPositions unit.written.trace).Pairwise Position.Before := by
  obtain ⟨physical, tooLong, hread, rfl⟩ := SourceUnit.ofLines_of_read h
  have hnumbers := PhysicalLine.pairwise_read hread
  have hsources := hnumbers.sublist (LogicalLine.sources_ofPhysical r.dialect physical)
  have hwritten : mainPositions (SourceUnit.ofLines r name physical tooLong).written.trace =
      ((LogicalLine.ofPhysical r.dialect physical).1.flatMap LogicalLine.cells).map Prod.snd := by
    simp only [SourceUnit.ofLines, LogicalLine.markAll, LogicalLine.mainPositions_write,
      List.flatMap_map, LogicalLine.cells_mark]
    rw [LogicalLine.flagEntries]
    exact congrArg (List.map Prod.snd) (LogicalLine.cells_flagFrom r.dialect .initial _)
  rw [hwritten, List.pairwise_map]
  exact LogicalLine.pairwise_cells_of_sources hsources

end CobolText
