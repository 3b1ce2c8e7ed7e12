import CobolText.SourceUnit
import CobolText.Proofs.WellFormed

/-!
# From physical lines to the text of a unit

Every character that a unit writes out with an origin stands in the line and column that the
origin names, or is a space and its column lies past the end of the line.  The latter happens only
where a literal that goes on in the next line is filled up to the right margin: the segment that is
filled up ends with the content of its line, so what is missing to the margin is missing in the
line itself.
-/

namespace CobolText

lemma pairwise_zipIdx {α : Type} (xs : List α) : xs.zipIdx.Pairwise fun a b => a.2 < b.2 := by
  rw [← List.pairwise_map (f := Prod.snd) (R := (· < ·)), List.zipIdx_map_snd]
  exact List.pairwise_lt_range'

namespace Text

/-- Line `number` of a text, cut to a greatest width. -/
def lineAt? (width : Int) (text : List Char) (number : Int) : Option (List Char) :=
  if 1 ≤ number then
    (physicalLines text)[(number - 1).toNat]?.map fun raw => sliceTo raw width
  else none

/-- Whether a character stands in a column of a line, where a line goes on with spaces past its
end. -/
def StandsAt (raw : List Char) (column : Int) (c : Char) : Prop :=
  (1 ≤ column ∧ column ≤ raw.length ∧ raw[(column - 1).toNat]? = some c) ∨
    (raw.length < column ∧ c = ' ')

lemma standsAt_of_getElem? {raw : List Char} {i : Nat} {c : Char} (h : raw[i]? = some c) :
    StandsAt raw (i + 1) c := by
  have hlt : i < raw.length := (List.getElem?_eq_some_iff.mp h).1
  refine .inl ⟨by omega, by omega, ?_⟩
  rw [show ((i : Int) + 1 - 1).toNat = i by omega]
  exact h

/-- A bound past the end cuts nothing off. -/
lemma sliceTo_of_length_le {s : List Char} {stop : Int} (h : s.length ≤ stop) :
    sliceTo s stop = s := by
  apply List.take_of_length_le
  unfold place
  split <;> omega

lemma trimRight_prefix (s : List Char) : trimRight s <+: s := by
  have h := List.reverse_prefix.mpr (List.dropWhile_suffix (l := s.reverse) isBlank)
  rwa [List.reverse_reverse] at h

end Text

namespace PhysicalLine

/-- Whether a line is what a text has under its number, divided into its areas. -/
def LineOf (d : Dialect) (format : SourceFormat) (file : String) (text : List Char)
    (l : PhysicalLine) : Prop :=
  Text.lineAt? d.lineWidth text l.number = some l.raw ∧ l = divide d format file l.number l.raw

lemma readLine_fst (d : Dialect) (format : SourceFormat) (file : String) (number : Nat)
    (raw : List Char) :
    (readLine d format file number raw).1 =
      divide d format file number (Text.sliceTo raw d.lineWidth) := by
  simp only [readLine]
  split
  · rfl
  · rw [Text.sliceTo_of_length_le (by omega)]

lemma lineOf_of_mem_ofText {d : Dialect} {format : SourceFormat} {file : String}
    {text : List Char} {l : PhysicalLine} (h : l ∈ (ofText d format file text).1) :
    l.LineOf d format file text := by
  simp only [ofText, List.map_map, List.mem_map] at h
  obtain ⟨⟨raw, i⟩, hmem, rfl⟩ := h
  have hraw : (Text.physicalLines text)[i]? = some raw := by
    simpa using List.mk_mem_zipIdx_iff_getElem?.mp hmem
  simp only [Function.comp, readLine_fst]
  refine ⟨?_, rfl⟩
  change Text.lineAt? d.lineWidth text ((i + 1 : Nat) : Int) = some (Text.sliceTo raw d.lineWidth)
  rw [Text.lineAt?, if_pos (by omega), show (((i + 1 : Nat) : Int) - 1).toNat = i by omega, hraw]
  rfl

lemma lineOf_of_mem_read {d : Dialect} {format : SourceFormat} {file : String}
    {text : List Char} {lines : List PhysicalLine} {warnings : List Diagnostic}
    (h : read d format file text = .ok (lines, warnings)) :
    ∀ l ∈ lines, l.LineOf d format file text := by
  unfold read at h
  split at h
  · split at h
    · simp only [Except.ok.injEq, Prod.mk.injEq] at h
      rw [← h.1]
      simp
    · simp at h
  · have hlines := congrArg Prod.fst (Except.ok.inj h)
    intro l hl
    rw [← show _ = lines from hlines] at hl
    exact lineOf_of_mem_ofText hl

section Content

variable {d : Dialect} {format : SourceFormat} {file : String} {number : Nat} {raw : List Char}

/-- The content of a line stands in the line behind the columns in front of it. -/
lemma getElem?_content_divide {i : Nat} {c : Char}
    (h : (divide d format file number raw).content[i]? = some c) :
    raw[(d.layout format).indentWidth + i]? = some c := by
  have hdrop : (raw.drop (min (d.layout format).indentWidth raw.length))[i]? = some c →
      raw[(d.layout format).indentWidth + i]? = some c := by
    intro hc
    rw [List.getElem?_drop] at hc
    have hlt := (List.getElem?_eq_some_iff.mp hc).1
    rwa [Nat.min_eq_left (by omega)] at hc
  simp only [divide] at h
  split at h
  · rename_i margin hmargin
    rw [Text.slice, Text.place_natCast] at h
    by_cases hi : i < Text.place raw.length margin - min (d.layout format).indentWidth raw.length
    · rw [List.getElem?_take_of_lt hi] at h
      exact hdrop h
    · rw [List.getElem?_take_eq_none (by omega)] at h
      simp at h
  · rwa [List.getElem?_drop] at h

variable (file number raw) in
lemma length_le_of_content_divide {margin : Int} (hmargin : (d.layout format).margin? = some margin)
    (h : (d.layout format).indentWidth + (divide d format file number raw).content.length <
      margin) :
    raw.length ≤
      (d.layout format).indentWidth + (divide d format file number raw).content.length := by
  obtain ⟨n, rfl⟩ := Int.eq_ofNat_of_zero_le (show 0 ≤ margin by omega)
  simp only [divide, hmargin, Text.slice, Text.place_natCast, List.length_take,
    List.length_drop] at h ⊢
  omega

end Content

end PhysicalLine

section Unit

variable (d : Dialect) (format : SourceFormat) (file : String) (text : List Char)

/-- Whether a segment comes from a line of the text and holds what stands in its columns. -/
structure Segment.ReadFrom (s : Segment) : Prop where
  source : s.source.LineOf d format file text
  standsAt : ∀ (i : Nat) (c : Char), s.text[i]? = some c →
    Text.StandsAt s.source.raw (s.column + i) c

/-- Whether a segment that stays in front of the right margin ends with its line. -/
def Segment.EndsLine (s : Segment) : Prop :=
  ∀ margin, (d.layout format).margin? = some margin → s.column + s.text.length - 1 < margin →
    s.source.raw.length ≤ s.column + s.text.length - 1

/-- Whether all segments of a line are read from the text, and the line has no mark yet. -/
structure LogicalLine.ReadFrom (l : LogicalLine) : Prop where
  segments : ∀ s ∈ l.segments, s.ReadFrom d format file text
  commented : l.commented = false
  marker : l.marker = []

variable {d format file text}

namespace Segment

lemma ReadFrom.initial {s : Segment} (hs : s.ReadFrom d format file text) {u : List Char}
    (hu : u <+: s.text) : ReadFrom d format file text { s with text := u } := by
  refine ⟨hs.source, fun i c hc => ?_⟩
  obtain ⟨v, hv⟩ := hu
  have hlt := (List.getElem?_eq_some_iff.mp hc).1
  apply hs.standsAt i c
  rw [← hv, List.getElem?_append_left hlt]
  exact hc

lemma ReadFrom.take {s : Segment} (hs : s.ReadFrom d format file text) (n : Nat) :
    (s.take n).ReadFrom d format file text :=
  hs.initial (List.take_prefix n s.text)

lemma ReadFrom.drop {s : Segment} (hs : s.ReadFrom d format file text) (n : Nat) :
    (s.drop n).ReadFrom d format file text := by
  refine ⟨hs.source, fun i c hc => ?_⟩
  simp only [Segment.drop, List.getElem?_drop] at hc
  have h := hs.standsAt (n + i) c hc
  rwa [show s.column + ((n + i : Nat) : Int) = s.column + n + i by omega] at h

/-- Dropping characters in front leaves the end where it is. -/
lemma EndsLine.drop {s : Segment} (hs : s.EndsLine d format) {n : Nat} (hn : n ≤ s.text.length) :
    (s.drop n).EndsLine d format := by
  intro margin hmargin hlt
  have h := hs margin hmargin
  simp only [Segment.drop, List.length_drop] at hlt ⊢
  omega

/-- Spaces up to the right margin stand past the end of a line that a segment ends with. -/
lemma ReadFrom.pad {s : Segment} (hs : s.ReadFrom d format file text)
    (hend : s.EndsLine d format) {margin : Int}
    (hmargin : (d.layout format).margin? = some margin) :
    ReadFrom d format file text { s with
      text := s.text ++ Text.spaces (margin - (s.column + s.text.length - 1)).toNat } := by
  refine ⟨hs.source, fun i c hc => ?_⟩
  simp only [List.getElem?_append] at hc
  split at hc
  · exact hs.standsAt i c hc
  · obtain ⟨hlt, hspace⟩ := List.getElem?_eq_some_iff.mp hc
    rw [Text.length_spaces] at hlt
    have := hend margin hmargin (by omega)
    refine .inr ⟨by simp only; omega, ?_⟩
    simpa [Text.spaces] using hspace.symm

end Segment

namespace PhysicalLine

lemma readFrom_content {l : PhysicalLine} (h : l.LineOf d format file text) :
    Segment.ReadFrom d format file text ⟨l, l.column, l.content⟩ := by
  refine ⟨h, fun i c hc => ?_⟩
  have hcolumn : l.column = (d.layout format).indentWidth + 1 := by
    rw [h.2]
    rfl
  simp only at hc
  rw [h.2] at hc
  have hraw := Text.standsAt_of_getElem? (getElem?_content_divide hc)
  simp only
  rwa [show (l.column : Int) + i = (((d.layout format).indentWidth + i : Nat) : Int) + 1 by omega]

lemma endsLine_content {l : PhysicalLine} (h : l.LineOf d format file text) :
    Segment.EndsLine d format ⟨l, l.column, l.content⟩ := by
  intro margin hmargin hlt
  have hcolumn : l.column = (d.layout format).indentWidth + 1 := by
    rw [h.2]
    rfl
  have hle := length_le_of_content_divide file l.number l.raw hmargin
  rw [← h.2] at hle
  simp only at hlt ⊢
  omega

lemma firstSegment_eq_drop (l : PhysicalLine) (kind : LineKind) :
    ∃ n, l.firstSegment kind = Segment.drop ⟨l, l.column, l.content⟩ n ∧
      (l.format ≠ .free → n = 0) := by
  unfold firstSegment
  simp only
  split
  · rename_i hfree
    refine ⟨_, rfl, fun hne => ?_⟩
    simp [hne] at hfree
  · exact ⟨0, by simp [Segment.drop], fun _ => rfl⟩

lemma readFrom_firstSegment {l : PhysicalLine} (h : l.LineOf d format file text)
    (kind : LineKind) : (l.firstSegment kind).ReadFrom d format file text := by
  obtain ⟨n, hn, -⟩ := l.firstSegment_eq_drop kind
  rw [hn]
  exact (readFrom_content h).drop n

lemma endsLine_firstSegment {l : PhysicalLine} (h : l.LineOf d format file text)
    (kind : LineKind) : (l.firstSegment kind).EndsLine d format := by
  obtain ⟨n, hn, hzero⟩ := l.firstSegment_eq_drop kind
  have hformat : l.format = format := by
    rw [h.2]
    rfl
  by_cases hfree : format = .free
  · -- In free format there is no right margin.
    intro margin hmargin
    rw [hfree] at hmargin
    simp [Dialect.layout, ColumnLayout.margin?, Value.count?] at hmargin
  · rw [hn, hzero (by rw [hformat]; exact hfree)]
    exact (endsLine_content h).drop (Nat.zero_le _)

end PhysicalLine

namespace LogicalLine

lemma continuationSegment_eq_drop (line : PhysicalLine) (literalOpen : Bool) :
    ∃ n, n ≤ line.content.length ∧ continuationSegment line literalOpen =
      Segment.drop ⟨line, line.column, line.content⟩ n := by
  have hsplit := congrArg List.length (Text.takeWhile_append_trimLeft line.content)
  rw [List.length_append] at hsplit
  have hdrop : Text.trimLeft line.content =
      line.content.drop (line.content.length - (Text.trimLeft line.content).length) := by
    conv_rhs => rw [← Text.takeWhile_append_trimLeft line.content]
    rw [List.drop_left' (by simp only [Text.takeWhile_append_trimLeft]; omega)]
  unfold continuationSegment
  simp only
  split
  · rename_i hquote
    have hpos : 0 < (Text.trimLeft line.content).length := by
      rw [List.length_pos_iff]
      intro hnil
      simp [hnil] at hquote
    refine ⟨line.content.length - (Text.trimLeft line.content).length + 1, by omega, ?_⟩
    simp only [Segment.drop, Segment.mk.injEq, true_and]
    refine ⟨by omega, ?_⟩
    rw [← List.drop_drop, ← hdrop]
  · refine ⟨line.content.length - (Text.trimLeft line.content).length, by omega, ?_⟩
    simp only [Segment.drop, Segment.mk.injEq, true_and]
    exact hdrop

/-- Trimming leaves segments out at the end and shortens the last one that is left. -/
lemma readFrom_trimReversed {segments : List Segment}
    (h : ∀ s ∈ segments, s.ReadFrom d format file text) :
    ∀ s ∈ trimReversed segments, s.ReadFrom d format file text := by
  induction segments with
  | nil => simp [trimReversed]
  | cons s rest ih =>
    have hrest : ∀ u ∈ rest, u.ReadFrom d format file text := fun u hu => h u (by simp [hu])
    simp only [trimReversed]
    split
    · exact ih hrest
    · intro u hu
      rcases List.mem_cons.mp hu with rfl | hu
      · exact (h s (by simp)).initial (Text.trimRight_prefix s.text)
      · exact hrest u hu

lemma readFrom_trimSegments {segments : List Segment}
    (h : ∀ s ∈ segments, s.ReadFrom d format file text) :
    ∀ s ∈ trimSegments segments, s.ReadFrom d format file text := by
  intro s hs
  rw [trimSegments, List.mem_reverse] at hs
  exact readFrom_trimReversed (fun u hu => h u (List.mem_reverse.mp hu)) s hs

lemma readFrom_padSegments {segments : List Segment}
    (h : ∀ s ∈ segments, s.ReadFrom d format file text)
    (hlast : ∀ s ∈ segments.getLast?, s.EndsLine d format) :
    ∀ s ∈ padSegments (d.layout format).margin? segments, s.ReadFrom d format file text := by
  unfold padSegments
  split
  · rename_i margin last hmargin hget
    intro s hs
    rcases List.mem_append.mp hs with hs | hs
    · exact h s (List.dropLast_subset _ hs)
    · rw [List.mem_singleton.mp hs]
      exact (h last (List.mem_of_getLast? hget)).pad (hlast last hget) hmargin
  · exact h

/-- What holds of a logical line that further lines may still be joined to. -/
structure Growing (d : Dialect) (format : SourceFormat) (file : String) (text : List Char)
    (l : LogicalLine) : Prop where
  readFrom : l.ReadFrom d format file text
  endsLine : ∀ s ∈ l.segments.getLast?, s.EndsLine d format

lemma growing_single {line : PhysicalLine} (h : line.LineOf d format file text)
    (kind lineKind : LineKind) :
    (single kind (line.firstSegment lineKind)).Growing d format file text := by
  constructor
  · refine ⟨fun s hs => ?_, rfl, rfl⟩
    rw [List.mem_singleton.mp hs]
    exact PhysicalLine.readFrom_firstSegment h lineKind
  · intro s hs
    simp only [single, List.getLast?_singleton, Option.mem_def, Option.some.injEq] at hs
    rw [← hs]
    exact PhysicalLine.endsLine_firstSegment h lineKind

lemma Growing.extend {l : LogicalLine} (hl : l.Growing d format file text) {line : PhysicalLine}
    (h : line.LineOf d format file text) : (l.extend d line).Growing d format file text := by
  obtain ⟨n, hn, hsegment⟩ := continuationSegment_eq_drop line
    (openQuote (d.hasFloatingComments line.format) l.content).isSome
  have hformat : line.format = format := by
    rw [h.2]
    rfl
  constructor
  · refine ⟨fun s hs => ?_, hl.readFrom.commented, hl.readFrom.marker⟩
    simp only [LogicalLine.extend, List.mem_append, List.mem_singleton] at hs
    rcases hs with hs | hs
    · split at hs
      · exact readFrom_trimSegments hl.readFrom.segments s hs
      · split at hs
        · rw [hformat] at hs
          exact readFrom_padSegments hl.readFrom.segments hl.endsLine s hs
        · exact hl.readFrom.segments s hs
    · rw [hs, hsegment]
      exact (PhysicalLine.readFrom_content h).drop n
  · intro s hs
    simp only [LogicalLine.extend, List.getLast?_append, List.getLast?_singleton, Option.mem_def,
      Option.some_or, Option.some.injEq] at hs
    rw [← hs, hsegment]
    exact (PhysicalLine.endsLine_content h).drop hn

/-- Joining lines keeps what their segments say, whichever of them a line is joined to. -/
lemma readFrom_gather {current : LogicalLine} (hcurrent : current.Growing d format file text)
    {lines : List PhysicalLine} (h : ∀ line ∈ lines, line.LineOf d format file text) :
    ∀ l ∈ (gather d current lines).1, l.ReadFrom d format file text := by
  induction lines generalizing current with
  | nil =>
    intro l hl
    rw [List.mem_singleton.mp hl]
    exact hcurrent.readFrom
  | cons line lines ih =>
    have hline := h line (by simp)
    have hlines : ∀ u ∈ lines, u.LineOf d format file text := fun u hu => h u (by simp [hu])
    simp only [gather]
    intro l hl
    split at hl
    · split at hl
      · exact ih (hcurrent.extend hline) hlines l hl
      · rcases List.mem_cons.mp hl with rfl | hl
        · exact hcurrent.readFrom
        · exact ih (growing_single hline _ _) hlines l hl
    · rcases List.mem_cons.mp hl with rfl | hl
      · exact hcurrent.readFrom
      · exact ih (growing_single hline _ _) hlines l hl

lemma readFrom_ofPhysical {lines : List PhysicalLine}
    (h : ∀ line ∈ lines, line.LineOf d format file text) :
    ∀ l ∈ (ofPhysical d lines).1, l.ReadFrom d format file text := by
  cases lines with
  | nil => simp [ofPhysical]
  | cons line lines =>
    have hline := h line (by simp)
    have hlines : ∀ u ∈ lines, u.LineOf d format file text := fun u hu => h u (by simp [hu])
    simp only [ofPhysical]
    intro l hl
    split at hl
    · exact readFrom_gather (growing_single hline _ _) hlines l hl
    · exact readFrom_gather (growing_single hline _ _) hlines l hl

lemma readFrom_divideSegments {segments : List Segment}
    (h : ∀ s ∈ segments, s.ReadFrom d format file text) (offset : Int) (consumed : Nat) :
    (∀ s ∈ (divideSegments offset consumed segments).1, s.ReadFrom d format file text) ∧
      ∀ s ∈ (divideSegments offset consumed segments).2, s.ReadFrom d format file text := by
  induction segments generalizing consumed with
  | nil => simp [divideSegments]
  | cons s rest ih =>
    have hs := h s (by simp)
    obtain ⟨hbefore, hafter⟩ := ih (fun u hu => h u (by simp [hu])) (consumed + s.text.length)
    simp only [divideSegments]
    split
    · exact ⟨List.forall_mem_cons.mpr ⟨hs, hbefore⟩, hafter⟩
    · split
      · exact ⟨hbefore, List.forall_mem_cons.mpr ⟨hs, hafter⟩⟩
      · exact ⟨List.forall_mem_cons.mpr ⟨hs.take _, hbefore⟩,
          List.forall_mem_cons.mpr ⟨hs.drop _, hafter⟩⟩

lemma ReadFrom.withSegments {l : LogicalLine} (h : l.ReadFrom d format file text)
    {segments : List Segment} (hs : ∀ s ∈ segments, s.ReadFrom d format file text) :
    (l.withSegments segments).ReadFrom d format file text := by
  unfold LogicalLine.withSegments
  split
  · exact ⟨hs, h.commented, h.marker⟩
  · exact ⟨hs, h.commented, h.marker⟩

lemma ReadFrom.divide {l : LogicalLine} (h : l.ReadFrom d format file text) (offset : Int) :
    (l.divide offset).1.ReadFrom d format file text ∧
      (l.divide offset).2.ReadFrom d format file text := by
  obtain ⟨hbefore, hafter⟩ := readFrom_divideSegments h.segments offset 0
  exact ⟨h.withSegments hbefore, h.withSegments hafter⟩

lemma ReadFrom.flag {l : LogicalLine} (h : l.ReadFrom d format file text) :
    ReadFrom d format file text { l with commentEntry := true } :=
  ⟨h.segments, h.commented, h.marker⟩

lemma readFrom_step {l : LogicalLine} (h : l.ReadFrom d format file text)
    (p : CommentEntry.Progress) :
    ∀ u ∈ (CommentEntry.step d p l).2, u.ReadFrom d format file text := by
  have hsingle : ∀ u ∈ [l], u.ReadFrom d format file text := by
    intro u hu
    rw [List.mem_singleton.mp hu]
    exact h
  unfold CommentEntry.step
  split
  · exact hsingle
  · split
    · exact List.forall_mem_singleton.mpr h.flag
    · unfold CommentEntry.openEntry
      simp only
      split
      · exact hsingle
      · split
        · exact hsingle
        · obtain ⟨hkeyword, hprose⟩ := h.divide _
          exact List.forall_mem_cons.mpr ⟨hkeyword, List.forall_mem_singleton.mpr hprose.flag⟩

lemma readFrom_flagFrom {lines : List LogicalLine}
    (h : ∀ l ∈ lines, l.ReadFrom d format file text) (p : CommentEntry.Progress) :
    ∀ l ∈ CommentEntry.flagFrom d p lines, l.ReadFrom d format file text := by
  induction lines generalizing p with
  | nil => simp [CommentEntry.flagFrom]
  | cons l lines ih =>
    intro u hu
    simp only [CommentEntry.flagFrom, List.mem_append] at hu
    rcases hu with hu | hu
    · exact readFrom_step (h l (by simp)) p u hu
    · exact ih (fun v hv => h v (by simp [hv])) _ u hu

@[simp] lemma segments_mark (debugging : Bool) (l : LogicalLine) :
    (l.mark debugging).segments = l.segments := by
  unfold mark
  split
  · rfl
  · split <;> rfl

lemma mem_segmentFragments {l : LogicalLine} {f : Fragment} (h : f ∈ l.segmentFragments) :
    ∃ s ∈ l.segments, ∃ continued, f = l.segmentFragment s continued := by
  unfold segmentFragments at h
  split at h
  · simp at h
  · rename_i s rest hsegments
    rw [hsegments]
    rcases List.mem_cons.mp h with rfl | h
    · exact ⟨s, by simp, false, rfl⟩
    · obtain ⟨u, hu, rfl⟩ := List.mem_map.mp h
      exact ⟨u, by simp [hu], _, rfl⟩

lemma wellFormed_fragments (indent : Nat) (l : LogicalLine) :
    ∀ f ∈ l.fragments indent, f.WellFormed := by
  intro f hf
  simp only [fragments, List.mem_cons, List.mem_append, List.not_mem_nil, or_false] at hf
  rcases hf with rfl | hf | rfl
  · exact Fragment.wellFormed_synthetic _
  · obtain ⟨s, -, continued, rfl⟩ := mem_segmentFragments hf
    exact Fragment.wellFormed_copied _ _ _
  · exact Fragment.wellFormed_synthetic _

lemma wellFormed_write (d : Dialect) (format : SourceFormat) (lines : List LogicalLine) :
    (write d format lines).WellFormed := by
  apply TracedText.wellFormed_assemble
  intro f hf
  obtain ⟨l, -, hf⟩ := List.mem_flatMap.mp hf
  exact wellFormed_fragments _ l f hf

lemma trace_write (d : Dialect) (format : SourceFormat) (lines : List LogicalLine) :
    (write d format lines).trace = lines.flatMap fun l =>
      (l.fragments (d.layout format).indentWidth).flatMap Fragment.trace := by
  rw [write, TracedText.trace_assemble, List.flatMap_assoc]
  intro f hf
  obtain ⟨l, -, hf⟩ := List.mem_flatMap.mp hf
  exact (wellFormed_fragments _ l f hf).proper

end LogicalLine

/-- Whether a character stands where its origin says, in the text of one file. -/
def Origin.StandsIn (d : Dialect) (file : String) (text : List Char) (o : Origin) (c : Char) :
    Prop :=
  o.position.file = file ∧ ∃ raw, Text.lineAt? d.lineWidth text o.position.line = some raw ∧
    Text.StandsAt raw o.position.column c

lemma LogicalLine.standsIn_of_mem_fragments {l : LogicalLine}
    (hl : ∀ s ∈ l.segments, s.ReadFrom d format file text) {indent : Nat} {f : Fragment}
    (hf : f ∈ l.fragments indent) {c : Char} {o : Origin} (hx : (c, some o) ∈ f.trace) :
    o.StandsIn d file text c ∧ o.marks.replaced = false ∧ o.marks.inclusions = [] := by
  simp only [fragments, List.mem_cons, List.mem_append, List.not_mem_nil, or_false] at hf
  rcases hf with rfl | hf | rfl
  · simp [Fragment.trace_synthetic] at hx
  · obtain ⟨s, hs, continued, rfl⟩ := mem_segmentFragments hf
    rw [segmentFragment, Fragment.trace_copied _ _ rfl, List.mem_mapIdx] at hx
    obtain ⟨i, hi, hx⟩ := hx
    simp only [Prod.mk.injEq, Option.some.injEq] at hx
    obtain ⟨rfl, rfl⟩ := hx
    have hread := hl s hs
    have hfile : s.source.file = file := by
      rw [hread.source.2]
      rfl
    refine ⟨⟨hfile, s.source.raw, hread.source.1, ?_⟩, rfl, rfl⟩
    exact hread.standsAt i _ (List.getElem?_eq_getElem hi)
  · simp [Fragment.trace_synthetic] at hx

end Unit

/-- A unit that is read is made of the physical lines of its text. -/
lemma SourceUnit.ofLines_of_read {r : LineRules} {name : String} {text : List Char}
    {unit : SourceUnit} (h : SourceUnit.read r name text = .ok unit) :
    ∃ physical tooLong, PhysicalLine.read r.dialect r.format name text = .ok (physical, tooLong) ∧
      unit = SourceUnit.ofLines r name physical tooLong := by
  unfold SourceUnit.read at h
  cases hread : PhysicalLine.read r.dialect r.format name text with
  | error fault =>
    rw [hread] at h
    exact absurd h (by simp [bind, Except.bind])
  | ok result =>
    rw [hread] at h
    exact ⟨result.1, result.2, rfl, (Except.ok.inj h).symm⟩

/-- A unit that is read consists of lines that are read from its text and then marked. -/
lemma SourceUnit.lines_of_read {r : LineRules} {name : String} {text : List Char}
    {unit : SourceUnit} (h : SourceUnit.read r name text = .ok unit) :
    unit.written = LogicalLine.write r.dialect r.format unit.lines ∧ ∀ l ∈ unit.lines,
      ∃ u : LogicalLine, u.ReadFrom r.dialect r.format name text ∧ l = u.mark r.debugging := by
  obtain ⟨physical, tooLong, hread, rfl⟩ := SourceUnit.ofLines_of_read h
  refine ⟨rfl, fun l hl => ?_⟩
  simp only [SourceUnit.ofLines, LogicalLine.markAll, List.mem_map] at hl
  obtain ⟨u, hu, rfl⟩ := hl
  have hlines := LogicalLine.readFrom_ofPhysical (PhysicalLine.lineOf_of_mem_read hread)
  exact ⟨u, LogicalLine.readFrom_flagFrom hlines .initial u hu, rfl⟩

/-- The text of a unit has a well-formed map, and every character with an origin stands where the
origin says. -/
theorem SourceUnit.standsIn_written {r : LineRules} {name : String} {text : List Char}
    {unit : SourceUnit} (h : SourceUnit.read r name text = .ok unit) :
    unit.written.WellFormed ∧ ∀ c o, (c, some o) ∈ unit.written.trace →
      o.StandsIn r.dialect name text c ∧ o.marks.replaced = false ∧ o.marks.inclusions = [] := by
  obtain ⟨hwritten, hlines⟩ := SourceUnit.lines_of_read h
  rw [hwritten]
  refine ⟨LogicalLine.wellFormed_write _ _ _, fun c o hx => ?_⟩
  simp only [LogicalLine.trace_write, List.mem_flatMap] at hx
  obtain ⟨l, hl, f, hf, hx⟩ := hx
  obtain ⟨u, hu, rfl⟩ := hlines l hl
  have hmarked := hu.segments
  rw [← LogicalLine.segments_mark r.debugging u] at hmarked
  exact LogicalLine.standsIn_of_mem_fragments hmarked hf hx

end CobolText
