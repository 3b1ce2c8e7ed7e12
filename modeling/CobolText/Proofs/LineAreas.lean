import CobolText.Proofs.LineFidelity

/-!
# Lines and their areas

Under columns that are in order, reading a text loses nothing of it silently: the areas of a line
and what lies past the greatest width make up the whole line, and for each line that loses more than
blanks there is one warning.
-/

namespace CobolText

/-- Whether the columns of a dialect are in order: lines may be `width` characters long, and the
right margin is not in front of the indicator column. -/
structure Dialect.InOrder (d : Dialect) (width : Nat) : Prop where
  width_eq : d.maxLineWidth.count? = some (width : Int)
  margin_ge : ∃ margin, d.rightMargin.count? = some margin ∧ 7 ≤ margin

namespace Text

/-- The part of a line behind a slice goes on where the slice ends. -/
lemma slice_append_sliceFrom {α : Type} (s : List α) {start stop : Int}
    (h : place s.length start ≤ place s.length stop) :
    slice s start stop ++ sliceFrom s stop = s.drop (place s.length start) := by
  have hrest : s.drop (place s.length stop) =
      (s.drop (place s.length start)).drop (place s.length stop - place s.length start) := by
    rw [List.drop_drop, Nat.add_sub_cancel' h]
  rw [slice, sliceFrom, hrest, List.take_append_drop]

lemma place_le_place (n : Nat) {i j : Int} (hi : 0 ≤ i) (h : i ≤ j) : place n i ≤ place n j := by
  unfold place
  split <;> split <;> omega

end Text

namespace Dialect.InOrder

variable {d : Dialect} {format : SourceFormat} {width : Nat}

lemma indentWidth_le (h : d.InOrder width) {margin : Int}
    (hmargin : (d.layout format).margin? = some margin) :
    (d.layout format).indentWidth ≤ margin := by
  cases format with
  | fixed =>
    obtain ⟨set, hset, hge⟩ := h.margin_ge
    have hsame : some margin = some set := hmargin.symm.trans hset
    rw [Option.some.inj hsame]
    exact hge
  | variableLength => cases hmargin
  | tandem => cases hmargin
  | free => cases hmargin

lemma columnFault?_eq_none (h : d.InOrder width) : d.columnFault? format = none := by
  obtain ⟨margin, hmargin, -⟩ := h.margin_ge
  cases format <;> simp [columnFault?, layout, h.width_eq, hmargin]

lemma lineWidth_eq (h : d.InOrder width) : d.lineWidth = width := by
  rw [lineWidth, h.width_eq]
  rfl

end Dialect.InOrder

namespace PhysicalLine

variable {d : Dialect} {format : SourceFormat} {file : String} {number : Nat} {raw : List Char}

/-- The areas of a line make up the line if the right margin is not in front of the content. -/
lemma areas_divide
    (h : ∀ margin, (d.layout format).margin? = some margin →
      (d.layout format).indentWidth ≤ margin) :
    (divide d format file number raw).sequence ++ (divide d format file number raw).indicator ++
      (divide d format file number raw).content ++
      (divide d format file number raw).identification = raw := by
  have hfront : (divide d format file number raw).sequence ++
      (divide d format file number raw).indicator =
      raw.take (d.layout format).indentWidth := by
    have hsequence : raw.take (d.layout format).sequenceWidth =
        (raw.take (d.layout format).indentWidth).take (d.layout format).sequenceWidth := by
      have hle : (d.layout format).sequenceWidth ≤ (d.layout format).indentWidth :=
        Nat.le_add_right _ _
      rw [List.take_take, Nat.min_eq_left hle]
    simp only [divide]
    rw [hsequence, List.take_append_drop]
  have hback : (divide d format file number raw).content ++
      (divide d format file number raw).identification =
      raw.drop (d.layout format).indentWidth := by
    simp only [divide]
    cases hmargin : (d.layout format).margin? with
    | none => exact List.append_nil _
    | some margin =>
      have hplaces := Text.place_le_place raw.length (Int.natCast_nonneg _) (h margin hmargin)
      dsimp only
      rw [Text.slice_append_sliceFrom raw hplaces, Text.place_natCast, ← List.drop_eq_drop_min]
  rw [List.append_assoc, hback, hfront, List.take_append_drop]

/-- Whether the areas of a line, and what is cut off behind them, make up the line as it stands in
its file, and the content stands in its columns. -/
structure WholeOf (l : PhysicalLine) (raw dropped : List Char) : Prop where
  areas : l.sequence ++ l.indicator ++ l.content ++ l.identification ++ dropped = raw
  column_pos : 1 ≤ l.column
  content : ∀ (j : Nat) (c : Char), l.content[j]? = some c → raw[l.column + j - 1]? = some c

/-- The warning about a line of which everything past the greatest width is dropped. -/
def tooLong (d : Dialect) (file : String) (number : Nat) (raw : List Char) (width : Nat) :
    Diagnostic :=
  ⟨.lineTooLong d.maxLineWidth (raw.length - width), ⟨file, number, width + 1⟩⟩

section Columns

variable {width : Nat} (h : d.InOrder width)

include h

lemma wholeOf_readLine : (readLine d format file number raw).1.WholeOf raw (raw.drop width) := by
  have hcut : Text.sliceTo raw d.lineWidth = raw.take width := by
    rw [h.lineWidth_eq, Text.sliceTo, Text.place_natCast, ← List.take_eq_take_min]
  rw [readLine_fst, hcut]
  refine ⟨?_, Nat.le_add_left 1 _, fun j c hc => ?_⟩
  · rw [areas_divide fun margin hmargin => h.indentWidth_le hmargin, List.take_append_drop]
  · have hraw := getElem?_content_divide hc
    have hlt := (List.getElem?_eq_some_iff.mp hraw).1
    have hcolumn : (divide d format file number (raw.take width)).column + j - 1 =
        (d.layout format).indentWidth + j := by
      simp only [divide, ColumnLayout.contentColumn]
      omega
    rw [List.length_take] at hlt
    rw [hcolumn, ← hraw, List.getElem?_take_of_lt (by omega)]

lemma readLine_snd :
    (readLine d format file number raw).2 =
      if Text.isBlankText (raw.drop width) then none
      else some (tooLong d file number raw width) := by
  have hdropped : Text.sliceFrom raw d.lineWidth = raw.drop width := by
    rw [h.lineWidth_eq, Text.sliceFrom, Text.place_natCast, ← List.drop_eq_drop_min]
  unfold readLine
  dsimp only
  by_cases hlong : d.lineWidth < raw.length
  · rw [if_pos hlong, hdropped, List.length_drop, h.lineWidth_eq]
    rfl
  · have hnothing : raw.drop width = [] := by
      rw [h.lineWidth_eq] at hlong
      exact List.drop_eq_nil_of_le (by omega)
    rw [if_neg hlong, hnothing]
    rfl

lemma warnings_ofText {text : List Char} :
    (ofText d format file text).2 = (Text.physicalLines text).zipIdx.filterMap fun line =>
      if Text.isBlankText (line.1.drop width) then none
      else some (tooLong d file (line.2 + 1) line.1 width) := by
  simp only [ofText, List.filterMap_map, Function.comp_def, readLine_snd h]

lemma mem_warnings_iff {text : List Char} {warning : Diagnostic} :
    warning ∈ (ofText d format file text).2 ↔
      ∃ i raw, (Text.physicalLines text)[i]? = some raw ∧
        (∃ c ∈ raw.drop width, Text.isBlank c = false) ∧
        warning = tooLong d file (i + 1) raw width := by
  have hblank : ∀ raw : List Char, (∃ c ∈ raw.drop width, Text.isBlank c = false) ↔
      ¬Text.isBlankText (raw.drop width) = true := by
    simp [Text.isBlankText_iff]
  simp only [warnings_ofText h, List.mem_filterMap, Prod.exists, List.mk_mem_zipIdx_iff_getElem?,
    hblank]
  constructor
  · rintro ⟨raw, i, hline, hwarning⟩
    split at hwarning
    · cases hwarning
    · rename_i hink
      exact ⟨i, raw, hline, hink, (Option.some.inj hwarning).symm⟩
  · rintro ⟨i, raw, hline, hink, rfl⟩
    exact ⟨raw, i, hline, if_neg hink⟩

lemma pairwise_warnings {text : List Char} :
    (ofText d format file text).2.Pairwise fun a b => a.position.line < b.position.line := by
  rw [warnings_ofText h, List.pairwise_filterMap]
  apply (pairwise_zipIdx (Text.physicalLines text)).imp
  rintro ⟨raw, i⟩ ⟨raw', j⟩ hlt warning hwarning warning' hwarning'
  simp only [Option.ite_none_left_eq_some, Option.some.injEq] at hwarning hwarning'
  rw [← hwarning.2, ← hwarning'.2]
  change ((i + 1 : Nat) : Int) < ((j + 1 : Nat) : Int)
  omega

end Columns

lemma getElem?_ofText {text : List Char} {i : Nat} :
    (ofText d format file text).1[i]? =
      (Text.physicalLines text)[i]?.map fun raw => (readLine d format file (i + 1) raw).1 := by
  simp [ofText, Function.comp_def]

/-- Under columns that are in order, a text is read into one line for each of its own, numbered from
1; the areas of a line and what is cut off make up the line.  There is one warning, in the order of
the lines, for each line of which more than blanks is cut off, and no other. -/
theorem read_lossless {d : Dialect} {width : Nat} (h : d.InOrder width) (format : SourceFormat)
    (file : String) (text : List Char) :
    ∃ lines warnings, read d format file text = .ok (lines, warnings) ∧
      lines.length = (Text.physicalLines text).length ∧
      (∀ i l raw, lines[i]? = some l → (Text.physicalLines text)[i]? = some raw →
        l.number = i + 1 ∧ l.WholeOf raw (raw.drop width)) ∧
      warnings.Pairwise (fun a b => a.position.line < b.position.line) ∧
      ∀ warning, warning ∈ warnings ↔
        ∃ i raw, (Text.physicalLines text)[i]? = some raw ∧
          (∃ c ∈ raw.drop width, Text.isBlank c = false) ∧
          warning = tooLong d file (i + 1) raw width := by
  refine ⟨(ofText d format file text).1, (ofText d format file text).2, ?_, ?_, ?_,
    pairwise_warnings h, fun warning => mem_warnings_iff h⟩
  · rw [read, h.columnFault?_eq_none]
  · simp [ofText]
  · intro i l raw hl hraw
    rw [getElem?_ofText, hraw, Option.map_some] at hl
    obtain rfl := Option.some.inj hl
    exact ⟨by rw [readLine_fst]; rfl, wholeOf_readLine h⟩

section Sample

/-- A dialect whose lines have one column of content, two of identification, and no more. -/
def narrowDialect : Dialect :=
  { Dialect.ansi85 with rightMargin := .number 8, maxLineWidth := .number 10 }

/-- A line that ends in its content, one that loses a letter, and one that loses a blank. -/
def narrowText : List Char :=
  ['A', 'B', 'C', 'D', 'E', 'F', ' ', 'G', '\n',
    'A', 'B', 'C', 'D', 'E', 'F', '-', 'G', 'H', 'I', 'J',
    '\r', '\n', 'A', 'B', 'C', 'D', 'E', 'F', '*', 'G', 'H', 'I', ' ', '\r']

lemma inOrder_narrowDialect : narrowDialect.InOrder 10 :=
  ⟨rfl, 8, rfl, by decide⟩

end Sample

/-- Of three lines only the second one is warned about. -/
theorem read_lossless_narrow :
    narrowDialect.InOrder 10 ∧ ∃ lines warnings,
      read narrowDialect .fixed "A" narrowText = .ok (lines, warnings) ∧ lines.length = 3 ∧
      ∀ warning, warning ∈ warnings ↔
        warning = ⟨.lineTooLong (.number 10) 1, ⟨"A", 2, 11⟩⟩ := by
  have hphysical : Text.physicalLines narrowText =
      [['A', 'B', 'C', 'D', 'E', 'F', ' ', 'G'],
        ['A', 'B', 'C', 'D', 'E', 'F', '-', 'G', 'H', 'I', 'J'],
        ['A', 'B', 'C', 'D', 'E', 'F', '*', 'G', 'H', 'I', ' ']] := by
    decide
  obtain ⟨lines, warnings, hread, hlength, -, -, hwarnings⟩ :=
    read_lossless inOrder_narrowDialect .fixed "A" narrowText
  rw [hphysical] at hlength hwarnings
  refine ⟨inOrder_narrowDialect, lines, warnings, hread, hlength, fun warning => ?_⟩
  rw [hwarnings]
  constructor
  · rintro ⟨i, raw, hraw, ⟨c, hc, hink⟩, rfl⟩
    match i with
    | 0 =>
      obtain rfl := Option.some.inj hraw
      cases hc
    | 1 =>
      obtain rfl := Option.some.inj hraw
      rfl
    | 2 =>
      obtain rfl := Option.some.inj hraw
      obtain rfl : c = ' ' := List.mem_singleton.mp hc
      cases hink
    | i + 3 => cases hraw
  · rintro rfl
    exact ⟨1, _, rfl, ⟨'J', by decide, by decide⟩, rfl⟩

end PhysicalLine

end CobolText
