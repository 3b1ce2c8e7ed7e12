import CobolText.Proofs.ContinuationChains
import CobolText.Proofs.LineOrder

/-!
# Joined lines

What a chain of continuation lines holds, line by line.  If the content so far leaves no literal
open, its trailing blanks go, however many segments they fill, and the continuation follows without
the blanks in front of it.  If it leaves a literal open, nothing goes: spaces fill it up to the
right margin if that is asked for, and the quote in front of the continuation is dropped.  In both
cases a character that is kept stays at its position.
-/

namespace CobolText

namespace Text

lemma trimRight_append (s t : List Char) :
    trimRight (s ++ t) = if trimRight t = [] then trimRight s else s ++ trimRight t := by
  simp only [trimRight, List.reverse_append, List.dropWhile_append, List.isEmpty_iff,
    List.reverse_eq_nil_iff]
  split
  · rfl
  · rw [List.reverse_append, List.reverse_reverse]

lemma take_length_trimRight (s : List Char) : s.take (trimRight s).length = trimRight s :=
  (List.prefix_iff_eq_take.mp (Text.trimRight_prefix s)).symm

end Text

namespace Segment

/-- The column of the last character. -/
def lastColumn (s : Segment) : Int :=
  s.column + s.text.length - 1

/-- Spaces in the columns behind a segment. -/
def padding (s : Segment) (n : Nat) : Segment :=
  { s with column := s.column + s.text.length, text := Text.spaces n }

lemma cells_append_padding (s : Segment) (n : Nat) :
    cells { s with text := s.text ++ Text.spaces n } = s.cells ++ (s.padding n).cells := by
  have h := cells_take_append_drop { s with text := s.text ++ Text.spaces n } s.text.length
  simp only [take, drop, List.take_left, List.drop_left] at h
  exact h.symm

/-- A segment without the blanks at its end has the first of its characters. -/
lemma cells_trimRight (s : Segment) :
    cells { s with text := Text.trimRight s.text } =
      s.cells.take (Text.trimRight s.text).length := by
  rw [← cells_take, take, Text.take_length_trimRight]

end Segment

namespace PhysicalLine

/-- The characters of the content of a line with their positions. -/
def cells (l : PhysicalLine) : List (Char × Position) :=
  Segment.cells ⟨l, l.column, l.content⟩

end PhysicalLine

namespace LogicalLine

section Segments

/-- Trimming takes the blanks at the end of all the text away, and nothing else. -/
lemma cells_trimReversed (segments : List Segment) :
    (trimReversed segments).reverse.flatMap Segment.cells =
      (segments.reverse.flatMap Segment.cells).take
        (Text.trimRight (segments.reverse.flatMap (·.text))).length := by
  induction segments with
  | nil => rfl
  | cons s rest ih =>
    have hlength : (rest.reverse.flatMap Segment.cells).length =
        (rest.reverse.flatMap (·.text)).length := by
      simp only [List.length_flatMap, Segment.length_cells]
    simp only [trimReversed, List.reverse_cons, List.flatMap_append, List.flatMap_singleton,
      Text.trimRight_append, List.isEmpty_iff]
    split
    · rw [ih, List.take_append_of_le_length]
      rw [hlength]
      exact (Text.trimRight_prefix _).length_le
    · rw [List.reverse_cons, List.flatMap_append, List.flatMap_singleton, Segment.cells_trimRight,
        List.length_append, ← hlength, List.take_length_add_append]

lemma cells_trimSegments (segments : List Segment) :
    (trimSegments segments).flatMap Segment.cells =
      (segments.flatMap Segment.cells).take
        (Text.trimRight (segments.flatMap (·.text))).length := by
  have h := cells_trimReversed segments.reverse
  rwa [List.reverse_reverse] at h

lemma content_trimSegments (segments : List Segment) :
    (trimSegments segments).flatMap (·.text) =
      Text.trimRight (segments.flatMap (·.text)) := by
  have h := congrArg (List.map Prod.fst) (cells_trimSegments segments)
  simp only [List.map_flatMap, List.map_take, Segment.map_fst_cells] at h
  rw [h, Text.take_length_trimRight]

lemma broughtText_false (line : PhysicalLine) :
    broughtText false line = Text.trimLeft line.content := by
  unfold broughtText
  split <;> simp_all

lemma cells_continuationSegment (line : PhysicalLine) (literalOpen : Bool) :
    (continuationSegment line literalOpen).cells =
      line.cells.drop (line.content.length - (broughtText literalOpen line).length) := by
  obtain ⟨n, hn, hsegment⟩ := continuationSegment_eq_drop line literalOpen
  have hlength : (broughtText literalOpen line).length = line.content.length - n := by
    rw [← text_continuationSegment, hsegment, Segment.drop, List.length_drop]
  rw [hsegment, Segment.cells_drop, hlength, Nat.sub_sub_self hn]
  rfl

end Segments

section Steps

/-- How many spaces fill a segment up to the right margin of the lines that are read. -/
structure FillsUp (d : Dialect) (format : SourceFormat) (last : Segment) (n : Nat) : Prop where
  toMargin : ∀ margin, d.padContinuedLiterals.isSet = true →
    (d.layout format).margin? = some margin → last.lastColumn < margin →
    last.lastColumn + n = margin
  otherwise : (∀ margin, d.padContinuedLiterals.isSet = true →
    (d.layout format).margin? = some margin → margin ≤ last.lastColumn) → n = 0

/-- What a logical line becomes when a continuation line is joined to it. -/
structure Continues (d : Dialect) (a : LogicalLine) (line : PhysicalLine) (b : LogicalLine) :
    Prop where
  /-- No literal is open. -/
  plain : openQuote (d.hasFloatingComments line.format) a.content = none →
    b.content = Text.trimRight a.content ++ Text.trimLeft line.content ∧
    b.cells = a.cells.take (Text.trimRight a.content).length ++
      line.cells.drop (line.content.length - (Text.trimLeft line.content).length)
  /-- A literal is open. -/
  literal : ∀ quote, openQuote (d.hasFloatingComments line.format) a.content = some quote →
    ∃ last n, a.segments.getLast? = some last ∧ FillsUp d line.format last n ∧
      b.content = a.content ++ Text.spaces n ++ broughtText true line ∧
      b.cells = a.cells ++ (last.padding n).cells ++
        line.cells.drop (line.content.length - (broughtText true line).length)

lemma exists_fillsUp (d : Dialect) (format : SourceFormat) (last : Segment) :
    ∃ n, FillsUp d format last n ∧ ∀ init, (if d.padContinuedLiterals.isSet then
        padSegments (d.layout format).margin? (init ++ [last]) else init ++ [last]) =
      init ++ [{ last with text := last.text ++ Text.spaces n }] := by
  by_cases hpad : d.padContinuedLiterals.isSet = true
  · cases hmargin : (d.layout format).margin? with
    | some margin =>
      refine ⟨(margin - last.lastColumn).toNat, ⟨?_, ?_⟩, fun init => ?_⟩
      · rintro m - hm hlt
        obtain rfl := Option.some.inj (hmargin.symm.trans hm)
        omega
      · intro hle
        have := hle margin hpad hmargin
        omega
      · simp [hpad, padSegments, Segment.lastColumn]
    | none =>
      refine ⟨0, ⟨fun m _ hm => ?_, fun _ => rfl⟩, fun init => ?_⟩
      · rw [hmargin] at hm
        cases hm
      · simp [padSegments, Text.spaces]
  · exact ⟨0, ⟨fun m hset => absurd hset hpad, fun _ => rfl⟩,
      fun init => by simp [hpad, Text.spaces]⟩

/-- Joining a line is a step of the rule. -/
lemma continues_extend (d : Dialect) (a : LogicalLine) (line : PhysicalLine) :
    Continues d a line (a.extend d line) := by
  constructor
  · intro hclosed
    have hsegments : (a.extend d line).segments =
        trimSegments a.segments ++ [continuationSegment line false] := by
      simp [extend, hclosed]
    have hcells : (a.extend d line).cells = a.cells.take (Text.trimRight a.content).length ++
        line.cells.drop (line.content.length - (Text.trimLeft line.content).length) := by
      rw [cells, hsegments, List.flatMap_append, List.flatMap_singleton, cells_trimSegments,
        cells_continuationSegment, broughtText_false]
      rfl
    refine ⟨?_, hcells⟩
    rw [content, hsegments, List.flatMap_append, List.flatMap_singleton, text_continuationSegment,
      broughtText_false, content_trimSegments]
    rfl
  · intro quote hquote
    have hne : a.segments ≠ [] := by
      intro hnil
      simp [content, hnil, openQuote, openQuoteAfter] at hquote
    obtain ⟨init, last, hlast⟩ := List.eq_nil_or_concat' a.segments |>.resolve_left hne
    obtain ⟨n, hfills, hpadded⟩ := exists_fillsUp d line.format last
    have hsegments : (a.extend d line).segments =
        init ++ [{ last with text := last.text ++ Text.spaces n }] ++
          [continuationSegment line true] := by
      rw [← hpadded, ← hlast]
      simp [extend, hquote]
    refine ⟨last, n, by simp [hlast], hfills, ?_, ?_⟩
    · rw [content, hsegments, content, hlast]
      simp [text_continuationSegment]
    · rw [cells, hsegments, cells, hlast]
      simp [Segment.cells_append_padding, cells_continuationSegment]

end Steps

section Chains

variable {d : Dialect}

/-- A line with other lines joined to it one after the other. -/
def joined (d : Dialect) (first : PhysicalLine) (further : List PhysicalLine) : LogicalLine :=
  further.foldl (extend d) (start d first)

lemma joined_concat (first : PhysicalLine) (further : List PhysicalLine) (line : PhysicalLine) :
    joined d first (further ++ [line]) = (joined d first further).extend d line := by
  rw [joined, List.foldl_append, List.foldl_cons, List.foldl_nil, joined]

/-- Every logical line is its first physical line with the further ones joined to it, and none is
joined to a line that is not code. -/
lemma eq_joined_of_mem_ofPhysical {lines : List PhysicalLine} :
    ∀ l ∈ (ofPhysical d lines).1, joined d l.first l.further = l ∧
      (l.further ≠ [] → l.kind.isCode = true) := by
  induction lines using List.reverseRecOn with
  | nil => simp [ofPhysical]
  | append_singleton lines line ih =>
    by_cases hjoins : Joins d lines line
    · obtain ⟨init, last, hinit, hcode, hread⟩ := ofPhysical_concat_of_joins hjoins
      rw [hinit, List.forall_mem_append, List.forall_mem_singleton] at ih
      rw [hread, List.forall_mem_append, List.forall_mem_singleton]
      refine ⟨ih.1, ?_, fun _ => hcode⟩
      have hlast : joined d last.first (last.further ++ [line]) = last.extend d line := by
        rw [joined_concat, ih.2.1]
      exact hlast
    · have hstart : joined d (start d line).first (start d line).further = start d line := by
        have hfirst : (start d line).first = line := (List.cons.inj (provenance_start line)).1
        rw [hfirst]
        rfl
      rw [ofPhysical_concat_of_not_joins hjoins, startLine, List.forall_mem_append,
        List.forall_mem_singleton]
      exact ⟨ih, hstart, fun h => absurd rfl h⟩

end Chains

/-- A logical line that holds more than one physical line is a normal or a debugging line, and each
further line in it continues what the lines before it were joined to. -/
theorem continues_of_mem_ofPhysical {d : Dialect} {lines : List PhysicalLine} {l : LogicalLine}
    (h : l ∈ (ofPhysical d lines).1) :
    joined d l.first l.further = l ∧
    (l.further ≠ [] → l.kind = .normal ∨ l.kind = .debug) ∧
    ∀ before line after, l.further = before ++ line :: after →
      Continues d (joined d l.first before) line (joined d l.first (before ++ [line])) := by
  obtain ⟨hjoined, hcode⟩ := eq_joined_of_mem_ofPhysical l h
  refine ⟨hjoined, fun hne => ?_, fun before line after _ => ?_⟩
  · have hkind := hcode hne
    cases hl : l.kind <;> simp_all [LineKind.isCode]
  · rw [joined_concat]
    exact continues_extend d _ line

/-- The standard with the right margin in column 12. -/
def narrow : Dialect :=
  { Dialect.ansi85 with rightMargin := .number 12 }

/-- A word, a continuation of blanks, and a literal over two lines. -/
def literalLines : List PhysicalLine :=
  ["       AB ", "      -   ", "      - 'C", "      - 'D'"].zipIdx.map fun (raw, i) =>
    PhysicalLine.divide narrow .fixed "LITERAL" (i + 1) raw.toList

/-- The blanks of two segments go, and the literal is filled up to column 12. -/
theorem continues_of_mem_ofPhysical_literal :
    ∃ first blank opened closed, literalLines = [first, blank, opened, closed] ∧
      joined narrow first [blank, opened, closed] ∈ (ofPhysical narrow literalLines).1 ∧
      Continues narrow (joined narrow first [blank]) opened
        (joined narrow first [blank, opened]) ∧
      Continues narrow (joined narrow first [blank, opened]) closed
        (joined narrow first [blank, opened, closed]) ∧
      (joined narrow first [blank, opened, closed]).content = "AB'C  D'".toList := by
  have hmem : joined narrow literalLines[0] [literalLines[1], literalLines[2], literalLines[3]] ∈
      (ofPhysical narrow literalLines).1 := by decide
  obtain ⟨-, -, hsteps⟩ := continues_of_mem_ofPhysical hmem
  exact ⟨literalLines[0], literalLines[1], literalLines[2], literalLines[3], rfl, hmem,
    hsteps [literalLines[1]] literalLines[2] [literalLines[3]] rfl,
    hsteps [literalLines[1], literalLines[2]] literalLines[3] [] rfl, by decide⟩

end LogicalLine

end CobolText
