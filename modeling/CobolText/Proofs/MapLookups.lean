import CobolText.Proofs.WellFormed
import Mathlib.Order.Bounds.Basic

/-!
# Lookups by halving

In a map whose extents ascend, share no character and hold at least one each, the lookups by halving
give what a scan through all extents gives: the extent that holds a character, those that meet an
interval, and the position of the first character of an interval that has one.
-/

namespace CobolText

namespace Extent

/-- Whether extents ascend, share no character and hold at least one each. -/
structure Orderly (es : List Extent) : Prop where
  ascending : es.Pairwise fun a b => a.start ≤ b.start
  disjoint : es.Pairwise fun a b => ∀ offset, ¬(a.covers offset = true ∧ b.covers offset = true)
  nonempty : ∀ e ∈ es, e.start < e.stop

/-- Extents that share no character come one behind the other: otherwise the first character of the
second one would belong to the first one, too. -/
lemma Orderly.apart {es : List Extent} (h : Orderly es) : Apart es := by
  apply (h.ascending.and h.disjoint).imp_of_mem
  rintro a b - hb ⟨hle, hdisjoint⟩
  by_contra hover
  apply hdisjoint b.start
  rw [covers_iff, covers_iff]
  have := h.nonempty b hb
  omega

/-- Whether one of some extents holds the character at an offset. -/
def Mapped (es : List Extent) (offset : Int) : Prop :=
  ∃ e ∈ es, e.covers offset = true

end Extent

namespace OriginMap

variable {m : OriginMap} {start stop : Int}

lemma extentAt?_eq_find? (h : Extent.Apart m.toList) (offset : Int) :
    m.extentAt? offset = m.toList.find? fun e => e.covers offset := by
  cases hfind : m.toList.find? fun e => e.covers offset with
  | none =>
    rw [Option.eq_none_iff_forall_ne_some]
    intro e he
    obtain ⟨hmem, hcovers⟩ := (extentAt?_eq_some_iff h).mp he
    exact List.find?_eq_none.mp hfind e hmem hcovers
  | some e =>
    have hcovers := List.find?_some hfind
    exact (extentAt?_eq_some_iff h).mpr ⟨List.mem_of_find?_eq_some hfind, hcovers⟩

lemma mem_between_of_covers (h : Extent.Apart m.toList) {e : Extent} {offset : Int}
    (hmem : e ∈ m.toList) (hcovers : e.covers offset = true) (hle : start ≤ offset)
    (hlt : offset < stop) : e ∈ m.between start stop := by
  rw [between_eq_filter h, List.mem_filter]
  obtain ⟨h1, h2⟩ := Extent.covers_iff.mp hcovers
  refine ⟨hmem, ?_⟩
  simp only [decide_eq_true_eq]
  omega

/-- The first extent to meet an interval holds the first character of the interval that any extent
holds. -/
lemma isLeast_of_between_eq_cons (h : Extent.Apart m.toList)
    (hnonempty : ∀ e ∈ m.toList, e.start < e.stop) (hlt : start < stop) {e : Extent}
    {es : List Extent} (hbetween : m.between start stop = e :: es) :
    m.extentAt? (max e.start start) = some e ∧
      IsLeast {x | start ≤ x ∧ x < stop ∧ Extent.Mapped m.toList x} (max e.start start) := by
  have hmeets : e ∈ m.between start stop := by simp [hbetween]
  rw [between_eq_filter h, List.mem_filter, decide_eq_true_eq] at hmeets
  obtain ⟨hmem, hbefore, hbehind⟩ := hmeets
  have hproper := hnonempty e hmem
  have hcovers : e.covers (max e.start start) = true := by
    rw [Extent.covers_iff]
    omega
  refine ⟨(extentAt?_eq_some_iff h).mpr ⟨hmem, hcovers⟩,
    ⟨by omega, by omega, e, hmem, hcovers⟩, ?_⟩
  rintro x ⟨hle, hx, e', hmem', hcovers'⟩
  have happart : Extent.Apart (e :: es) := by
    rw [← hbetween, between_eq_filter h]
    exact h.filter _
  have hmeets' := mem_between_of_covers h hmem' hcovers' hle hx
  rw [hbetween] at hmeets'
  obtain ⟨hfrom, -⟩ := Extent.covers_iff.mp hcovers'
  rcases List.mem_cons.mp hmeets' with rfl | hlater
  · omega
  · have := (List.pairwise_cons.mp happart).1 e' hlater
    omega

lemma firstPosition?_cases (h : Extent.Apart m.toList)
    (hnonempty : ∀ e ∈ m.toList, e.start < e.stop) (hlt : start < stop) :
    (∃ x, IsLeast {x | start ≤ x ∧ x < stop ∧ Extent.Mapped m.toList x} x ∧
      m.firstPosition? start stop = m.positionAt? x) ∨
    ((∀ x, start ≤ x → x < stop → ¬Extent.Mapped m.toList x) ∧
      m.firstPosition? start stop = none) := by
  unfold firstPosition?
  cases hbetween : m.between start stop with
  | nil =>
    right
    refine ⟨?_, rfl⟩
    rintro x hle hx ⟨e, hmem, hcovers⟩
    have hmeets := mem_between_of_covers h hmem hcovers hle hx
    simp [hbetween] at hmeets
  | cons e es =>
    left
    obtain ⟨hfound, hleast⟩ := isLeast_of_between_eq_cons h hnonempty hlt hbetween
    refine ⟨_, hleast, ?_⟩
    rw [positionAt?, hfound]
    rfl

/-- In an orderly map, a lookup gives the only extent that holds the character, an interval gives
the extents that meet it, in order, and the first position in an interval is the position of the
first character of the interval that any extent holds. -/
theorem lookups_scan {es : List Extent} (h : Extent.Orderly es) :
    (∀ offset, (ofList es).extentAt? offset = es.find? fun e => e.covers offset) ∧
    (∀ offset e, (ofList es).extentAt? offset = some e ↔
      e ∈ es ∧ e.start ≤ offset ∧ offset < e.stop) ∧
    (∀ start stop, (ofList es).between start stop =
      es.filter fun e => e.start < stop ∧ start < e.stop) ∧
    ∀ start stop, start < stop →
      (∃ x, IsLeast {x | start ≤ x ∧ x < stop ∧ Extent.Mapped es x} x ∧
        (ofList es).firstPosition? start stop = (ofList es).positionAt? x) ∨
      ((∀ x, start ≤ x → x < stop → ¬Extent.Mapped es x) ∧
        (ofList es).firstPosition? start stop = none) := by
  have hlist : (ofList es).toList = es := TracedText.toList_ofList h.ascending
  have happart : Extent.Apart (ofList es).toList := by
    rw [hlist]
    exact h.apart
  have hnonempty : ∀ e ∈ (ofList es).toList, e.start < e.stop := by
    rw [hlist]
    exact h.nonempty
  refine ⟨fun offset => ?_, fun offset e => ?_, fun start stop => ?_, fun start stop hlt => ?_⟩
  · rw [extentAt?_eq_find? happart, hlist]
  · rw [extentAt?_eq_some_iff happart, hlist, Extent.covers_iff]
  · rw [between_eq_filter happart, hlist]
  · have hcases := firstPosition?_cases happart hnonempty hlt
    rwa [hlist] at hcases

section Sample

/-- Two extents with a gap between them. -/
def gapExtents : List Extent :=
  [⟨2, 5, ⟨"A", 1, 8⟩, {}⟩, ⟨7, 9, ⟨"B", 3, 1⟩, {}⟩]

lemma orderly_gapExtents : Extent.Orderly gapExtents where
  ascending := by simp [gapExtents]
  disjoint := by
    simp only [gapExtents, List.pairwise_cons, List.mem_singleton, forall_eq, List.not_mem_nil,
      false_implies, implies_true, List.Pairwise.nil, and_true, Extent.covers_iff]
    omega
  nonempty := by simp [gapExtents]

end Sample

/-- Offset 5 lies in the gap, an interval that ends before it starts meets the extent around it, and
the first position from 5 on is that of offset 7. -/
theorem lookups_scan_gap :
    Extent.Orderly gapExtents ∧ (ofList gapExtents).extentAt? 5 = none ∧
      (ofList gapExtents).between 4 3 = [⟨2, 5, ⟨"A", 1, 8⟩, {}⟩] ∧ (5 : Int) < 9 ∧
      (ofList gapExtents).firstPosition? 5 9 = (ofList gapExtents).positionAt? 7 := by
  obtain ⟨hfind, -, hbetween, hfirst⟩ := lookups_scan orderly_gapExtents
  have hmapped : Extent.Mapped gapExtents 7 := ⟨⟨7, 9, ⟨"B", 3, 1⟩, {}⟩, by decide, by decide⟩
  refine ⟨orderly_gapExtents, by rw [hfind]; rfl, by rw [hbetween]; rfl, by decide, ?_⟩
  obtain ⟨x, ⟨⟨hle, hlt, e, hmem, hcovers⟩, hleast⟩, hposition⟩ | ⟨hnone, -⟩ :=
    hfirst 5 9 (by decide)
  · rw [hposition]
    have hx : x ≤ 7 := hleast ⟨by decide, by decide, hmapped⟩
    rw [Extent.covers_iff] at hcovers
    simp only [gapExtents, List.mem_cons, List.not_mem_nil, or_false] at hmem
    obtain rfl | rfl := hmem
    · simp only at hcovers
      omega
    · simp only at hcovers
      rw [show x = 7 by omega]
  · exact absurd hmapped (hnone 7 (by decide) (by decide))

end OriginMap

end CobolText
