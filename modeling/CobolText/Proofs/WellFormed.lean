import CobolText.Proofs.Trace

/-!
# Well-formed origin maps

A map is well-formed if its extents hold at least one character each, lie inside the text, and
come one behind the other without overlap.  Every text that is assembled from well-formed
fragments has such a map, and in such a map a character belongs to at most one extent.
-/

namespace CobolText

/-- Extents that come one behind the other. -/
def Extent.Apart (es : List Extent) : Prop :=
  es.Pairwise fun a b => a.stop ≤ b.start

/-- The extents that meet an interval are all those that start before its end and end behind its
beginning. -/
lemma OriginMap.between_eq_filter {m : OriginMap} (h : Extent.Apart m.toList) (start stop : Int) :
    m.between start stop = m.toList.filter fun e => e.start < stop ∧ start < e.stop := by
  have htake : ∀ x, m.toList.take (firstAbove m.extents Extent.start x) =
      m.toList.filter fun e => e.start ≤ x := fun x => take_firstAbove x m.ascending
  have hlength := firstAbove_eq_length_filter start m.ascending
  -- What the search leaves out ends where the last extent to start at or before `start` starts.
  have hskipped : ∀ e ∈ m.toList.take (firstAbove m.extents Extent.start start - 1),
      e.stop ≤ start := by
    intro e he
    have hinit : m.toList.take (firstAbove m.extents Extent.start start - 1) =
        (m.toList.filter fun e => e.start ≤ start).dropLast := by
      rw [List.dropLast_eq_take, ← htake start, List.take_take, List.length_take]
      congr 1
      have hle : firstAbove m.extents Extent.start start ≤ m.toList.length :=
        hlength ▸ List.length_filter_le _ _
      omega
    rw [hinit] at he
    have hne : (m.toList.filter fun e => e.start ≤ start) ≠ [] := by
      intro hnil
      simp [hnil] at he
    have happart := h.filter fun e => decide (e.start ≤ start)
    rw [← List.dropLast_append_getLast hne, List.pairwise_append] at happart
    have hstop := happart.2.2 e he _ (List.mem_singleton_self _)
    have hstart := (List.mem_filter.mp (List.getLast_mem hne)).2
    simp only [decide_eq_true_eq] at hstart
    omega
  unfold OriginMap.between
  dsimp only
  rw [Array.toList_extract, List.extract_eq_take_drop, ← List.drop_take]
  change ((m.toList.take _).drop _).filter _ = _
  have hnone : ((m.toList.take (firstAbove m.extents Extent.start (stop - 1))).take
      (firstAbove m.extents Extent.start start - 1)).filter (fun e => start < e.stop) = [] := by
    rw [List.filter_eq_nil_iff]
    intro e he
    rw [List.take_take] at he
    have := hskipped e (List.take_subset_take_left _ (Nat.min_le_left _ _) he)
    simp only [decide_eq_true_eq]
    omega
  have hdrop : ((m.toList.take (firstAbove m.extents Extent.start (stop - 1))).drop
      (firstAbove m.extents Extent.start start - 1)).filter (fun e => start < e.stop) =
      (m.toList.take (firstAbove m.extents Extent.start (stop - 1))).filter
        fun e => start < e.stop := by
    conv_rhs => rw [← List.take_append_drop (firstAbove m.extents Extent.start start - 1)
      (m.toList.take (firstAbove m.extents Extent.start (stop - 1))), List.filter_append,
      hnone, List.nil_append]
  rw [hdrop, htake, List.filter_filter]
  apply List.filter_congr
  intro e _
  rw [Bool.eq_iff_iff]
  simp only [Bool.and_eq_true, decide_eq_true_eq]
  omega

/-- A map finds the extent that holds a character. -/
lemma OriginMap.extentAt?_eq_some_iff {m : OriginMap} (h : Extent.Apart m.toList) {e : Extent}
    {offset : Int} :
    m.extentAt? offset = some e ↔ e ∈ m.toList ∧ e.covers offset = true := by
  rw [extentAt?_eq_at?]
  constructor
  · intro hat
    obtain ⟨hmem, hcovers⟩ := Extent.covers_of_at? hat
    exact ⟨hmem, Extent.covers_iff.mpr hcovers⟩
  · rintro ⟨hmem, hcovers⟩
    obtain ⟨h1, h2⟩ := Extent.covers_iff.mp hcovers
    rw [Extent.at?, getLast?_filter_of_apart h hmem h1 h2]
    simp [Option.filter, hcovers]

namespace Fragment

/-- Proper extents that do not overlap. -/
structure WellFormed (f : Fragment) : Prop where
  proper : f.Proper
  apart : Extent.Apart f.extents

lemma wellFormed_empty : empty.WellFormed :=
  ⟨proper_empty, List.Pairwise.nil⟩

lemma wellFormed_synthetic (text : List Char) : (synthetic text).WellFormed :=
  ⟨proper_synthetic text, List.Pairwise.nil⟩

lemma wellFormed_copied (text : List Char) (position : Position) (marks : Marks) :
    (copied text position marks).WellFormed := by
  refine ⟨proper_copied text position marks, ?_⟩
  unfold copied
  split
  · exact List.Pairwise.nil
  · exact List.pairwise_singleton _ _

lemma wellFormed_replacement (text : List Char) (replaced : Option Extent)
    (position : Option Position) : (replacement text replaced position).WellFormed := by
  unfold replacement
  split
  · exact wellFormed_copied _ _ _
  · exact wellFormed_synthetic _

lemma WellFormed.append {a b : Fragment} (ha : a.WellFormed) (hb : b.WellFormed) :
    (a.append b).WellFormed := by
  refine ⟨ha.proper.append hb.proper, ?_⟩
  simp only [Fragment.append, Extent.Apart]
  rw [List.pairwise_append]
  refine ⟨ha.apart, ?_, ?_⟩
  · rw [List.pairwise_map]
    exact hb.apart.imp fun h => by simp only [Extent.shift]; omega
  · intro e he e' he'
    obtain ⟨e'', he'', rfl⟩ := List.mem_map.mp he'
    have h1 := ha.proper.bounds e he
    have h2 := hb.proper.bounds e'' he''
    simp only [Extent.shift]
    omega

lemma wellFormed_join {fs : List Fragment} (h : ∀ f ∈ fs, f.WellFormed) :
    (join fs).WellFormed := by
  induction fs with
  | nil => exact wellFormed_empty
  | cons f fs ih =>
    rw [join_cons]
    exact (h f (by simp)).append (ih fun g hg => h g (by simp [hg]))

end Fragment

namespace TracedText

/-- Proper extents that do not overlap. -/
structure WellFormed (t : TracedText) : Prop where
  proper : t.Proper
  apart : Extent.Apart t.extents

lemma WellFormed.nonempty {t : TracedText} (ht : t.WellFormed) :
    ∀ e ∈ t.extents, e.start < e.stop :=
  fun e he => (ht.proper e he).2.1

lemma wellFormed_assemble {fs : List Fragment} (h : ∀ f ∈ fs, f.WellFormed) :
    (assemble fs).WellFormed := by
  have hproper : ∀ f ∈ fs, f.Proper := fun f hf => (h f hf).proper
  refine ⟨proper_assemble hproper, ?_⟩
  rw [extents_assemble hproper]
  exact (Fragment.wellFormed_join h).apart

/-- A part of a well-formed text is well-formed. -/
lemma WellFormed.cut {t : TracedText} (ht : t.WellFormed) (start : Nat) {stop : Nat}
    (h : stop ≤ t.text.length) (inclusions : List String) :
    (t.cut start stop inclusions).WellFormed := by
  refine ⟨t.proper_cut start h inclusions, ?_⟩
  by_cases hlt : (start : Int) < stop
  · rw [extents_cut t hlt, Extent.Apart, List.pairwise_filterMap]
    have hapart := ht.apart.sublist (t.crossed_sublist start stop)
    apply (hapart.and (t.pairwise_crossed start stop)).imp
    rintro a b ⟨hab, hb⟩ p hp q hq
    have := (Extent.piece?_eq_some hp).2.2.1
    have := (Extent.piece?_eq_some hq).2.1
    omega
  · simp only [TracedText.cut, hlt, if_false]
    exact List.Pairwise.nil

lemma WellFormed.whole {t : TracedText} (ht : t.WellFormed) (inclusions : List String) :
    (t.whole inclusions).WellFormed :=
  ht.cut 0 (Nat.le_refl _) inclusions

lemma WellFormed.extentAt?_eq_some_iff {t : TracedText} (ht : t.WellFormed) {e : Extent}
    {offset : Int} :
    t.map.extentAt? offset = some e ↔ e ∈ t.extents ∧ e.covers offset = true :=
  OriginMap.extentAt?_eq_some_iff ht.apart

/-- The extent that holds a character is the one that a lookup finds. -/
theorem WellFormed.extentAt?_eq_some {t : TracedText} (ht : t.WellFormed) {e : Extent}
    {offset : Int} (he : e ∈ t.extents) (hc : e.covers offset = true) :
    t.map.extentAt? offset = some e :=
  ht.extentAt?_eq_some_iff.mpr ⟨he, hc⟩

/-- A character that an extent covers has its origin from that extent. -/
lemma WellFormed.getElem?_trace_of_covers {t : TracedText} (ht : t.WellFormed) {e : Extent}
    {offset : Nat} (he : e ∈ t.extents) (hc : e.covers offset = true) :
    ∃ c, t.text[offset]? = some c ∧ t.trace[offset]? = some (c, some (e.originAt offset)) := by
  have hlt : offset < t.text.length := by
    have := ht.proper e he
    have := Extent.covers_iff.mp hc
    omega
  have hchar := List.getElem?_eq_getElem hlt
  refine ⟨t.text[offset], hchar, ?_⟩
  rw [getElem?_trace, hchar, OriginMap.originAt?, ht.extentAt?_eq_some he hc]
  rfl

end TracedText

end CobolText
