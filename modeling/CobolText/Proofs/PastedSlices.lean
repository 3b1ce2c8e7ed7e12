import CobolText.Proofs.BuiltMaps

/-!
# Slices pasted together

A slice of a text is pasted behind what has been built so far.  The text and the extents that are
there stay as they are, and every character of the slice keeps its origin, seen through the
copybooks that the slice is put in.  So a text that is cut at any offsets and pasted together again
answers every lookup as before.

Lookups in what is built need its extents to lie in its text.  They do as long as slices are taken
from inside of their sources, whether the maps of the sources are well-formed or not.
-/

namespace CobolText

namespace BuildStep

/-- Whether the operation takes no more than its source holds. -/
def InBounds : BuildStep → Prop
  | slice source start stop _ => start < stop → 0 ≤ start ∧ stop ≤ source.text.length
  | whole _ _ | synthetic _ | copied _ _ _ | replacement _ _ _ => True

lemma InBounds.proper {step : BuildStep} (h : step.InBounds) : step.fragment.Proper := by
  cases step with
  | synthetic text => exact Fragment.proper_synthetic text
  | copied text position marks => exact Fragment.proper_copied text position marks
  | slice source start stop inclusions =>
    by_cases hlt : start < stop
    · obtain ⟨hstart, hstop⟩ := h hlt
      lift start to ℕ using hstart
      lift stop to ℕ using (by omega)
      exact source.proper_cut start (Int.ofNat_le.mp hstop) inclusions
    · have hempty : source.cut start stop inclusions = Fragment.empty := if_neg hlt
      rw [fragment, hempty]
      exact Fragment.proper_empty
  | whole source inclusions => exact source.proper_whole inclusions
  | replacement text replaced position => exact Fragment.proper_replacement text replaced position

end BuildStep

/-- The states of a text under construction. -/
inductive Fragment.Built : Fragment → Prop
  | empty : Built empty
  | grow {b : Fragment} {step : BuildStep} :
      Built b → step.InBounds → Built (b.append step.fragment)

lemma Fragment.Built.proper {b : Fragment} (h : b.Built) : b.Proper := by
  induction h with
  | empty => exact proper_empty
  | grow _ hstep ih => exact ih.append hstep.proper

lemma OriginMap.positionAt?_eq_map_originAt? (m : OriginMap) (offset : Int) :
    m.positionAt? offset = (m.originAt? offset).map Origin.position := by
  rw [positionAt?, originAt?, Option.map_map]
  rfl

namespace TracedText

lemma originAt?_of_getElem?_trace {t : TracedText} {i : Nat} {x : TracedChar}
    (h : t.trace[i]? = some x) : t.text[i]? = some x.1 ∧ t.map.originAt? i = x.2 := by
  rw [getElem?_trace] at h
  obtain ⟨c, hc, rfl⟩ := Option.map_eq_some_iff.mp h
  exact ⟨hc, rfl⟩

lemma Proper.originAt?_eq_none {t : TracedText} (ht : t.Proper) {offset : Int}
    (h : offset < 0 ∨ (t.text.length : Int) ≤ offset) : t.map.originAt? offset = none := by
  rw [OriginMap.originAt?_eq, Extent.originIn, Option.map_eq_none_iff]
  by_contra hsome
  obtain ⟨e, he⟩ := Option.ne_none_iff_exists'.mp hsome
  obtain ⟨hmem, hstart, hstop⟩ := Extent.covers_of_at? he
  have := ht e hmem
  omega

/-- A text with the trace of another one answers every lookup as that does. -/
lemma Proper.originAt?_of_trace {t u : TracedText} (ht : t.Proper) (hu : u.Proper)
    {inclusions : List String} (h : u.trace = t.trace.map (TracedChar.within inclusions))
    (offset : Int) :
    u.map.originAt? offset = (t.map.originAt? offset).map fun o => o.within inclusions := by
  have hlength : u.text.length = t.text.length := by
    have := congrArg List.length h
    simpa using this
  by_cases hin : 0 ≤ offset ∧ offset < t.text.length
  · obtain ⟨hpos, hlt⟩ := hin
    lift offset to ℕ using hpos
    have hchar : t.trace[offset]? = some (t.text[offset], t.map.originAt? offset) := by
      rw [getElem?_trace, List.getElem?_eq_getElem (by omega)]
      rfl
    have hget := congrArg (fun xs => xs[offset]?) h
    simp only [List.getElem?_map, hchar, Option.map_some] at hget
    exact (originAt?_of_getElem?_trace hget).2
  · rw [ht.originAt?_eq_none (by omega), hu.originAt?_eq_none (by omega)]
    rfl

/-- The extents of a slice give its characters the origins that they have in the text. -/
lemma originIn_cut {t : TracedText} (ht : t.WellFormed) {start stop i : Nat}
    (hstop : stop ≤ t.text.length) (h1 : start ≤ i) (h2 : i < stop) (inclusions : List String) :
    Extent.originIn (t.cut start stop inclusions).extents (i - start : Nat) =
      (t.map.originAt? i).map fun o => o.within inclusions := by
  have htrace := t.trace_cut ht.nonempty start hstop inclusions
  have hget := congrArg (fun xs => xs[i - start]?) htrace
  have hchar : t.text[i]? = some t.text[i] := List.getElem?_eq_getElem (by omega)
  simp only [Fragment.getElem?_trace, t.text_cut start hstop, List.getElem?_map,
    List.getElem?_drop, Nat.add_sub_cancel' h1, List.getElem?_take_of_lt h2, getElem?_trace, hchar,
    Option.map_some, TracedChar.within, Option.some.injEq, Prod.mk.injEq, true_and] at hget
  exact hget

/-- What pasting a slice behind `b` does.  The extents that it adds hold the origins of the slice
whatever `b` is, and so do lookups if `b` has been built. -/
structure Pasted (t : TracedText) (start stop : Nat) (inclusions : List String) (b : Fragment) :
    Prop where
  text : (b.append (t.cut start stop inclusions)).text = b.text ++ (t.text.take stop).drop start
  extents : ∃ added, (b.append (t.cut start stop inclusions)).extents = b.extents ++ added ∧
    ∀ i, start ≤ i → i < stop → Extent.originIn added (b.text.length + i - start : Nat) =
      (t.map.originAt? i).map fun o => o.within inclusions
  before : b.Built → ∀ i, i < b.text.length →
    (assemble [b.append (t.cut start stop inclusions)]).map.originAt? i =
      (assemble [b]).map.originAt? i
  inside : b.Built → ∀ i, start ≤ i → i < stop →
    (assemble [b.append (t.cut start stop inclusions)]).text[b.text.length + i - start]? =
      t.text[i]? ∧
    (assemble [b.append (t.cut start stop inclusions)]).map.originAt?
      (b.text.length + i - start : Nat) = (t.map.originAt? i).map fun o => o.within inclusions

lemma WellFormed.pasted {t : TracedText} (ht : t.WellFormed) {start stop : Nat}
    (hstop : stop ≤ t.text.length) (inclusions : List String) (b : Fragment) :
    t.Pasted start stop inclusions b := by
  have htext := t.text_cut start hstop inclusions
  have hcut := t.proper_cut start hstop inclusions
  have htrace : b.Built → (assemble [b.append (t.cut start stop inclusions)]).trace =
      (assemble [b]).trace ++ (t.cut start stop inclusions).trace := by
    intro hb
    rw [trace_assemble (by simpa using hb.proper.append hcut),
      trace_assemble (by simpa using hb.proper)]
    simp [Fragment.trace_append hb.proper hcut]
  constructor
  · rw [Fragment.text_append, htext]
  · refine ⟨_, rfl, fun i h1 h2 => ?_⟩
    have hoffset : ((b.text.length + i - start : Nat) : Int) =
        (i - start : Nat) + b.text.length := by
      omega
    rw [hoffset, Extent.originIn_map_shift, originIn_cut ht hstop h1 h2]
  · intro hb i hi
    have hchar : (assemble [b]).trace[i]? =
        some (b.text[i], (assemble [b]).map.originAt? i) := by
      rw [getElem?_trace]
      simp [hi]
    have hget : (assemble [b.append (t.cut start stop inclusions)]).trace[i]? =
        (assemble [b]).trace[i]? := by
      rw [htrace hb, List.getElem?_append_left (by simpa using hi)]
    exact (originAt?_of_getElem?_trace (hget.trans hchar)).2
  · intro hb i h1 h2
    have hchar : t.text[i]? = some t.text[i] := List.getElem?_eq_getElem (by omega)
    have hget : (assemble [b.append (t.cut start stop inclusions)]).trace[
        b.text.length + i - start]? =
          some (t.text[i], (t.map.originAt? i).map fun o => o.within inclusions) := by
      rw [htrace hb, List.getElem?_append_right (by simp; omega), length_trace, text_assemble,
        List.flatMap_singleton, show b.text.length + i - start - b.text.length = i - start by omega,
        Fragment.getElem?_trace, htext, List.getElem?_drop, Nat.add_sub_cancel' h1,
        List.getElem?_take_of_lt h2, hchar, Option.map_some, originIn_cut ht hstop h1 h2]
    rw [hchar]
    exact originAt?_of_getElem?_trace hget

/-- A text cut at offsets, from `pos` to its end. -/
def pieces (t : TracedText) (inclusions : List String) (pos : Nat) : List Nat → List Fragment
  | [] => [t.cut pos t.text.length inclusions]
  | offset :: offsets => t.cut pos offset inclusions :: t.pieces inclusions offset offsets

lemma proper_pieces (t : TracedText) (inclusions : List String) (pos : Nat) {offsets : List Nat}
    (h : ∀ offset ∈ offsets, offset ≤ t.text.length) :
    ∀ f ∈ t.pieces inclusions pos offsets, f.Proper := by
  induction offsets generalizing pos with
  | nil =>
    intro f hf
    rw [List.mem_singleton.mp hf]
    exact t.proper_cut pos (Nat.le_refl _) inclusions
  | cons offset offsets ih =>
    rw [List.forall_mem_cons] at h
    exact List.forall_mem_cons.mpr ⟨t.proper_cut pos h.1 inclusions, ih offset h.2⟩

/-- Pieces that lie end to end hold the trace of the text from where they start. -/
lemma flatMap_trace_pieces {t : TracedText} (ht : t.WellFormed) (inclusions : List String)
    {pos : Nat} {offsets : List Nat} (hasc : (pos :: offsets).Pairwise (· ≤ ·))
    (h : ∀ offset ∈ offsets, offset ≤ t.text.length) :
    (t.pieces inclusions pos offsets).flatMap Fragment.trace =
      (t.trace.drop pos).map (TracedChar.within inclusions) := by
  induction offsets generalizing pos with
  | nil =>
    rw [pieces, List.flatMap_singleton, t.trace_cut ht.nonempty pos (Nat.le_refl _),
      List.take_of_length_le (by simp)]
  | cons offset offsets ih =>
    obtain ⟨hpos, hasc⟩ := List.pairwise_cons.mp hasc
    rw [List.forall_mem_cons] at h
    have hle := hpos offset (by simp)
    rw [pieces, List.flatMap_cons, ih hasc h.2, t.trace_cut ht.nonempty pos h.1,
      ← List.map_append]
    congr 1
    have hsplit := List.take_append_drop (offset - pos) (t.trace.drop pos)
    rw [List.drop_drop, Nat.add_sub_cancel' hle, ← List.drop_take] at hsplit
    exact hsplit

/-- A slice that is pasted behind anything leaves it as it is and keeps the origins of its
characters, and a text that is cut at ascending offsets and pasted together answers every lookup as
before. -/
theorem slices_pasted {t : TracedText} (ht : t.WellFormed) (inclusions : List String) :
    (∀ start stop, stop ≤ t.text.length → ∀ b, t.Pasted start stop inclusions b) ∧
    ∀ offsets : List Nat, offsets.Pairwise (· ≤ ·) → (∀ offset ∈ offsets, offset ≤ t.text.length) →
      (assemble (t.pieces inclusions 0 offsets)).text = t.text ∧
      ∀ offset : Int,
        (assemble (t.pieces inclusions 0 offsets)).map.positionAt? offset =
          t.map.positionAt? offset ∧
        (assemble (t.pieces inclusions 0 offsets)).map.originAt? offset =
          (t.map.originAt? offset).map fun o => o.within inclusions := by
  refine ⟨fun start stop hstop b => ht.pasted hstop inclusions b, fun offsets hasc h => ?_⟩
  have hproper := t.proper_pieces inclusions 0 h
  have htrace : (assemble (t.pieces inclusions 0 offsets)).trace =
      t.trace.map (TracedChar.within inclusions) := by
    rw [trace_assemble hproper,
      flatMap_trace_pieces ht inclusions (List.pairwise_cons.mpr ⟨by simp, hasc⟩) h, List.drop_zero]
  have horigin := ht.proper.originAt?_of_trace (proper_assemble hproper) htrace
  refine ⟨?_, fun offset => ⟨?_, horigin offset⟩⟩
  · rw [← map_fst_trace, htrace, List.map_map]
    exact map_fst_trace t
  · rw [OriginMap.positionAt?_eq_map_originAt?, OriginMap.positionAt?_eq_map_originAt?,
      horigin offset, Option.map_map]
    rfl

/-- A word that has been written behind nothing. -/
def sampleWord : Fragment :=
  Fragment.empty.append (BuildStep.copied ['C'] ⟨"main", 1, 1⟩ {}).fragment

/-- Code and a comment behind a word, and a text that is cut three times, once to no avail. -/
theorem slices_pasted_sampleLine :
    sampleLine.WellFormed ∧ 13 ≤ sampleLine.text.length ∧ sampleWord.Built ∧
      (assemble [sampleWord.append (sampleLine.cut 5 13 ["BOOK"])]).text[8]? = some '>' ∧
      (assemble [sampleWord.append (sampleLine.cut 5 13 ["BOOK"])]).map.originAt? 8 =
        some ⟨⟨"main", 2, 9⟩, { comment := true, inclusions := ["BOOK"] }⟩ ∧
      (assemble (sampleLine.pieces ["BOOK"] 0 [3, 3, 13])).text = sampleLine.text ∧
      (assemble (sampleLine.pieces ["BOOK"] 0 [3, 3, 13])).map.positionAt? 12 =
        some ⟨"main", 2, 9⟩ := by
  have hbuilt : sampleWord.Built := .grow .empty trivial
  have hlength : 13 ≤ sampleLine.text.length := by decide
  have horigin : sampleLine.map.originAt? 12 = some ⟨⟨"main", 2, 9⟩, { comment := true }⟩ := by
    cbv
  obtain ⟨hpaste, hpieces⟩ := slices_pasted wellFormed_sampleLine ["BOOK"]
  obtain ⟨hchar, hpasted⟩ :=
    (hpaste 5 13 hlength sampleWord).inside hbuilt 12 (by decide) (by decide)
  obtain ⟨htext, hlookup⟩ := hpieces [3, 3, 13] (by decide) (by decide)
  refine ⟨wellFormed_sampleLine, hlength, hbuilt, hchar, ?_, htext, ?_⟩
  · exact hpasted.trans (congrArg (Option.map fun o => o.within ["BOOK"]) horigin)
  · rw [(hlookup 12).1, OriginMap.positionAt?_eq_map_originAt?, horigin]
    rfl

end TracedText

end CobolText
