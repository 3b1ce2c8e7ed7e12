import CobolText.Origin.LineView
import CobolText.Proofs.WellFormed
import Mathlib

/-!
# What an output line stands for

A character of the output is on line `n` if there are `n - 1` line ends in front of it, so a line
end is the last character of its line.  The lines that have an entry in the view of an origin map
line by line are those with a character that has an origin, and the entry tells the origin of one
character: of the first that is not blank, or of the first of all if there are only blanks.
-/

namespace CobolText

namespace Text

/-- Trimming on the left stops at the first character that is not blank. -/
lemma first_ink {s : List Char} (h : isBlankText s = false) :
    (∃ c, s[s.length - (trimLeft s).length]? = some c ∧ isBlank c = false) ∧
      ∀ i < s.length - (trimLeft s).length, ∀ c ∈ s[i]?, isBlank c = true := by
  have hsplit := takeWhile_append_trimLeft s
  have hlength : s.length - (trimLeft s).length = (s.takeWhile isBlank).length := by
    have := congrArg List.length hsplit
    rw [List.length_append] at this
    omega
  rw [hlength]
  constructor
  · have hne : trimLeft s ≠ [] := by
      intro hnil
      rw [hnil, List.append_nil] at hsplit
      rw [isBlankText, ← hsplit, List.all_takeWhile] at h
      contradiction
    refine ⟨(trimLeft s).head hne, ?_, List.head_dropWhile_not isBlank hne⟩
    calc s[(s.takeWhile isBlank).length]?
        = (s.takeWhile isBlank ++ trimLeft s)[(s.takeWhile isBlank).length]? := by rw [hsplit]
      _ = some ((trimLeft s).head hne) := by
          rw [List.getElem?_append_right (Nat.le_refl _), Nat.sub_self, ← List.head?_eq_getElem?,
            List.head?_eq_some_head hne]
  · intro i hi c hc
    rw [← hsplit, List.getElem?_append_left hi] at hc
    exact List.mem_takeWhile_imp (List.mem_of_getElem? hc)

lemma getElem?_slice {s : List Char} {start stop : Int} (hstart : 0 ≤ start) (hstop : 0 ≤ stop)
    (hlast : stop ≤ s.length) (i : Nat) :
    (slice s start stop)[i]? = if start + i < stop then s[(start + i).toNat]? else none := by
  obtain ⟨a, rfl⟩ := Int.eq_ofNat_of_zero_le hstart
  obtain ⟨b, rfl⟩ := Int.eq_ofNat_of_zero_le hstop
  simp only [slice, place_natCast, List.getElem?_take, List.getElem?_drop]
  by_cases hlt : a + i < b
  · have hmin : min a s.length = a := by omega
    rw [if_pos (by omega), if_pos (by omega), hmin]
    congr 1
  · rw [if_neg (by omega), if_neg (by omega)]

end Text

namespace TracedText

variable {t : TracedText} {n start : Nat} {line : List Char}

/-- The character at `k` is on output line `n`. -/
def OnLine (t : TracedText) (n k : Nat) : Prop :=
  k < t.text.length ∧ (t.text.take k).count '\n' + 1 = n

/-- The character at `k` is on output line `n` and has an origin. -/
def MappedOn (t : TracedText) (n k : Nat) : Prop :=
  t.OnLine n k ∧ (t.map.extentAt? k).isSome

/-- The character at `k` is not blank. -/
def InkAt (t : TracedText) (k : Nat) : Prop :=
  ∃ c, t.text[k]? = some c ∧ Text.isBlank c = false

/-- The character that output line `n` stands for: the first with an origin that is not blank, or
the first with an origin if all of them are blank. -/
structure StandsFor (t : TracedText) (n k : Nat) : Prop where
  mapped : t.MappedOn n k
  first : (t.InkAt k ∧ ∀ j < k, t.MappedOn n j → ¬t.InkAt j) ∨
    ∀ j, t.MappedOn n j → ¬t.InkAt j ∧ k ≤ j

lemma StandsFor.unique {j k : Nat} (hj : t.StandsFor n j) (hk : t.StandsFor n k) : j = k := by
  rcases hj.first with ⟨hink, hbefore⟩ | hblank <;> rcases hk.first with ⟨hink', hbefore'⟩ | hblank'
  · have h1 := mt (hbefore k · hk.mapped) (not_not_intro hink')
    have h2 := mt (hbefore' j · hj.mapped) (not_not_intro hink)
    omega
  · exact absurd hink (hblank' j hj.mapped).1
  · exact absurd hink' (hblank k hk.mapped).1
  · exact Nat.le_antisymm (hblank k hk.mapped).2 (hblank' j hj.mapped).2

section Lines

lemma linesOf_cons (c : Char) (cs : List Char) : linesOf (c :: cs) = lineStep c (linesOf cs) := rfl

lemma linesOf_newline (cs : List Char) : linesOf ('\n' :: cs) = ['\n'] :: linesOf cs := rfl

lemma linesOf_of_ne {c : Char} (hc : c ≠ '\n') (cs : List Char) :
    ∃ line rest, linesOf cs = line :: rest ∧ linesOf (c :: cs) = (c :: line) :: rest := by
  have hne : linesOf cs ≠ [] := by
    cases cs with
    | nil => simp [linesOf]
    | cons d ds =>
      rw [linesOf_cons]
      unfold lineStep
      split
      · simp
      · split <;> simp
  obtain ⟨line, rest, hlines⟩ := List.exists_cons_of_ne_nil hne
  refine ⟨line, rest, hlines, ?_⟩
  rw [linesOf_cons, hlines, lineStep, if_neg (by simpa using hc)]

lemma length_linesOf (text : List Char) : (linesOf text).length = text.count '\n' + 1 := by
  induction text with
  | nil => rfl
  | cons c cs ih =>
    by_cases hc : c = '\n'
    · rw [hc, linesOf_newline, List.length_cons, ih, List.count_cons_self]
    · obtain ⟨line, rest, hlines, hcons⟩ := linesOf_of_ne hc cs
      rw [hlines, List.length_cons] at ih
      rw [hcons, List.length_cons, ih, List.count_cons_of_ne hc]

lemma length_placeLines (offset : Nat) (lines : List (List Char)) :
    (placeLines offset lines).length = lines.length := by
  induction lines generalizing offset with
  | nil => rfl
  | cons line lines ih => rw [placeLines, List.length_cons, ih, List.length_cons]

/-- A line stands behind as many line ends as there are lines before it. -/
lemma exists_of_getElem?_placeLines {text : List Char} {offset i : Nat}
    (h : (placeLines offset (linesOf text))[i]? = some (start, line)) :
    ∃ front rest, text = front ++ line ++ rest ∧ start = offset + front.length ∧
      (line = [] → rest = []) ∧ ∀ k, (front.length ≤ k ∧ k < front.length + line.length) ↔
        k < text.length ∧ (text.take k).count '\n' = i := by
  induction text generalizing offset i start line with
  | nil =>
    cases i with
    | zero =>
      obtain ⟨rfl, rfl⟩ : offset = start ∧ [] = line := by simpa [linesOf, placeLines] using h
      exact ⟨[], [], by simp⟩
    | succ i => simp [linesOf, placeLines] at h
  | cons c cs ih =>
    by_cases hc : c = '\n'
    · -- A line end in front is a line by itself, and the others stand behind one line end more.
      subst hc
      rw [linesOf_newline, placeLines] at h
      cases i with
      | zero =>
        obtain ⟨rfl, rfl⟩ : offset = start ∧ ['\n'] = line := by simpa using h
        refine ⟨[], cs, rfl, rfl, by simp, fun k => ?_⟩
        cases k with
        | zero => simp
        | succ k => simp
      | succ i =>
        rw [List.getElem?_cons_succ] at h
        obtain ⟨front, rest, htext, hstart, hlast, hline⟩ := ih h
        refine ⟨'\n' :: front, rest, by rw [htext]; rfl, ?_, hlast, fun k => ?_⟩
        · simp only [List.length_cons, List.length_nil] at hstart ⊢
          omega
        · cases k with
          | zero => simp
          | succ k =>
            rw [List.take_succ_cons, List.count_cons_self, List.length_cons, List.length_cons]
            have := hline k
            omega
    · obtain ⟨first, others, hlines, hcons⟩ := linesOf_of_ne hc cs
      have hcount : ∀ k, ((c :: cs).take (k + 1)).count '\n' = (cs.take k).count '\n' := by
        intro k
        rw [List.take_succ_cons, List.count_cons_of_ne hc]
      rw [hcons, placeLines] at h
      cases i with
      | zero =>
        -- The first line of the rest begins one character behind this one.
        obtain ⟨rfl, rfl⟩ : offset = start ∧ c :: first = line := by simpa using h
        obtain ⟨front, rest, htext, hstart, hlast, hline⟩ :=
          @ih (offset + 1) first (offset + 1) 0 (by rw [hlines, placeLines]; rfl)
        obtain rfl : front = [] := List.eq_nil_of_length_eq_zero (by omega)
        refine ⟨[], rest, by rw [htext]; rfl, rfl, by simp, fun k => ?_⟩
        cases k with
        | zero => simp
        | succ k =>
          rw [hcount, List.length_cons, List.length_cons]
          have := hline k
          simp only [List.length_nil] at this ⊢
          omega
      | succ i =>
        rw [List.getElem?_cons_succ] at h
        have hrest : (placeLines (offset + 1) (linesOf cs))[i + 1]? = some (start, line) := by
          rw [hlines, placeLines, List.getElem?_cons_succ, ← h, List.length_cons]
          congr 2
          omega
        obtain ⟨front, rest, htext, hstart, hlast, hline⟩ := ih hrest
        refine ⟨c :: front, rest, by rw [htext]; rfl, ?_, hlast, fun k => ?_⟩
        · rw [List.length_cons]
          omega
        · cases k with
          | zero => simp
          | succ k =>
            rw [hcount, List.length_cons, List.length_cons]
            have := hline k
            omega

/-- Output line `n` of a text begins at `start` and holds `chars`. -/
structure IsLine (t : TracedText) (n start : Nat) (chars : List Char) : Prop where
  onLine : ∀ k, t.OnLine n k ↔ start ≤ k ∧ k < start + chars.length
  getElem?_eq : ∀ i < chars.length, chars[i]? = t.text[start + i]?
  last : chars = [] → start = t.text.length

lemma isLine_of_getElem?_placedLines {i : Nat}
    (h : (placedLines t.text)[i]? = some (start, line)) : t.IsLine (i + 1) start line := by
  obtain ⟨front, rest, htext, hstart, hlast, hline⟩ := exists_of_getElem?_placeLines h
  rw [Nat.zero_add] at hstart
  subst hstart
  refine ⟨fun k => ?_, fun j hj => ?_, fun hnil => ?_⟩
  · rw [OnLine, Nat.add_right_cancel_iff]
    exact (hline k).symm
  · rw [htext, List.append_assoc, List.getElem?_append_right (Nat.le_add_right _ _),
      Nat.add_sub_cancel_left, List.getElem?_append_left hj]
  · rw [htext, hnil, hlast hnil, List.append_nil, List.append_nil]

lemma exists_getElem?_placedLines {k : Nat} (h : t.OnLine n k) :
    ∃ i x, (placedLines t.text)[i]? = some x ∧ i + 1 = n := by
  have hcount := (List.take_sublist k t.text).count_le '\n'
  have hlt : (t.text.take k).count '\n' < (placedLines t.text).length := by
    rw [placedLines, length_placeLines, length_linesOf]
    omega
  exact ⟨_, _, List.getElem?_eq_getElem hlt, h.2⟩

end Lines

section Ink

variable {e : Extent}

/-- The extent reaches into the line that starts at `start`. -/
def Meets (start : Nat) (line : List Char) (e : Extent) : Prop :=
  e.start < (start + line.length : Nat) ∧ (start : Int) < e.stop

/-- All that an extent holds of output line `n` is blank. -/
def BlankOn (t : TracedText) (n : Nat) (e : Extent) : Prop :=
  ∀ k : Nat, t.OnLine n k → e.covers k = true → ¬t.InkAt k

/-- The character at `k` is the first on output line `n` that an extent holds and is not blank. -/
structure FirstInk (t : TracedText) (n : Nat) (e : Extent) (k : Nat) : Prop where
  onLine : t.OnLine n k
  covered : e.covers k = true
  ink : t.InkAt k
  before : ∀ j < k, t.OnLine n j → e.covers j = true → ¬t.InkAt j

/-- What an extent holds of the line that starts at `start`. -/
def chunk (start : Nat) (line : List Char) (e : Extent) : List Char :=
  Text.slice line (max e.start start - start) (min (e.stop - start) line.length)

lemma IsLine.getElem?_chunk (h : t.IsLine n start line) (hmeets : Meets start line e) {i : Nat}
    {c : Char} : (chunk start line e)[i]? = some c ↔ ∃ k : Nat, max e.start start + i = k ∧
      t.OnLine n k ∧ e.covers k = true ∧ t.text[k]? = some c := by
  obtain ⟨h1, h2⟩ := hmeets
  obtain ⟨k, hk⟩ : ∃ k : Nat, max e.start start + i = k :=
    ⟨(max e.start start + i).toNat, by omega⟩
  have hbounds : (start ≤ k ∧ k < start + line.length) ∧ e.start ≤ k ∧ k < e.stop ↔
      max e.start start - start + i < min (e.stop - start) line.length := by omega
  rw [chunk, Text.getElem?_slice (by omega) (by omega) (by omega), Option.ite_none_right_eq_some]
  simp only [hk, Int.natCast_inj, exists_eq_left', h.onLine k, Extent.covers_iff]
  rw [← and_assoc, hbounds]
  refine and_congr_right fun hlt => ?_
  rw [h.getElem?_eq _ (by omega), show start + (max e.start start - start + i).toNat = k by omega]

lemma IsLine.exists_index (h : t.IsLine n start line) {k : Nat} (hon : t.OnLine n k)
    (hcovers : e.covers k = true) : ∃ i : Nat, max e.start start + i = k := by
  have := (h.onLine k).mp hon
  have := Extent.covers_iff.mp hcovers
  exact ⟨(k - max e.start start).toNat, by omega⟩

lemma IsLine.blankOn_of_isBlankText (h : t.IsLine n start line) (hmeets : Meets start line e)
    (hblank : Text.isBlankText (chunk start line e) = true) : t.BlankOn n e := by
  rintro k hon hcovers ⟨c, hc, hink⟩
  obtain ⟨i, hi⟩ := h.exists_index hon hcovers
  have hget := (h.getElem?_chunk hmeets).mpr ⟨k, hi, hon, hcovers, hc⟩
  have := Text.isBlankText_iff.mp hblank c (List.mem_of_getElem? hget)
  simp [hink] at this

lemma IsLine.firstInk_of_not_isBlankText (h : t.IsLine n start line) (hmeets : Meets start line e)
    (hblank : Text.isBlankText (chunk start line e) = false) :
    ∃ k : Nat, max e.start start +
      ((chunk start line e).length - (Text.trimLeft (chunk start line e)).length : Nat) = k ∧
        t.FirstInk n e k := by
  obtain ⟨⟨c, hc, hink⟩, hbefore⟩ := Text.first_ink hblank
  obtain ⟨k, hk, hon, hcovers, hchar⟩ := (h.getElem?_chunk hmeets).mp hc
  refine ⟨k, hk, hon, hcovers, ⟨c, hchar, hink⟩, ?_⟩
  rintro j hj hj' hcovers' ⟨d, hd, hink'⟩
  obtain ⟨i, hi⟩ := h.exists_index hj' hcovers'
  have := hbefore i (by omega) d ((h.getElem?_chunk hmeets).mpr ⟨j, hi, hj', hcovers', hd⟩)
  simp [hink'] at this

/-- Looking for ink goes through the extents in order and takes the first that has any. -/
lemma IsLine.firstInk?_eq_some (h : t.IsLine n start line) {es : List Extent}
    (hmeets : ∀ e ∈ es, Meets start line e) {offset : Int}
    (hfound : firstInk? start line es = some (e, offset)) :
    ∃ before after, ∃ k : Nat, es = before ++ e :: after ∧ (∀ e' ∈ before, t.BlankOn n e') ∧
      offset = k ∧ t.FirstInk n e k := by
  induction es with
  | nil => simp [firstInk?] at hfound
  | cons e' es ih =>
    rw [firstInk?] at hfound
    split at hfound
    · rename_i hblank
      obtain ⟨before, after, k, rfl, hbefore, hink⟩ := ih (fun x hx => hmeets x (.tail _ hx)) hfound
      refine ⟨e' :: before, after, k, rfl, ?_, hink⟩
      rintro x (_ | ⟨_, hx⟩)
      · exact h.blankOn_of_isBlankText (hmeets e' (.head _)) hblank
      · exact hbefore x hx
    · rename_i hink
      obtain ⟨rfl, rfl⟩ : e' = e ∧ _ = offset := by simpa using hfound
      obtain ⟨k, hk, hfirst⟩ := h.firstInk_of_not_isBlankText (hmeets e' (.head _))
        (Bool.not_eq_true _ ▸ hink)
      exact ⟨[], es, k, rfl, by simp, hk, hfirst⟩

lemma IsLine.firstInk?_eq_none (h : t.IsLine n start line) {es : List Extent}
    (hmeets : ∀ e ∈ es, Meets start line e) (hnone : firstInk? start line es = none) :
    ∀ e ∈ es, t.BlankOn n e := by
  induction es with
  | nil => simp
  | cons e' es ih =>
    rw [firstInk?] at hnone
    split at hnone
    · rename_i hblank
      rintro x (_ | ⟨_, hx⟩)
      · exact h.blankOn_of_isBlankText (hmeets e' (.head _)) hblank
      · exact ih (fun x hx => hmeets x (.tail _ hx)) hnone x hx
    · simp at hnone

end Ink

section Entries

variable {o : LineOrigin}

lemma WellFormed.mem_between_iff (ht : t.WellFormed) (h : t.IsLine n start line) {e : Extent} :
    e ∈ t.map.between start (start + line.length) ↔
      e ∈ t.extents ∧ ∃ k : Nat, t.OnLine n k ∧ e.covers k = true := by
  rw [OriginMap.between_eq_filter ht.apart, List.mem_filter]
  refine and_congr_right fun hmem => ?_
  simp only [decide_eq_true_eq]
  constructor
  · rintro ⟨h1, h2⟩
    have hproper := ht.proper e hmem
    have hne : line.length ≠ 0 := by
      -- Only the last line may be empty, and no extent reaches past the end of the text.
      intro hzero
      have := h.last (List.eq_nil_of_length_eq_zero hzero)
      omega
    refine ⟨(max e.start start).toNat, (h.onLine _).mpr (by omega), ?_⟩
    rw [Extent.covers_iff]
    omega
  · rintro ⟨k, hon, hcovers⟩
    have := (h.onLine k).mp hon
    have := Extent.covers_iff.mp hcovers
    omega

lemma WellFormed.mappedOn_iff (ht : t.WellFormed) (h : t.IsLine n start line) {k : Nat} :
    t.MappedOn n k ↔ t.OnLine n k ∧
      ∃ e ∈ t.map.between start (start + line.length), e.covers k = true := by
  refine and_congr_right fun hon => ?_
  rw [Option.isSome_iff_exists]
  refine exists_congr fun e => ?_
  rw [ht.extentAt?_eq_some_iff, ht.mem_between_iff h]
  exact ⟨fun ⟨hmem, hcovers⟩ => ⟨⟨hmem, k, hon, hcovers⟩, hcovers⟩,
    fun ⟨⟨hmem, _⟩, hcovers⟩ => ⟨hmem, hcovers⟩⟩

lemma WellFormed.apart_between (ht : t.WellFormed) (start stop : Int) :
    Extent.Apart (t.map.between start stop) := by
  rw [OriginMap.between_eq_filter ht.apart]
  exact ht.apart.filter _

lemma WellFormed.isSome_lineOrigin?_iff (ht : t.WellFormed) (h : t.IsLine n start line) :
    (t.lineOrigin? n start line).isSome ↔ ∃ k, t.MappedOn n k := by
  rw [lineOrigin?]
  cases hextents : t.map.between start (start + line.length) with
  | nil => simp [ht.mappedOn_iff h, hextents]
  | cons e es =>
    obtain ⟨-, k, hon, hcovers⟩ := (ht.mem_between_iff h).mp (hextents ▸ List.mem_cons_self)
    have hmapped : t.MappedOn n k := (ht.mappedOn_iff h).mpr ⟨hon, e, by simp [hextents], hcovers⟩
    simp only [Option.isSome_some, true_iff]
    exact ⟨k, hmapped⟩

/-- What the search takes for the first character of a line that is not blank. -/
lemma WellFormed.standsFor_of_firstInk (ht : t.WellFormed) (h : t.IsLine n start line)
    {before after : List Extent} {e : Extent} {k : Nat}
    (hextents : t.map.between start (start + line.length) = before ++ e :: after)
    (hbefore : ∀ e' ∈ before, t.BlankOn n e') (hink : t.FirstInk n e k) :
    t.StandsFor n k ∧ t.map.extentAt? k = some e := by
  have hmem : e ∈ t.map.between start (start + line.length) := by simp [hextents]
  have hextent := ht.extentAt?_eq_some ((ht.mem_between_iff h).mp hmem).1 hink.covered
  refine ⟨⟨⟨hink.onLine, by simp [hextent]⟩, .inl ⟨hink.ink, fun j hj hmapped => ?_⟩⟩, hextent⟩
  obtain ⟨hon, e', hmem', hcovers⟩ := (ht.mappedOn_iff h).mp hmapped
  have hapart := ht.apart_between start (start + line.length)
  rw [hextents] at hmem' hapart
  rw [List.mem_append, List.mem_cons] at hmem'
  rcases hmem' with hmem' | rfl | hmem'
  · exact hbefore e' hmem' j hon hcovers
  · exact hink.before j hj hon hcovers
  · -- Extents behind that one start behind the character at `k`.
    have := (List.pairwise_cons.mp (List.pairwise_append.mp hapart).2.1).1 e' hmem'
    have := Extent.covers_iff.mp hcovers
    have := Extent.covers_iff.mp hink.covered
    omega

/-- If all that has an origin on a line is blank, its first character stands for the line. -/
lemma WellFormed.standsFor_of_blankOn (ht : t.WellFormed) (h : t.IsLine n start line)
    {e : Extent} {es : List Extent}
    (hextents : t.map.between start (start + line.length) = e :: es)
    (hblank : ∀ e' ∈ e :: es, t.BlankOn n e') :
    ∃ k : Nat, max e.start start = k ∧ t.StandsFor n k ∧ t.map.extentAt? k = some e := by
  have hmem : e ∈ t.map.between start (start + line.length) := by simp [hextents]
  obtain ⟨hmem', k', hon', hcovers'⟩ := (ht.mem_between_iff h).mp hmem
  obtain ⟨k, hk⟩ : ∃ k : Nat, max e.start start = k := ⟨(max e.start start).toNat, by omega⟩
  have h1 := (h.onLine k').mp hon'
  have h2 := Extent.covers_iff.mp hcovers'
  have hcovers : e.covers k = true := Extent.covers_iff.mpr (by omega)
  have hon : t.OnLine n k := (h.onLine k).mpr (by omega)
  have hextent := ht.extentAt?_eq_some hmem' hcovers
  refine ⟨k, hk, ⟨⟨hon, by simp [hextent]⟩, .inr fun j hmapped => ?_⟩, hextent⟩
  obtain ⟨hj, e', he', hcoversj⟩ := (ht.mappedOn_iff h).mp hmapped
  have hapart := ht.apart_between start (start + line.length)
  rw [hextents] at he' hapart
  refine ⟨hblank e' he' j hj hcoversj, ?_⟩
  have h3 := (h.onLine j).mp hj
  have h4 := Extent.covers_iff.mp hcoversj
  rcases List.mem_cons.mp he' with rfl | he'
  · omega
  · have := (List.pairwise_cons.mp hapart).1 e' he'
    omega

/-- The entry of a line tells the origin of the character that the line stands for. -/
lemma WellFormed.lineOrigin?_eq_some (ht : t.WellFormed) (h : t.IsLine n start line)
    (ho : t.lineOrigin? n start line = some o) :
    o.outputLine = n ∧ ∃ k : Nat, t.StandsFor n k ∧ ∃ e, t.map.extentAt? k = some e ∧
      o = ⟨n, (e.positionAt k).line, (e.positionAt k).file, e.fromCopybook⟩ := by
  have hmeets : ∀ e ∈ t.map.between start (start + line.length), Meets start line e := by
    intro e he
    rw [OriginMap.between_eq_filter ht.apart, List.mem_filter] at he
    simpa [Meets] using he.2
  rw [lineOrigin?] at ho
  cases hextents : t.map.between start (start + line.length) with
  | nil => simp [hextents] at ho
  | cons e es =>
    simp only [hextents, Option.some.injEq] at ho
    rw [hextents] at hmeets
    cases hfound : firstInk? start line (e :: es) with
    | some found =>
      obtain ⟨before, after, k, hsplit, hbefore, hoffset, hink⟩ :=
        h.firstInk?_eq_some hmeets hfound
      obtain ⟨hstands, hextent⟩ :=
        ht.standsFor_of_firstInk h (hextents.trans hsplit) hbefore hink
      rw [hfound, Option.getD_some, hoffset] at ho
      exact ⟨by rw [← ho], k, hstands, _, hextent, ho.symm⟩
    | none =>
      obtain ⟨k, hk, hstands, hextent⟩ :=
        ht.standsFor_of_blankOn h hextents (h.firstInk?_eq_none hmeets hfound)
      rw [hfound, Option.getD_none, hk] at ho
      exact ⟨by rw [← ho], k, hstands, _, hextent, ho.symm⟩

lemma mem_lineOrigins : o ∈ t.lineOrigins ↔ ∃ i start line,
    (placedLines t.text)[i]? = some (start, line) ∧ t.lineOrigin? (i + 1) start line = some o := by
  simp only [lineOrigins, List.mem_filterMap, Prod.exists, List.mem_zipIdx_iff_getElem?]
  constructor
  · rintro ⟨start, line, i, hline, ho⟩
    exact ⟨i, start, line, hline, ho⟩
  · rintro ⟨i, start, line, hline, ho⟩
    exact ⟨start, line, i, hline, ho⟩

lemma pairwise_outputLine (ht : t.WellFormed) :
    t.lineOrigins.Pairwise fun a b => a.outputLine < b.outputLine := by
  rw [lineOrigins, List.pairwise_filterMap]
  have hindices : (placedLines t.text).zipIdx.Pairwise fun a b => a.2 < b.2 := by
    rw [← List.pairwise_map, List.zipIdx_map_snd]
    exact List.pairwise_lt_range'
  have hlines : ∀ x ∈ (placedLines t.text).zipIdx, ∀ o,
      t.lineOrigin? (x.2 + 1) x.1.1 x.1.2 = some o → o.outputLine = x.2 + 1 := by
    rintro ⟨⟨start, line⟩, i⟩ hx o ho
    have hline := isLine_of_getElem?_placedLines (List.mem_zipIdx_iff_getElem?.mp hx)
    exact (ht.lineOrigin?_eq_some hline ho).1
  -- What an entry has for its number is the index of its line.
  apply hindices.imp_of_mem
  intro x y hx hy hlt a ha b hb
  rw [hlines x hx a ha, hlines y hy b hb]
  omega

/-- The view line by line has an entry for the output lines with a character that has an origin,
one for each.  It tells the file and the line that a lookup gives for the character the line stands
for, and whether that character came through a copybook. -/
theorem lineOrigins_standsFor (ht : t.WellFormed) :
    (t.lineOrigins.Pairwise fun a b => a.outputLine < b.outputLine) ∧
      (∀ n, (∃ o ∈ t.lineOrigins, o.outputLine = n) ↔ ∃ k, t.MappedOn n k) ∧
      ∀ o ∈ t.lineOrigins, ∃ k e column, (∀ j, t.StandsFor o.outputLine j ↔ j = k) ∧
        t.map.extentAt? k = some e ∧
        t.map.positionAt? k = some ⟨o.file, o.line, column⟩ ∧
        (o.fromCopybook = true ↔ e.marks.inclusions ≠ []) := by
  refine ⟨pairwise_outputLine ht, fun n => ⟨?_, ?_⟩, ?_⟩
  · rintro ⟨o, ho, rfl⟩
    obtain ⟨i, start, line, hline, ho⟩ := mem_lineOrigins.mp ho
    have hline := isLine_of_getElem?_placedLines hline
    rw [(ht.lineOrigin?_eq_some hline ho).1, ← ht.isSome_lineOrigin?_iff hline, ho]
    rfl
  · rintro ⟨k, hk⟩
    obtain ⟨i, ⟨start, line⟩, hplaced, rfl⟩ := exists_getElem?_placedLines hk.1
    have hline := isLine_of_getElem?_placedLines hplaced
    obtain ⟨o, ho⟩ := Option.isSome_iff_exists.mp ((ht.isSome_lineOrigin?_iff hline).mpr ⟨k, hk⟩)
    exact ⟨o, mem_lineOrigins.mpr ⟨i, start, line, hplaced, ho⟩,
      (ht.lineOrigin?_eq_some hline ho).1⟩
  · intro o ho
    obtain ⟨i, start, line, hline, ho⟩ := mem_lineOrigins.mp ho
    obtain ⟨hnumber, k, hstands, e, hextent, heq⟩ :=
      ht.lineOrigin?_eq_some (isLine_of_getElem?_placedLines hline) ho
    refine ⟨k, e, (e.positionAt k).column, fun j => ?_, hextent, ?_, ?_⟩
    · rw [hnumber]
      exact ⟨fun hj => hj.unique hstands, fun hj => hj ▸ hstands⟩
    · rw [OriginMap.positionAt?, hextent, heq]
      rfl
    · simp [heq, Extent.fromCopybook]

/-- Text behind made-up blanks, a made-up line, two lines that a rule wrote in a copybook, and a
line of blanks. -/
def sampleLines : TracedText :=
  assemble [
    Fragment.synthetic [' '], Fragment.copied [' ', 'A', '\n'] ⟨"main", 1, 8⟩ {},
    Fragment.synthetic ['B', '\n'],
    Fragment.copied ['X', '\n', 'Y'] ⟨"book", 7, 12⟩ { replaced := true, inclusions := ["BOOK"] },
    Fragment.copied ['\n', ' '] ⟨"main", 3, 9⟩ {}]

lemma wellFormed_sampleLines : sampleLines.WellFormed := by
  apply wellFormed_assemble
  intro f hf
  simp only [List.mem_cons, List.not_mem_nil, or_false] at hf
  rcases hf with rfl | rfl | rfl | rfl | rfl
  · exact Fragment.wellFormed_synthetic _
  · exact Fragment.wellFormed_copied _ _ _
  · exact Fragment.wellFormed_synthetic _
  · exact Fragment.wellFormed_copied _ _ _
  · exact Fragment.wellFormed_copied _ _ _

/-- The made-up line has no entry, both lines of the written text have one, and the last line has
that of a blank. -/
theorem lineOrigins_standsFor_sampleLines :
    sampleLines.lineOrigins = [⟨1, 1, "main", false⟩, ⟨3, 7, "book", true⟩, ⟨4, 7, "book", true⟩,
        ⟨5, 3, "main", false⟩] ∧
      (¬∃ k, sampleLines.MappedOn 2 k) ∧ (∃ k, sampleLines.MappedOn 5 k) ∧
      ∃ k e column, (∀ j, sampleLines.StandsFor 4 j ↔ j = k) ∧
        sampleLines.map.positionAt? k = some ⟨"book", 7, column⟩ ∧
        sampleLines.map.extentAt? k = some e ∧ e.marks.inclusions ≠ [] := by
  have horigins : sampleLines.lineOrigins = [⟨1, 1, "main", false⟩, ⟨3, 7, "book", true⟩,
      ⟨4, 7, "book", true⟩, ⟨5, 3, "main", false⟩] := by
    cbv
  obtain ⟨-, hentries, hstands⟩ := lineOrigins_standsFor wellFormed_sampleLines
  rw [horigins] at hentries hstands
  refine ⟨horigins, mt (hentries 2).mpr (by simp), (hentries 5).mp (by simp), ?_⟩
  obtain ⟨k, e, column, hk, hextent, hposition, hcopybook⟩ :=
    hstands ⟨4, 7, "book", true⟩ (by simp)
  exact ⟨k, e, column, hk, hposition, hextent, hcopybook.mp rfl⟩

end Entries

end TracedText

end CobolText
