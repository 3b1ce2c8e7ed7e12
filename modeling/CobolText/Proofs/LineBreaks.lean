import CobolText.Proofs.LineFidelity
import Mathlib.Tactic.Common

/-!
# How lines end

A line may end with a line feed, a carriage return or both, and a text may mix them.  The text with
unified breaks is the one in which every pair, and every carriage return that is no part of a pair,
is a line feed; the lines of a text are what stands between its breaks.  So two texts that differ
only in how their lines end are read as the same lines, with the same warnings.
-/

namespace CobolText

namespace Text

/-- What may end a line. -/
def breaks : List (List Char) :=
  [['\r', '\n'], ['\r'], ['\n']]

/-- Whether there is no break in a text. -/
def Unbroken (s : List Char) : Prop :=
  '\r' ∉ s ∧ '\n' ∉ s

lemma unbroken_nil : Unbroken [] :=
  ⟨List.not_mem_nil, List.not_mem_nil⟩

lemma Unbroken.subset {s t : List Char} (h : Unbroken t) (hsub : s ⊆ t) : Unbroken s :=
  ⟨fun hmem => h.1 (hsub hmem), fun hmem => h.2 (hsub hmem)⟩

lemma unbroken_cons_iff {c : Char} {s : List Char} :
    Unbroken (c :: s) ↔ (c ≠ '\r' ∧ c ≠ '\n') ∧ Unbroken s := by
  simp only [Unbroken, List.mem_cons, not_or, ne_comm (a := c)]
  exact and_and_and_comm

/-- Whether a text is another one in which every pair of a carriage return and a line feed, and
every carriage return that is no part of a pair, is replaced by a line feed. -/
inductive Unifies : List Char → List Char → Prop
  | nil : Unifies [] []
  | pair {s t : List Char} (rest : Unifies s t) : Unifies ('\r' :: '\n' :: s) ('\n' :: t)
  | alone {s t : List Char} (unpaired : s.head? ≠ some '\n') (rest : Unifies s t) :
      Unifies ('\r' :: s) ('\n' :: t)
  | other {c : Char} {s t : List Char} (plain : c ≠ '\r') (rest : Unifies s t) :
      Unifies (c :: s) (c :: t)

/-- Whether a text is cut into pieces at all of its breaks, where a carriage return and the line
feed behind it are one break. -/
inductive Cut : List Char → List (List Char) → Prop
  | last {piece : List Char} (unbroken : Unbroken piece) : Cut piece [piece]
  | next {piece ending rest : List Char} {pieces : List (List Char)} (unbroken : Unbroken piece)
      (ends : ending ∈ breaks) (whole : ending = ['\r'] → rest.head? ≠ some '\n')
      (tail : Cut rest pieces) : Cut (piece ++ ending ++ rest) (piece :: pieces)

/-- The flag of unified text tells whether the text started with a line feed. -/
lemma unifyStep_flag (s : List Char) :
    (s.foldr unifyStep (false, [])).1 = (s.head? == some '\n') := by
  cases s with
  | nil => rfl
  | cons c s =>
    rw [List.foldr_cons, unifyStep]
    split
    · rename_i hc
      rw [eq_of_beq hc]
      rfl
    · rfl

lemma unifyBreaks_cons (c : Char) (s : List Char) :
    unifyBreaks (c :: s) =
      if c = '\r' then
        if s.head? = some '\n' then unifyBreaks s else '\n' :: unifyBreaks s
      else c :: unifyBreaks s := by
  unfold unifyBreaks
  rw [List.foldr_cons, unifyStep, unifyStep_flag]
  by_cases hc : c = '\r' <;> by_cases hs : s.head? = some '\n' <;> simp [hc, hs]

lemma unifies_unifyBreaks (s : List Char) : Unifies s (unifyBreaks s) := by
  induction s with
  | nil => exact .nil
  | cons c s ih =>
    rw [unifyBreaks_cons]
    by_cases hc : c = '\r'
    · subst hc
      rw [if_pos rfl]
      by_cases hs : s.head? = some '\n'
      · -- The line feed behind belongs to the pair, so its own step is taken back.
        obtain ⟨rest, rfl⟩ := List.head?_eq_some_iff.mp hs
        rw [if_pos List.head?_cons]
        rw [unifyBreaks_cons, if_neg (by decide)] at ih ⊢
        cases ih with
        | other plain rest => exact .pair rest
      · rw [if_neg hs]
        exact .alone hs ih
    · rw [if_neg hc]
      exact .other hc ih

/-- There is one way to unify the breaks of a text. -/
lemma unifies_iff {s t : List Char} : Unifies s t ↔ t = unifyBreaks s := by
  constructor
  · intro h
    induction h with
    | nil => rfl
    | pair rest ih =>
      rw [ih, unifyBreaks_cons, if_pos rfl, if_pos List.head?_cons, unifyBreaks_cons,
        if_neg (by decide)]
    | alone unpaired rest ih => rw [ih, unifyBreaks_cons, if_pos rfl, if_neg unpaired]
    | other plain rest ih => rw [ih, unifyBreaks_cons, if_neg plain]
  · rintro rfl
    exact unifies_unifyBreaks s

lemma Unifies.carriageReturn_not_mem {s t : List Char} (h : Unifies s t) : '\r' ∉ t := by
  induction h with
  | nil => simp
  | pair rest ih => simpa using ih
  | alone unpaired rest ih => simpa using ih
  | other plain rest ih => simpa [plain.symm] using ih

lemma unifyBreaks_of_not_mem {s : List Char} (h : '\r' ∉ s) : unifyBreaks s = s := by
  induction s with
  | nil => rfl
  | cons c s ih =>
    rw [List.mem_cons, not_or] at h
    rw [unifyBreaks_cons, if_neg (Ne.symm h.1), ih h.2]

lemma unifyBreaks_unifyBreaks (s : List Char) : unifyBreaks (unifyBreaks s) = unifyBreaks s :=
  unifyBreaks_of_not_mem (unifies_unifyBreaks s).carriageReturn_not_mem

lemma unifyBreaks_append_of_unbroken {piece : List Char} (h : Unbroken piece) (s : List Char) :
    unifyBreaks (piece ++ s) = piece ++ unifyBreaks s := by
  induction piece with
  | nil => rfl
  | cons c piece ih =>
    obtain ⟨hc, hpiece⟩ := unbroken_cons_iff.mp h
    rw [List.cons_append, unifyBreaks_cons, if_neg hc.1, ih hpiece, List.cons_append]

lemma unifyBreaks_break_append {ending s : List Char} (h : ending ∈ breaks)
    (hwhole : ending = ['\r'] → s.head? ≠ some '\n') :
    unifyBreaks (ending ++ s) = '\n' :: unifyBreaks s := by
  simp only [breaks, List.mem_cons, List.not_mem_nil, or_false] at h
  symm
  apply unifies_iff.mp
  rcases h with rfl | rfl | rfl
  · exact .pair (unifies_unifyBreaks s)
  · exact .alone (hwhole rfl) (unifies_unifyBreaks s)
  · exact .other (by decide) (unifies_unifyBreaks s)

namespace Cut

variable {s : List Char} {pieces : List (List Char)}

lemma ne_nil (h : Cut s pieces) : pieces ≠ [] := by
  cases h <;> simp

lemma unbroken (h : Cut s pieces) : ∀ piece ∈ pieces, Unbroken piece := by
  induction h with
  | last unbroken => simpa using unbroken
  | next unbroken ends whole tail ih => exact List.forall_mem_cons.mpr ⟨unbroken, ih⟩

lemma afterBreak (h : Cut s pieces) (ending : List Char) (ends : ending ∈ breaks)
    (whole : ending = ['\r'] → s.head? ≠ some '\n') : Cut (ending ++ s) ([] :: pieces) :=
  .next unbroken_nil ends whole h

/-- A character that is no break goes to the first piece. -/
lemma cons {c : Char} (hc : c ≠ '\r' ∧ c ≠ '\n') (h : Cut s pieces) :
    ∃ pieces', Cut (c :: s) pieces' := by
  cases h with
  | last unbroken => exact ⟨_, .last (unbroken_cons_iff.mpr ⟨hc, unbroken⟩)⟩
  | next unbroken ends whole tail =>
    exact ⟨_, .next (unbroken_cons_iff.mpr ⟨hc, unbroken⟩) ends whole tail⟩

end Cut

lemma Unifies.exists_cut {s t : List Char} (h : Unifies s t) : ∃ pieces, Cut s pieces := by
  induction h with
  | nil => exact ⟨_, .last unbroken_nil⟩
  | pair rest ih =>
    obtain ⟨pieces, hcut⟩ := ih
    exact ⟨_, hcut.afterBreak ['\r', '\n'] (by simp [breaks]) (by simp)⟩
  | alone unpaired rest ih =>
    obtain ⟨pieces, hcut⟩ := ih
    exact ⟨_, hcut.afterBreak ['\r'] (by simp [breaks]) fun _ => unpaired⟩
  | @other c s t plain rest ih =>
    obtain ⟨pieces, hcut⟩ := ih
    by_cases hc : c = '\n'
    · subst hc
      exact ⟨_, hcut.afterBreak ['\n'] (by simp [breaks]) (by simp)⟩
    · exact hcut.cons ⟨plain, hc⟩

lemma exists_cut (s : List Char) : ∃ pieces, Cut s pieces :=
  (unifies_unifyBreaks s).exists_cut

/-- The pieces between the line feeds of text with unified breaks are those between the breaks. -/
lemma cut_iff {s : List Char} {pieces : List (List Char)} :
    Cut s pieces ↔ pieces = splitOn '\n' (unifyBreaks s) := by
  have hunique : ∀ {pieces}, Cut s pieces → pieces = splitOn '\n' (unifyBreaks s) := by
    intro pieces h
    induction h with
    | last unbroken => rw [unifyBreaks_of_not_mem unbroken.1, splitOn_of_not_mem unbroken.2]
    | next unbroken ends whole tail ih =>
      rw [List.append_assoc, unifyBreaks_append_of_unbroken unbroken,
        unifyBreaks_break_append ends whole, splitOn_append_cons unbroken.2, ih]
  constructor
  · exact hunique
  · rintro rfl
    obtain ⟨pieces, h⟩ := exists_cut s
    rwa [hunique h] at h

/-- The lines of a text are the pieces between its breaks; an empty last one is no line. -/
lemma Cut.physicalLines_eq {s : List Char} {pieces : List (List Char)} (h : Cut s pieces) :
    physicalLines s = if pieces.getLast? = some [] then pieces.dropLast else pieces := by
  rw [cut_iff.mp h]
  simp only [physicalLines, beq_iff_eq]

lemma physicalLines_unifyBreaks (s : List Char) :
    physicalLines (unifyBreaks s) = physicalLines s := by
  unfold physicalLines
  rw [unifyBreaks_unifyBreaks]

lemma unbroken_of_mem_physicalLines {s line : List Char} (h : line ∈ physicalLines s) :
    Unbroken line := by
  obtain ⟨pieces, hcut⟩ := exists_cut s
  rw [hcut.physicalLines_eq] at h
  apply hcut.unbroken
  split at h
  · exact List.dropLast_subset _ h
  · exact h

lemma unbroken_of_lineAt? {width number : Int} {text raw : List Char}
    (h : lineAt? width text number = some raw) : Unbroken raw := by
  unfold lineAt? at h
  split at h
  · obtain ⟨line, hline, rfl⟩ := Option.map_eq_some_iff.mp h
    exact (unbroken_of_mem_physicalLines (List.mem_of_getElem? hline)).subset (List.take_subset _ _)
  · cases h

lemma getLast?_append_break {ending : List Char} (h : ending ∈ breaks) (s : List Char) :
    (s ++ ending).getLast? = some '\r' ∨ (s ++ ending).getLast? = some '\n' := by
  simp only [breaks, List.mem_cons, List.not_mem_nil, or_false] at h
  rcases h with rfl | rfl | rfl
  · exact .inr (List.getLast?_append_of_ne_nil s (by simp))
  · exact .inl (List.getLast?_append_of_ne_nil s (by simp))
  · exact .inr (List.getLast?_append_of_ne_nil s (by simp))

/-- A break behind a text that does not end with one adds an empty piece to pieces of which the last
is not empty. -/
lemma Cut.concat {s : List Char} {pieces : List (List Char)} (h : Cut s pieces) {c : Char}
    (hlast : s.getLast? = some c) (hc : c ≠ '\r' ∧ c ≠ '\n') {ending : List Char}
    (hends : ending ∈ breaks) :
    Cut (s ++ ending) (pieces ++ [[]]) ∧ pieces.getLast? ≠ some [] := by
  induction h with
  | @last piece unbroken =>
    refine ⟨?_, ?_⟩
    · rw [← List.append_nil (piece ++ ending)]
      exact .next unbroken hends (by simp) (.last unbroken_nil)
    · rintro hempty
      rw [List.getLast?_singleton, Option.some.injEq] at hempty
      rw [hempty] at hlast
      cases hlast
  | @next piece broke rest pieces unbroken ends whole tail ih =>
    -- The last character is no break, so it stands behind the last one.
    have hrest : rest ≠ [] := by
      rintro rfl
      rw [List.append_nil] at hlast
      rcases getLast?_append_break ends piece with hbreak | hbreak
      · exact hc.1 (Option.some.inj (hlast.symm.trans hbreak))
      · exact hc.2 (Option.some.inj (hlast.symm.trans hbreak))
    rw [List.getLast?_append_of_ne_nil _ hrest] at hlast
    obtain ⟨hcut, hnonempty⟩ := ih hlast
    refine ⟨?_, ?_⟩
    · rw [List.append_assoc (piece ++ broke)]
      refine .next unbroken ends (fun hsingle => ?_) hcut
      rw [List.head?_append_of_ne_nil _ hrest]
      exact whole hsingle
    · rwa [List.getLast?_cons_of_ne_nil tail.ne_nil]

lemma physicalLines_append_break {s : List Char} {c : Char} (hlast : s.getLast? = some c)
    (hc : c ≠ '\r' ∧ c ≠ '\n') {ending : List Char} (hends : ending ∈ breaks) :
    physicalLines (s ++ ending) = physicalLines s := by
  obtain ⟨pieces, h⟩ := exists_cut s
  obtain ⟨hcut, hnonempty⟩ := h.concat hlast hc hends
  rw [hcut.physicalLines_eq, h.physicalLines_eq, if_neg hnonempty, List.getLast?_concat,
    if_pos rfl, List.dropLast_concat]

end Text

namespace PhysicalLine

variable {d : Dialect} {format : SourceFormat} {file : String} {text : List Char}

lemma read_congr {text' : List Char} (h : Text.physicalLines text = Text.physicalLines text') :
    read d format file text = read d format file text' := by
  unfold read ofText
  rw [h]

/-- Whether there is no break in a line and in none of its areas. -/
structure OneLine (l : PhysicalLine) : Prop where
  raw : Text.Unbroken l.raw
  sequence : Text.Unbroken l.sequence
  indicator : Text.Unbroken l.indicator
  content : Text.Unbroken l.content
  identification : Text.Unbroken l.identification

lemma oneLine_divide {number : Nat} {raw : List Char} (h : Text.Unbroken raw) :
    (divide d format file number raw).OneLine := by
  refine ⟨h, h.subset (List.take_subset _ _), ?_, h.subset ?_, h.subset ?_⟩
  · exact h.subset (List.Subset.trans (List.drop_subset _ _) (List.take_subset _ _))
  · simp only [divide]
    split
    · exact List.Subset.trans (List.take_subset _ _) (List.drop_subset _ _)
    · exact List.drop_subset _ _
  · simp only [divide]
    split
    · exact List.drop_subset _ _
    · exact List.nil_subset _

lemma LineOf.oneLine {l : PhysicalLine} (h : l.LineOf d format file text) : l.OneLine := by
  obtain ⟨hraw, hdivide⟩ := h
  rw [hdivide]
  exact oneLine_divide (Text.unbroken_of_lineAt? hraw)

/-- The lines that a text is read as are its own, each cut to the greatest width. -/
lemma raws_of_read {lines : List PhysicalLine} {warnings : List Diagnostic}
    (h : read d format file text = .ok (lines, warnings)) :
    lines.map (·.raw) = (Text.physicalLines text).map fun raw => Text.sliceTo raw d.lineWidth := by
  have hraws : (ofText d format file text).1.map (·.raw) =
      (Text.physicalLines text).map fun raw => Text.sliceTo raw d.lineWidth := by
    conv_rhs => rw [← List.zipIdx_map_fst 0 (Text.physicalLines text), List.map_map]
    simp only [ofText, List.map_map, Function.comp_def, readLine_fst, divide]
  unfold read at h
  split at h
  · split at h
    · rename_i hempty
      cases h
      rw [List.isEmpty_iff.mp hempty]
      rfl
    · cases h
  · rw [← hraws, Except.ok.inj h]

variable (d format file text)

/-- What the breaks of a text have to do with the lines that it is read as. -/
structure IgnoresBreaks : Prop where
  /-- They may as well be line feeds. -/
  unified : Text.Unifies text (Text.unifyBreaks text) ∧
    read d format file text = read d format file (Text.unifyBreaks text)
  /-- None of them is in a line. -/
  oneLine : ∀ lines warnings, read d format file text = .ok (lines, warnings) →
    ∀ l ∈ lines, l.OneLine
  /-- The lines are the pieces between them, and an empty piece behind the last one is no line. -/
  between : ∀ lines warnings, read d format file text = .ok (lines, warnings) →
    ∃ pieces, Text.Cut text pieces ∧ lines.map (·.raw) =
      (if pieces.getLast? = some [] then pieces.dropLast else pieces).map
        fun raw => Text.sliceTo raw d.lineWidth
  /-- One more at the end adds no line. -/
  final : ∀ c ending, text.getLast? = some c → c ≠ '\r' ∧ c ≠ '\n' → ending ∈ Text.breaks →
    read d format file (text ++ ending) = read d format file text

lemma ignoresBreaks : IgnoresBreaks d format file text where
  unified := ⟨Text.unifies_unifyBreaks text, read_congr (Text.physicalLines_unifyBreaks text).symm⟩
  oneLine _ _ hread l hl := (lineOf_of_mem_read hread l hl).oneLine
  between lines warnings hread := by
    obtain ⟨pieces, hcut⟩ := Text.exists_cut text
    refine ⟨pieces, hcut, ?_⟩
    rw [raws_of_read hread, hcut.physicalLines_eq]
  final _ _ hlast hplain hends := read_congr (Text.physicalLines_append_break hlast hplain hends)

end PhysicalLine

lemma SourceUnit.read_congr {r : LineRules} {name : String} {text text' : List Char}
    (h : Text.physicalLines text = Text.physicalLines text') :
    SourceUnit.read r name text = SourceUnit.read r name text' := by
  unfold SourceUnit.read
  rw [PhysicalLine.read_congr h]

end CobolText
