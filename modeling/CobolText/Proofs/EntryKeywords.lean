import CobolText.Proofs.EntryProse
import Mathlib

/-!
# The keyword in front of prose

A line that opens a comment entry is divided behind its keyword.  The part up to there starts with a
keyword itself, and it is no header unless the whole line is one: what follows it does not go on
with a word, or it ends with a period, which no header does.
-/

namespace CobolText

namespace Text

/-- A word takes a piece of a text, letter by letter, whatever follows the piece. -/
lemma exists_append_of_dropWord {word s rest : List Char} (h : dropWord word s = some rest) :
    ∃ start, s = start ++ rest ∧ (∀ c ∈ start, ∃ w ∈ word, sameLetter w c = true) ∧
      ∀ t, dropWord word (start ++ t) = some t := by
  induction word generalizing s with
  | nil => exact ⟨[], by simpa [dropWord] using h, by simp, fun t => rfl⟩
  | cons w ws ih =>
    cases s with
    | nil => simp [dropWord] at h
    | cons c cs =>
      simp only [dropWord] at h
      split at h
      · rename_i hletter
        obtain ⟨start, rfl, hall, hstart⟩ := ih h
        refine ⟨c :: start, rfl, ?_, fun t => by simp [dropWord, hletter, hstart]⟩
        rw [List.forall_mem_cons]
        refine ⟨⟨w, by simp, hletter⟩, fun u hu => ?_⟩
        obtain ⟨v, hv, hsame⟩ := hall u hu
        exact ⟨v, by simp [hv], hsame⟩
      · cases h

lemma dropWord_append {word s rest : List Char} (h : dropWord word s = some rest) (t : List Char) :
    dropWord word (s ++ t) = some (rest ++ t) := by
  obtain ⟨start, rfl, -, hstart⟩ := exists_append_of_dropWord h
  rw [List.append_assoc, hstart]

lemma trimLeft_append {s : List Char} (h : trimLeft s ≠ []) (t : List Char) :
    trimLeft (s ++ t) = trimLeft s ++ t := by
  rw [trimLeft, List.dropWhile_append, if_neg (by simpa [trimLeft] using h), trimLeft]

end Text

namespace CommentEntry

section Cuts

/-- Whether a header that a text ends with ends there also in front of `rest`. -/
def MayFollow (s rest : List Char) : Prop :=
  endsWord rest = true ∨ s.getLast? = some '.'

lemma MayFollow.suffix {s u rest : List Char} (h : MayFollow s rest) (hu : u <:+ s) (hne : u ≠ []) :
    MayFollow u rest := by
  obtain ⟨t, rfl⟩ := hu
  rwa [MayFollow, List.getLast?_append_of_ne_nil t hne] at h

lemma endsWord_append {word s after rest : List Char} (h : Text.dropWord word s = some after)
    (hends : endsWord after = true) (hrest : MayFollow s rest)
    (hword : (word.any fun w => Text.sameLetter w '.') = false) :
    endsWord (after ++ rest) = true := by
  cases after with
  | cons c after => exact hends
  | nil =>
    rcases hrest with hrest | hperiod
    · exact hrest
    · -- A period at the end is a letter of the word.
      obtain ⟨start, rfl, hall, -⟩ := Text.exists_append_of_dropWord h
      rw [List.append_nil] at hperiod
      obtain ⟨w, hw, hsame⟩ := hall '.' (List.mem_of_getLast? hperiod)
      rw [List.any_eq_true.mpr ⟨w, hw, hsame⟩] at hword
      cases hword

/-- The last word of a header is found again in a longer text. -/
lemma exists_dropWord_append {s later rest word after : List Char} (hlater : later <:+ s)
    (h : Text.dropWord word (Text.trimLeft later) = some after) (hends : endsWord after = true)
    (hrest : MayFollow s rest) (hne : word ≠ [])
    (hword : (word.any fun w => Text.sameLetter w '.') = false) :
    ∃ found, Text.dropWord word (Text.trimLeft (later ++ rest)) = some found ∧
      endsWord found = true := by
  have hnonempty : Text.trimLeft later ≠ [] := by
    intro hnil
    rw [hnil] at h
    cases word with
    | nil => exact hne rfl
    | cons w ws => cases h
  have hsuffix : Text.trimLeft later <:+ s := (List.dropWhile_suffix _).trans hlater
  refine ⟨after ++ rest, ?_, endsWord_append h hends (hrest.suffix hsuffix hnonempty) hword⟩
  rw [Text.trimLeft_append hnonempty, Text.dropWord_append h]

end Cuts

section Headers

lemma isEndProgram_iff {s : List Char} : isEndProgram s = true ↔ ∃ b later after,
    Text.dropWord "END".toList (Text.trimLeft s) = some (b :: later) ∧ Text.isBlank b = true ∧
    Text.dropWord "PROGRAM".toList (Text.trimLeft later) = some after ∧ endsWord after = true := by
  constructor
  · intro h
    unfold isEndProgram at h
    split at h
    · rename_i b later hend
      split at h
      · rename_i hblank
        split at h
        · rename_i after hprogram
          exact ⟨b, later, after, hend, hblank, hprogram, h⟩
        · cases h
      · cases h
    · cases h
  · rintro ⟨b, later, after, hend, hblank, hprogram, hends⟩
    simp only [isEndProgram, hend, hblank, if_true, hprogram, hends]

/-- The characters of the name of a division. -/
def isNameChar (c : Char) : Bool :=
  Text.isLatinLetter c || c.isDigit || c == '-'

lemma divisionName?_eq_some_iff {s name : List Char} :
    divisionName? s = some name ↔ ∃ c cs b later after, Text.trimLeft s = c :: cs ∧
      Text.isLatinLetter c = true ∧ (c :: cs).takeWhile isNameChar = name ∧
      (c :: cs).drop name.length = b :: later ∧ Text.isBlank b = true ∧
      Text.dropWord "DIVISION".toList (Text.trimLeft (b :: later)) = some after ∧
      endsWord after = true := by
  have hchars : (fun c => Text.isLatinLetter c || c.isDigit || c == '-') = isNameChar := rfl
  simp only [divisionName?, hchars]
  constructor
  · intro h
    split at h
    · rename_i c cs hs
      rw [hs] at h
      split at h
      · rename_i hletter
        generalize hname : (c :: cs).takeWhile isNameChar = found at h
        split at h
        · rename_i b later hlater
          rw [hlater] at h
          split at h
          · rename_i hblank
            split at h
            · rename_i after hdivision
              split at h
              · rename_i hends
                obtain rfl := Option.some.inj h
                exact ⟨c, cs, b, later, after, hs, hletter, hname, hlater, hblank, hdivision, hends⟩
              · cases h
            · cases h
          · cases h
        · cases h
      · cases h
    · cases h
  · rintro ⟨c, cs, b, later, after, hs, hletter, rfl, hlater, hblank, hdivision, hends⟩
    simp only [hs, hletter, if_true, hlater, hblank, hdivision, hends]

lemma isEndProgram_append {s rest : List Char} (h : isEndProgram s = true)
    (hrest : MayFollow s rest) : isEndProgram (s ++ rest) = true := by
  obtain ⟨b, later, after, hend, hblank, hprogram, hends⟩ := isEndProgram_iff.mp h
  have hnonempty : Text.trimLeft s ≠ [] := by
    intro hnil
    rw [hnil] at hend
    cases hend
  have hlater : later <:+ s := by
    obtain ⟨start, hstart, -⟩ := Text.exists_append_of_dropWord hend
    have hsuffix : b :: later <:+ Text.trimLeft s := ⟨start, hstart.symm⟩
    exact ((List.suffix_cons b later).trans hsuffix).trans (List.dropWhile_suffix _)
  obtain ⟨found, hfound, hfoundEnds⟩ :=
    exists_dropWord_append hlater hprogram hends hrest (by simp) (by cbv)
  refine isEndProgram_iff.mpr ⟨b, later ++ rest, found, ?_, hblank, hfound, hfoundEnds⟩
  rw [Text.trimLeft_append hnonempty, Text.dropWord_append hend, List.cons_append]

lemma divisionName?_append {s rest name : List Char} (h : divisionName? s = some name)
    (hrest : MayFollow s rest) : divisionName? (s ++ rest) = some name := by
  obtain ⟨c, cs, b, later, after, hs, hletter, hname, hlater, hblank, hdivision, hends⟩ :=
    divisionName?_eq_some_iff.mp h
  have hlt : name.length < (c :: cs).length := by
    have hlength := congrArg List.length hlater
    simp only [List.length_drop, List.length_cons] at hlength ⊢
    omega
  have hsuffix : b :: later <:+ s := by
    rw [← hlater]
    exact (List.drop_suffix _ _).trans (hs ▸ List.dropWhile_suffix _)
  obtain ⟨found, hfound, hfoundEnds⟩ :=
    exists_dropWord_append hsuffix hdivision hends hrest (by simp) (by cbv)
  refine divisionName?_eq_some_iff.mpr ⟨c, cs ++ rest, b, later ++ rest, found, ?_, hletter, ?_, ?_,
    hblank, hfound, hfoundEnds⟩
  · rw [Text.trimLeft_append (by simp [hs]), hs, List.cons_append]
  · rw [← List.cons_append, List.takeWhile_append, hname, if_neg (by omega)]
  · rw [← List.cons_append, List.drop_append_of_le_length (by omega), hlater, List.cons_append]

/-- A header that a text starts with is one of a longer text as well. -/
lemma endsDivision_append {s rest : List Char} (h : endsDivision s = true)
    (hrest : MayFollow s rest) : endsDivision (s ++ rest) = true := by
  rw [endsDivision, Bool.or_eq_true] at h ⊢
  rcases h with h | h
  · obtain ⟨name, hname⟩ := Option.isSome_iff_exists.mp h
    exact .inl (Option.isSome_iff_exists.mpr ⟨name, divisionName?_append hname hrest⟩)
  · exact .inr (isEndProgram_append h hrest)

end Headers

section Keywords

lemma endsWord_of_append {s t : List Char} (h : endsWord (s ++ t) = true) : endsWord s = true := by
  cases s with
  | nil => rfl
  | cons c s => exact h

lemma exists_append_of_afterPeriod? {s rest : List Char} (h : afterPeriod? s = some rest) :
    ∃ blanks, s = blanks ++ ['.'] ++ rest := by
  unfold afterPeriod? at h
  split at h
  · rename_i after hafter
    obtain rfl := Option.some.inj h
    refine ⟨s.takeWhile Text.isBlank, ?_⟩
    rw [List.append_assoc, List.singleton_append, ← hafter, Text.takeWhile_append_trimLeft]
  · cases h

/-- What a keyword takes of a text is found by the same keyword when the text ends behind it. -/
lemma exists_append_of_afterKeyword? {s keyword rest : List Char}
    (h : afterKeyword? false s keyword = some rest) :
    ∃ start, s = start ++ rest ∧ (afterKeyword? false start keyword).isSome = true ∧
      MayFollow start rest := by
  have hfound : ∀ {t after}, Text.dropWord keyword t = some after → endsWord after = true →
      (afterKeyword? false t keyword).isSome = true := by
    intro t after hdrop hends
    simp only [afterKeyword?, hdrop, hends, if_true]
    split <;> simp
  unfold afterKeyword? at h
  split at h
  · rename_i after hdrop
    obtain ⟨start, rfl, -, hstart⟩ := Text.exists_append_of_dropWord hdrop
    split at h
    · rename_i hends
      split at h
      · rename_i later hperiod
        obtain rfl := Option.some.inj h
        obtain ⟨blanks, rfl⟩ := exists_append_of_afterPeriod? hperiod
        refine ⟨start ++ (blanks ++ ['.']), by simp, hfound (hstart _) (endsWord_of_append hends),
          .inr ?_⟩
        rw [← List.append_assoc, List.getLast?_concat]
      · obtain rfl : after = rest := by simpa using h
        have hempty := hstart []
        rw [List.append_nil] at hempty
        exact ⟨start, rfl, hfound hempty rfl, .inl hends⟩
    · cases h
  · cases h

/-- The part of a line up to its prose starts with a keyword itself, and what follows does not go on
with a word. -/
lemma proseStart?_take {d : Dialect} {content : List Char} {n : Nat}
    (h : proseStart? d content = some n) :
    (proseStart? d (content.take n)).isSome = true ∧
      MayFollow (content.take n) (content.drop n) := by
  obtain ⟨rest, hafter, rfl⟩ := Option.map_eq_some_iff.mp h
  obtain ⟨k, hk, hfind⟩ := List.exists_of_findSome?_eq_some hafter
  obtain ⟨keyword, hkeyword, hrest⟩ := List.exists_of_findSome?_eq_some hfind
  obtain ⟨start, hstart, hfound, hfollow⟩ := exists_append_of_afterKeyword? hrest
  rw [List.mem_reverse, List.mem_range, Nat.lt_succ_iff] at hk
  have hblanks : content.take k <+: content.takeWhile Text.isBlank :=
    List.prefix_of_prefix_length_le (List.take_prefix k content) (List.takeWhile_prefix _)
      (Nat.le_trans (List.length_take_le k content) hk)
  have hlength : (content.take k).length = k :=
    List.length_take_of_le (Nat.le_trans hk (List.takeWhile_prefix _).length_le)
  have hcontent : content = content.take k ++ start ++ rest := by
    rw [List.append_assoc, ← hstart, List.take_append_drop]
  have hcount : content.length - rest.length = (content.take k ++ start).length := by
    have hsum := congrArg List.length hcontent
    rw [List.length_append] at hsum
    omega
  have htake : content.take (content.length - rest.length) = content.take k ++ start := by
    rw [hcount]
    exact (List.prefix_iff_eq_take.mp ⟨rest, hcontent.symm⟩).symm
  have hdrop : content.drop (content.length - rest.length) = rest := by
    have hsplit := List.take_append_drop (content.length - rest.length) content
    rw [htake] at hsplit
    exact List.append_cancel_left (hsplit.trans hcontent)
  rw [htake, hdrop]
  constructor
  · rw [proseStart?, Option.isSome_map, afterAny?, List.findSome?_isSome_iff]
    refine ⟨k, ?_, List.findSome?_isSome_iff.mpr ⟨keyword, hkeyword, ?_⟩⟩
    · have hall : ∀ c ∈ content.take k, Text.isBlank c = true :=
        fun c hc => List.all_eq_true.mp List.all_takeWhile c (hblanks.subset hc)
      rw [List.takeWhile_append_of_pos hall, List.mem_reverse, List.mem_range, List.length_append]
      omega
    · rw [List.drop_left' hlength]
      exact hfound
  · rcases hfollow with hends | hperiod
    · exact .inl hends
    · refine .inr ?_
      rw [List.getLast?_append, hperiod]
      rfl

/-- The part of a line in front of its prose is a header only if the line is one. -/
lemma endsDivision_of_take {d : Dialect} {content : List Char} {n : Nat}
    (h : proseStart? d content = some n) (hheader : endsDivision (content.take n) = true) :
    endsDivision content = true := by
  have happend := endsDivision_append hheader (proseStart?_take h).2
  rwa [List.take_append_drop] at happend

end Keywords

end CommentEntry

end CobolText
