import CobolText.Proofs.SharedCache
import CobolText.Proofs.WordPatterns

/-!
# Spellings of a name

A name in capitals or in small letters may be longer than the name as it is written, but it is
never shorter, and it has its slashes and dots where the name has them.  So every spelling of a name
has the components of the name, each spelled in the same way.
-/

namespace CobolText

namespace Text

/-- The characters that have a meaning in a path. -/
def IsMark (c : Char) : Prop :=
  c = '/' ∨ c = '.'

instance : DecidablePred IsMark := fun c => inferInstanceAs (Decidable (c = '/' ∨ c = '.'))

/-- Whether a piece of text can stand for a character: it is not empty, and a mark stands for itself
only. -/
structure Spells (c : Char) (piece : List Char) : Prop where
  ne_nil : piece ≠ []
  of_mem : ∀ d ∈ piece, IsMark d → d = c
  of_mark : IsMark c → piece = [c]

lemma spells_singleton {c d : Char} (h : IsMark d ∨ IsMark c → d = c) : Spells c [d] := by
  refine ⟨by simp, fun e he hmark => ?_, fun hmark => by rw [h (.inr hmark)]⟩
  obtain rfl := List.mem_singleton.mp he
  exact h (.inl hmark)

/-- Whether a text is made from another by putting pieces in the place of its characters. -/
inductive Respelled : List Char → List Char → Prop where
  | nil : Respelled [] []
  | cons {c : Char} {piece s t : List Char} (head : Spells c piece) (tail : Respelled s t) :
      Respelled (c :: s) (piece ++ t)

/-- Whether a component starts behind a text: the text is empty or ends with a slash. -/
def StartsBehind (front : List Char) : Prop :=
  front = [] ∨ ∃ before, front = before ++ ['/']

namespace Respelled

variable {s s' t : List Char}

lemma refl (s : List Char) : Respelled s s := by
  induction s with
  | nil => exact .nil
  | cons c s ih => exact .cons (spells_singleton fun _ => rfl) ih

/-- A text in two parts is respelled part by part. -/
lemma split (h : Respelled (s ++ s') t) :
    ∃ u u', t = u ++ u' ∧ Respelled s u ∧ Respelled s' u' := by
  induction s generalizing t with
  | nil => exact ⟨[], t, rfl, .nil, h⟩
  | cons c s ih =>
    cases h with
    | cons head tail =>
      obtain ⟨u, u', rfl, hu, hu'⟩ := ih tail
      exact ⟨_, u', (List.append_assoc ..).symm, cons head hu, hu'⟩

lemma length_le (h : Respelled s t) : s.length ≤ t.length := by
  induction h with
  | nil => rfl
  | cons head tail ih =>
    have hpiece := List.length_pos_of_ne_nil head.ne_nil
    rw [List.length_cons, List.length_append]
    omega

/-- The marks of a text are those of its respelling. -/
lemma mem_iff (h : Respelled s t) {d : Char} (hd : IsMark d) : d ∈ t ↔ d ∈ s := by
  induction h with
  | nil => rfl
  | cons head tail ih =>
    rename_i c piece s t
    rw [List.mem_append, List.mem_cons, ih]
    have hhead : d ∈ piece ↔ d = c := by
      constructor
      · intro hmem
        exact head.of_mem d hmem hd
      · rintro rfl
        rw [head.of_mark hd]
        exact List.mem_singleton_self d
    rw [hhead]

lemma eq_nil_iff (h : Respelled s t) : t = [] ↔ s = [] := by
  cases h with
  | nil => simp
  | cons head tail => simp [head.ne_nil]

lemma eq_of_mark {c : Char} (hc : IsMark c) (h : Respelled [c] t) : t = [c] := by
  cases h with
  | cons head tail =>
    cases tail
    rw [head.of_mark hc, List.append_nil]

lemma head_mark {c : Char} (hc : IsMark c) (h : Respelled (c :: s) t) : ∃ rest, t = c :: rest := by
  cases h with
  | cons head tail =>
    rw [head.of_mark hc]
    exact ⟨_, rfl⟩

/-- Only a mark is respelled as that mark. -/
lemma eq_of_eq_mark {c : Char} (hc : IsMark c) (h : Respelled s [c]) : s = [c] := by
  have hmem := (h.mem_iff hc).mp (List.mem_singleton_self c)
  have hlength := h.length_le
  match s with
  | [d] => rw [List.mem_singleton.mp hmem]
  | [] => cases hmem
  | _ :: _ :: _ => simp at hlength

lemma startsBehind (h : Respelled s t) (hs : StartsBehind s) : StartsBehind t := by
  rcases hs with rfl | ⟨before, rfl⟩
  · exact .inl (h.eq_nil_iff.mpr rfl)
  · obtain ⟨u, u', rfl, -, hslash⟩ := h.split
    rw [hslash.eq_of_mark (.inl rfl)]
    exact .inr ⟨u, rfl⟩

end Respelled

section Components

/-- Every text ends with what stands behind its last slash. -/
lemma exists_lastComponent (s : List Char) :
    ∃ front tail, s = front ++ tail ∧ StartsBehind front ∧ '/' ∉ tail := by
  induction s using List.reverseRecOn with
  | nil => exact ⟨[], [], rfl, .inl rfl, by simp⟩
  | append_singleton s c ih =>
    by_cases hc : c = '/'
    · exact ⟨s ++ [c], [], (List.append_nil _).symm, .inr ⟨s, by rw [hc]⟩, by simp⟩
    · obtain ⟨front, tail, rfl, hfront, htail⟩ := ih
      refine ⟨front, tail ++ [c], List.append_assoc .., hfront, ?_⟩
      simp [htail, Ne.symm hc]

lemma splitOn_append_sep (sep : Char) (s t : List Char) :
    splitOn sep (s ++ sep :: t) = splitOn sep s ++ splitOn sep t := by
  induction s with
  | nil => simp [splitStep, splitOn]
  | cons c s ih =>
    rw [List.cons_append, splitOn_cons, splitOn_cons, ih]
    unfold splitStep
    split
    · rfl
    · cases h : splitOn sep s with
      | nil => exact absurd h (splitOn_ne_nil sep s)
      | cons piece pieces => rfl

end Components

section Case

lemma not_isMark_ofNat {n : Nat} (h : 64 < n) : ¬IsMark (Char.ofNat n) := by
  have hcode : (Char.ofNat n).toNat = n ∨ (Char.ofNat n).toNat = 0 := by
    unfold Char.ofNat
    split
    · exact .inl rfl
    · exact .inr rfl
  intro hmark
  have hlow : (Char.ofNat n).toNat = 47 ∨ (Char.ofNat n).toNat = 46 := by
    rcases hmark with h | h
    · exact .inl (by rw [h]; rfl)
    · exact .inr (by rw [h]; rfl)
  omega

lemma upperExpansions_letters : ∀ e ∈ upperExpansions, e.2 ≠ [] ∧ ∀ n ∈ e.2, 64 < n := by
  decide +kernel

lemma lowerExpansions_letters : ∀ e ∈ lowerExpansions, e.2 ≠ [] ∧ ∀ n ∈ e.2, 64 < n := by
  decide

lemma upperRuns_letters : ∀ r ∈ upperRuns, (64 : Int) < (r.first : Int) + r.shift := by
  rw [← List.all_iff_forall_prop]
  decide +kernel

lemma lowerRuns_letters : ∀ r ∈ lowerRuns, (64 : Int) < (r.first : Int) + r.shift := by
  rw [← List.all_iff_forall_prop]
  decide +kernel

lemma spells_mapCase {expansions : List (Nat × List Nat)} {runs : List CaseRun}
    (hexpansions : ∀ e ∈ expansions, e.2 ≠ [] ∧ ∀ n ∈ e.2, 64 < n)
    (hruns : ∀ r ∈ runs, (64 : Int) < (r.first : Int) + r.shift) {c : Char} (hc : 0x80 ≤ c.toNat) :
    Spells c (mapCase expansions runs c) where
  ne_nil := by
    unfold mapCase
    split
    · rename_i codes hcodes
      obtain ⟨before, after, hsplit, -⟩ := List.lookup_eq_some_iff.mp hcodes
      rw [ne_eq, List.map_eq_nil_iff]
      exact (hexpansions (c.toNat, codes) (by simp [hsplit])).1
    · split <;> simp
  of_mem := by
    intro d hd hmark
    rcases mem_mapCase (fun e he => (hexpansions e he).2) hruns hd with rfl | ⟨n, hn, rfl⟩
    · rfl
    · exact absurd hmark (not_isMark_ofNat hn)
  of_mark := by
    rintro (rfl | rfl)
    · exact absurd hc (by decide)
    · exact absurd hc (by decide)

lemma ascii_toUpper : ∀ n < 0x80,
    IsMark (Char.ofNat n).toUpper ∨ IsMark (Char.ofNat n) →
      (Char.ofNat n).toUpper = Char.ofNat n := by
  decide

lemma ascii_toLower : ∀ n < 0x80,
    IsMark (Char.ofNat n).toLower ∨ IsMark (Char.ofNat n) →
      (Char.ofNat n).toLower = Char.ofNat n := by
  decide

lemma spells_upperChar (c : Char) : Spells c (upperChar c) := by
  unfold upperChar
  split
  · rename_i hc
    have hascii := ascii_toUpper c.toNat hc
    rw [Char.ofNat_toNat] at hascii
    exact spells_singleton hascii
  · rename_i hc
    exact spells_mapCase upperExpansions_letters upperRuns_letters (by omega)

lemma spells_lowerChar (c : Char) : Spells c (lowerChar c) := by
  unfold lowerChar
  split
  · rename_i hc
    have hascii := ascii_toLower c.toNat hc
    rw [Char.ofNat_toNat] at hascii
    exact spells_singleton hascii
  · rename_i hc
    exact spells_mapCase lowerExpansions_letters lowerRuns_letters (by omega)

lemma spells_sigma {c : Char} (hc : c.toNat = 0x3a3) {n : Nat} (hn : 64 < n) :
    Spells c [Char.ofNat n] := by
  apply spells_singleton
  rintro (hmark | rfl | rfl)
  · exact absurd hmark (not_isMark_ofNat hn)
  · exact absurd hc (by decide)
  · exact absurd hc (by decide)

lemma respelled_upper (s : List Char) : Respelled s (upper s) := by
  induction s with
  | nil => exact .nil
  | cons c s ih => exact .cons (spells_upperChar c) ih

lemma respelled_lowerAfter (before s : List Char) : Respelled s (lowerAfter before s) := by
  induction s generalizing before with
  | nil => exact .nil
  | cons c s ih =>
    unfold lowerAfter
    apply Respelled.cons _ (ih (c :: before))
    split
    · rename_i hsigma
      apply spells_sigma (beq_iff_eq.mp hsigma)
      split <;> decide
    · exact spells_lowerChar c

lemma respelled_lowerString (s : String) : Respelled s.toList (lowerString s).toList := by
  rw [lowerString, String.toList_ofList]
  exact respelled_lowerAfter [] s.toList

lemma respelled_upperString (s : String) : Respelled s.toList (upperString s).toList := by
  rw [upperString, String.toList_ofList]
  exact respelled_upper s.toList

end Case

end Text

namespace SearchPlan

/-- Every spelling that is tried has the marks of the name. -/
lemma respelled_of_mem_variants {p : SearchPlan} {name variant : String}
    (h : variant ∈ p.variants name) : Text.Respelled name.toList variant.toList := by
  unfold variants at h
  split at h
  · rw [List.mem_singleton.mp h]
    exact .refl _
  · rw [List.mem_eraseDups] at h
    simp only [List.mem_cons, List.not_mem_nil, or_false] at h
    rcases h with rfl | rfl | rfl
    · exact .refl _
    · exact Text.respelled_upperString name
    · exact Text.respelled_lowerString name

lemma self_mem_variants (p : SearchPlan) (name : String) : name ∈ p.variants name := by
  unfold variants
  split
  · exact List.mem_singleton_self name
  · rw [List.mem_eraseDups]
    exact List.mem_cons_self

end SearchPlan

namespace Path

lemma isAbsolute_ofString_iff {s : String} :
    (ofString s).isAbsolute = true ↔ ∃ rest, s.toList = '/' :: rest := by
  have hslashes : (ofString s).isAbsolute = true ↔
      (s.toList.takeWhile (· == '/')).length ≠ 0 := by
    unfold ofString isAbsolute
    dsimp only
    split
    · simp
    · rename_i hleading
      simp only [Bool.or_eq_true, beq_iff_eq, not_or] at hleading
      simp [hleading.1]
  rw [hslashes]
  cases s.toList with
  | nil => simp
  | cons c rest =>
    by_cases hc : c = '/'
    · simp [hc]
    · simp [hc]

/-- The last component of a path is what stands behind its last slash. -/
lemma getLast?_parts {front tail : List Char} (hfront : Text.StartsBehind front)
    (htail : '/' ∉ tail) (hne : tail ≠ []) (hdot : tail ≠ ['.']) :
    (ofString (String.ofList (front ++ tail))).parts.getLast? = some (String.ofList tail) := by
  have hpieces : ∃ pieces, Text.splitOn '/' (front ++ tail) = pieces ++ [tail] := by
    rcases hfront with rfl | ⟨before, rfl⟩
    · exact ⟨[], Text.splitOn_of_not_mem htail⟩
    · refine ⟨Text.splitOn '/' before, ?_⟩
      rw [List.append_assoc, List.singleton_append, Text.splitOn_append_sep,
        Text.splitOn_of_not_mem htail]
  obtain ⟨pieces, hpieces⟩ := hpieces
  have hkept : (String.ofList tail != "" && String.ofList tail != ".") = true := by
    rw [Bool.and_eq_true, bne_iff_ne, bne_iff_ne]
    constructor
    · intro h
      exact hne (by simpa using congrArg String.toList h)
    · intro h
      exact hdot (by simpa using congrArg String.toList h)
  unfold ofString
  rw [String.toList_ofList, hpieces]
  simp [List.filter_append, hkept]

lemma getLast?_parts_child (base : Path) {name last : String}
    (h : (ofString name).parts.getLast? = some last) :
    (base.child name).parts.getLast? = some last := by
  unfold child join
  split
  · exact h
  · rw [List.getLast?_append, h]
    rfl

end Path

end CobolText
