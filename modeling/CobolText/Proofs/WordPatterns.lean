import CobolText.Expansion
import CobolText.Proofs.GuardedComments

/-!
# Patterns start with words

Every rule of a directive is made from a pattern that holds words.  The first part of such a pattern
is a token that is no blank, and no letter counts as white space in either case.  So wherever a rule
matches, the text does not start with white space.
-/

namespace CobolText

namespace Lexer

/-- White space is among the first code points. -/
lemma not_isSpace_of_toNat {c : Char} (h : 32 < c.toNat ∨ c.toNat = 0) : isSpace c = false := by
  by_contra hspace
  simp only [Bool.not_eq_false, isSpace, Bool.or_eq_true, beq_iff_eq] at hspace
  rcases hspace with (((rfl | rfl) | rfl) | rfl) | rfl <;> revert h <;> decide

lemma not_isSpace_ofNat {n : Nat} (h : 32 < n) : isSpace (Char.ofNat n) = false := by
  apply not_isSpace_of_toNat
  unfold Char.ofNat
  split
  · exact .inl h
  · exact .inr rfl

end Lexer

namespace Text

open Lexer

/-- A table makes a character into itself or into characters with images as their codes. -/
lemma mem_mapCase {expansions : List (Nat × List Nat)} {runs : List CaseRun} {bound : Nat}
    (hexpansions : ∀ e ∈ expansions, ∀ n ∈ e.2, bound < n)
    (hruns : ∀ r ∈ runs, (bound : Int) < (r.first : Int) + r.shift) {c d : Char}
    (hd : d ∈ mapCase expansions runs c) : d = c ∨ ∃ n, bound < n ∧ d = Char.ofNat n := by
  unfold mapCase at hd
  split at hd
  · rename_i codes hcodes
    obtain ⟨n, hn, rfl⟩ := List.mem_map.mp hd
    obtain ⟨before, after, hsplit, -⟩ := List.lookup_eq_some_iff.mp hcodes
    exact .inr ⟨n, hexpansions (c.toNat, codes) (by simp [hsplit]) n hn, rfl⟩
  · split at hd
    · rename_i n hn
      obtain ⟨r, hr, himage⟩ := List.exists_of_findSome?_eq_some hn
      have hshift := hruns r hr
      unfold CaseRun.image? at himage
      split at himage
      · rename_i hin
        simp only [Bool.and_eq_true, decide_eq_true_eq] at hin
        have hn := Option.some.inj himage
        exact .inr ⟨n, by omega, List.mem_singleton.mp hd⟩
      · cases himage
    · exact .inl (List.mem_singleton.mp hd)

/-- A table whose images lie above all white space makes no white space. -/
lemma not_isSpace_of_mapCase {expansions : List (Nat × List Nat)} {runs : List CaseRun}
    (hexpansions : ∀ e ∈ expansions, ∀ n ∈ e.2, 32 < n)
    (hruns : ∀ r ∈ runs, 32 < (r.first : Int) + r.shift) {c : Char} (hc : isSpace c = false) :
    ∀ d ∈ mapCase expansions runs c, isSpace d = false := by
  intro d hd
  rcases mem_mapCase hexpansions hruns hd with rfl | ⟨n, hn, rfl⟩
  · exact hc
  · exact not_isSpace_ofNat hn

lemma lowerExpansions_images : ∀ e ∈ lowerExpansions, ∀ n ∈ e.2, 32 < n := by
  decide

lemma lowerRuns_images : ∀ r ∈ lowerRuns, 32 < (r.first : Int) + r.shift := by
  rw [← List.all_iff_forall_prop]
  decide +kernel

lemma caseEquivalents_images : ∀ e ∈ caseEquivalents, ∀ n ∈ e.2, 32 < n := by
  decide +kernel

lemma not_isSpace_smallLetter {c : Char} (hc : isSpace c = false) :
    isSpace (smallLetter c) = false := by
  unfold smallLetter lowerChar
  split
  · rw [List.headD_cons]
    unfold Char.toLower
    split
    · rename_i hupper
      apply not_isSpace_of_toNat
      left
      have hvalue : (c.val + ('a'.val - 'A'.val)).toNat = c.val.toNat + 32 := by
        have hlast : c.val.toNat ≤ 90 := UInt32.le_iff_toNat_le.mp hupper.2
        rw [UInt32.toNat_add, Nat.mod_eq_of_lt]
        · rfl
        · exact Nat.lt_of_le_of_lt (Nat.add_le_add_right hlast _) (by decide)
      have hfirst : 65 ≤ c.val.toNat := UInt32.le_iff_toNat_le.mp hupper.1
      change 32 < (c.val + ('a'.val - 'A'.val)).toNat
      omega
    · exact hc
  · have hmap := not_isSpace_of_mapCase lowerExpansions_images lowerRuns_images hc
    cases hlower : mapCase lowerExpansions lowerRuns c with
    | nil => exact hc
    | cons d ds => exact hmap d (by rw [hlower]; exact List.mem_cons_self)

lemma not_isSpace_of_mem_equivalents {c d : Char} (h : d ∈ equivalents c) : isSpace d = false := by
  unfold equivalents at h
  split at h
  · rename_i codes hcodes
    obtain ⟨n, hn, rfl⟩ := List.mem_map.mp h
    obtain ⟨before, after, hsplit, -⟩ := List.lookup_eq_some_iff.mp hcodes
    apply not_isSpace_ofNat
    exact caseEquivalents_images (c.toNat, codes) (by simp [hsplit]) n hn
  · simp at h

/-- Only white space counts as white space in either case. -/
lemma not_isSpace_of_sameLetter {wanted c : Char} (hwanted : isSpace wanted = false)
    (h : sameLetter wanted c = true) : isSpace c = false := by
  by_contra hspace
  have hsmall : smallLetter c = c := by
    simp only [Bool.not_eq_false, isSpace, Bool.or_eq_true, beq_iff_eq] at hspace
    rcases hspace with (((rfl | rfl) | rfl) | rfl) | rfl <;> rfl
  unfold sameLetter at h
  rw [hsmall] at h
  split at h
  · simp only [Bool.or_eq_true, beq_iff_eq, List.contains_iff_mem] at h
    rcases h with h | h
    · exact hspace (h ▸ not_isSpace_smallLetter hwanted)
    · exact hspace (not_isSpace_of_mem_equivalents h)
  · rw [beq_iff_eq] at h
    exact hspace (h ▸ hwanted)

end Text

namespace Token

/-- A token with a meaning does not start with white space. -/
lemma not_isSpace_of_next? {pos : Nat} {s rest : List Char} {t : Token}
    (h : Token.next? false pos s = some (t, rest)) (hblank : t.isBlank = false) :
    ∃ c cs, t.text = c :: cs ∧ Lexer.isSpace c = false := by
  cases s with
  | nil => simp [Token.next?] at h
  | cons c cs =>
    simp only [Token.next?, Option.some.injEq, Prod.mk.injEq] at h
    obtain ⟨rfl, -⟩ := h
    refine ⟨c, _, rfl, ?_⟩
    rcases Lexer.measure_cases c cs with ⟨-, hm⟩ | ⟨-, hm⟩ | ⟨-, hsolid, -⟩ | ⟨-, hspace, -⟩
    · simp [hm, Token.isBlank] at hblank
    · simp [hm, Token.isBlank] at hblank
    · by_contra hspace
      simp [Lexer.isBlank_of_isSpace (by simpa using hspace)] at hsolid
    · exact hspace

lemma exists_next?_of_mem {pseudo : Bool} {pos : Nat} {s : List Char} {t : Token}
    (h : t ∈ tokens pseudo pos s) : ∃ s' rest, next? pseudo t.start s' = some (t, rest) := by
  fun_induction tokens pseudo pos s with
  | case1 => simp at h
  | case2 pos s u rest hnext ih =>
    rcases List.mem_cons.mp h with rfl | h
    · rw [← (next?_eq_some hnext).1] at hnext
      exact ⟨s, rest, hnext⟩
    · exact ih h

end Token

namespace WordPattern

/-- A pattern starts with the part of its first token with a meaning. -/
lemma partsFrom_eq_cons {gap : Bool} {ts : List Token} (h : partsFrom false gap ts ≠ []) :
    ∃ t ∈ ts, t.isBlank = false ∧ ∃ parts, partsFrom false gap ts = partOf t :: parts := by
  induction ts generalizing gap with
  | nil => exact absurd rfl h
  | cons t ts ih =>
    rw [partsFrom] at h ⊢
    by_cases hblank : t.isBlank = true
    · rw [if_pos hblank] at h ⊢
      obtain ⟨u, hu, hmeaning, hparts⟩ := ih h
      exact ⟨u, List.mem_cons_of_mem t hu, hmeaning, hparts⟩
    · rw [if_neg hblank, Bool.false_and, if_neg (by simp)]
      exact ⟨t, List.mem_cons_self, by simpa using hblank, _, rfl⟩

/-- A part that starts with no white space is not found at white space. -/
lemma not_isSpace_of_lengthAt? {t : Token} {c : Char} {cs : List Char} (htext : t.text = c :: cs)
    (hc : Lexer.isSpace c = false) {parts : List PatternPart} {s : List Char} {n : Nat}
    (h : lengthAt? (partOf t :: parts) s = some n) : ∀ d ∈ s.head?, Lexer.isSpace d = false := by
  intro d hd
  obtain ⟨ds, rfl⟩ : ∃ ds, s = d :: ds := by
    cases s with
    | nil => cases hd
    | cons e es => exact ⟨es, by rw [Option.some.inj hd]⟩
  unfold partOf at h
  split at h
  · simp only [lengthAt?, htext] at h
    split at h
    · rename_i hinit
      obtain ⟨rest, hrest⟩ := List.isPrefixOf_iff_prefix.mp hinit
      rw [← (List.cons.inj hrest).1]
      exact hc
    · cases h
  · simp only [lengthAt?, htext, Text.dropWord] at h
    by_cases hsame : Text.sameLetter c d = true
    · exact Text.not_isSpace_of_sameLetter hc hsame
    · rw [if_neg hsame] at h
      cases h

end WordPattern

namespace ReplacementRule

/-- Whether a rule looks for the words of its pattern. -/
def Made (rule : ReplacementRule) : Prop :=
  WordPattern.ofText? rule.pattern = some rule.words

lemma made_of_make? {pattern replacement : List Char} {pseudoText : Bool} {rule : ReplacementRule}
    (h : make? pattern replacement pseudoText = some rule) : rule.Made := by
  obtain ⟨words, hwords, rfl⟩ := Option.map_eq_some_iff.mp h
  exact hwords

/-- No match starts with white space. -/
lemma Made.not_isSpace {rule : ReplacementRule} (h : rule.Made) {before : Option Char}
    {s : List Char} {n : Nat} (hmatch : rule.words.matchLength? before s = some n) :
    ∀ c ∈ s.head?, Lexer.isSpace c = false := by
  unfold Made WordPattern.ofText? at h
  dsimp only at h
  split at h
  · cases h
  · rename_i hparts
    rw [← Option.some.inj h] at hmatch
    unfold WordPattern.matchLength? at hmatch
    split at hmatch
    · cases hmatch
    · obtain ⟨t, ht, hblank, parts, heq⟩ :=
        WordPattern.partsFrom_eq_cons (mt List.isEmpty_iff.mpr hparts)
      obtain ⟨s', rest, hnext⟩ := Token.exists_next?_of_mem ht
      obtain ⟨c, cs, htext, hc⟩ := Token.not_isSpace_of_next? hnext hblank
      rw [heq] at hmatch
      exact WordPattern.not_isSpace_of_lengthAt? htext hc hmatch

end ReplacementRule

namespace Directive

open ReplacementRule

lemma pairs_made {ts : List Token} {found : List ReplacementRule} {stop : Nat}
    (h : pairs ts = .ok (found, stop)) : ∀ rule ∈ found, rule.Made := by
  fun_induction pairs ts generalizing found stop with
  | case2 t ts hperiod =>
    rw [← (Prod.mk.inj (Except.ok.inj h)).1]
    simp
  | case10 =>
    rename_i rule hmake later last hpairs ih
    rw [← (Prod.mk.inj (Except.ok.inj h)).1, List.forall_mem_cons]
    exact ⟨made_of_make? hmake, ih hpairs⟩
  | _ => simp_all

lemma rules_made {ts : List Token} {found : List ReplacementRule} {stop : Nat}
    (h : rules ts = .ok (found, stop)) : ∀ rule ∈ found, rule.Made := by
  unfold rules at h
  split at h
  · cases h
  · exact pairs_made h

lemma copyTail_made {name : String} {library : Option String} {ts : List Token}
    {clause : CopyClause} {stop : Nat} (h : copyTail name library ts = .ok (clause, stop)) :
    ∀ rule ∈ clause.rules, rule.Made := by
  unfold copyTail at h
  dsimp only at h
  split at h
  · cases h
  split at h
  · split at h
    · rename_i found last hrules
      rw [← (Prod.mk.inj (Except.ok.inj h)).1]
      exact rules_made hrules
    · cases h
  · split at h
    · rw [← (Prod.mk.inj (Except.ok.inj h)).1]
      simp
    · cases h

lemma copyClause_made {pos stop : Nat} {s : List Char} {clause : CopyClause}
    (h : copyClause pos s = .ok (clause, stop)) : ∀ rule ∈ clause.rules, rule.Made := by
  unfold copyClause at h
  split at h
  · cases h
  split at h
  · cases h
  unfold copyAfterName at h
  dsimp only at h
  split at h
  · cases h
  split at h
  · split at h
    · cases h
    split at h
    · cases h
    · exact copyTail_made h
  · exact copyTail_made h

lemma closing_eq {change effect : RuleChange} {ts : List Token} {stop : Nat}
    (h : closing change ts = .ok (effect, stop)) : effect = change := by
  cases ts with
  | nil => cases h
  | cons t ts =>
    rw [closing] at h
    split at h
    · exact (Prod.mk.inj (Except.ok.inj h)).1.symm
    · cases h

end Directive

/-- The rules that a change brings. -/
def RuleChange.rules : RuleChange → List ReplacementRule
  | .only rules | .also rules => rules
  | .dropLast | .off => []

lemma Directive.ruleChange_made {pos stop : Nat} {s : List Char} {effect : RuleChange}
    (h : ruleChange pos s = .ok (effect, stop)) : ∀ rule ∈ effect.rules, rule.Made := by
  unfold ruleChange at h
  split at h
  · cases h
  split at h
  · obtain ⟨⟨found, last⟩, hrules, heq⟩ := map_ok_eq_ok h
    rw [← (Prod.mk.inj heq).1]
    exact rules_made hrules
  split at h
  · rw [closing_eq h]
    simp [RuleChange.rules]
  split at h
  · split at h
    · cases h
    split at h
    · rw [closing_eq h]
      simp [RuleChange.rules]
    · cases h
  · obtain ⟨⟨found, last⟩, hrules, heq⟩ := map_ok_eq_ok h
    rw [← (Prod.mk.inj heq).1]
    exact rules_made hrules

/-- A change leaves rules in force that were there or that it brings. -/
lemma RuleChange.mem_apply {levels : List (List ReplacementRule)} {effect : RuleChange}
    {rule : ReplacementRule} (h : rule ∈ (effect.apply levels).flatten) :
    rule ∈ levels.flatten ∨ rule ∈ effect.rules := by
  cases effect with
  | only rules =>
    right
    simpa [apply, RuleChange.rules] using h
  | also rules => simpa [apply, RuleChange.rules] using h
  | dropLast =>
    left
    obtain ⟨level, hlevel, hrule⟩ := List.mem_flatten.mp h
    exact List.mem_flatten.mpr ⟨level, List.dropLast_subset _ hlevel, hrule⟩
  | off => simp [apply] at h

/-- The rules that an item holds. -/
def Item.rules : Item → List ReplacementRule
  | .copy _ clause _ => clause.rules
  | .change effect => effect.rules
  | .kept _ _ | .malformed _ _ => []

/-- All rules of a document look for the words of their patterns. -/
lemma Item.made_of_mem {d : Dialect} {options : Bool} {text : List Char} {item : Item}
    (h : item ∈ Item.ofText d options text) : ∀ rule ∈ item.rules, rule.Made := by
  rw [Passage.items_eq] at h
  obtain ⟨passage, hpassage, hitem⟩ := List.mem_filterMap.mp h
  have hreads := Item.reads_stepsFrom d text options (Nat.zero_le _)
  have hread := Passage.readAs_ofSteps hreads passage hpassage
  cases passage with
  | kept start stop =>
    obtain rfl := Option.some.inj hitem
    simp [Item.rules]
  | removed keyword stop => cases hitem
  | copy keyword clause stop =>
    obtain rfl := Option.some.inj hitem
    exact Directive.copyClause_made hread.2.2.2.1
  | change keyword effect stop =>
    obtain rfl := Option.some.inj hitem
    exact Directive.ruleChange_made hread.2.2.2.1
  | malformed keyword defect =>
    obtain rfl := Option.some.inj hitem
    simp [Item.rules]

end CobolText
