import CobolText.Proofs.DocumentScan
import CobolText.Proofs.Trace
import Mathlib

/-!
# Comments behind their marks

A comment on a line is guarded from an offset on if a comment mark stands in front of it, with
nothing but blanks before the mark.  Plain tokens never leave this state: blanks are passed one
token after the other, and the mark takes in the rest of its line as one token.  So as long as a
text is read by plain tokens, no word of a comment is ever looked at.
-/

namespace CobolText

namespace Lexer

lemma isBlank_of_isSpace {c : Char} (h : isSpace c = true) : Text.isBlank c = true := by
  simp only [isSpace, Bool.or_eq_true, beq_iff_eq] at h
  rcases h with (((rfl | rfl) | rfl) | rfl) | rfl <;> rfl

lemma not_isBlank_of_visible {c : Char} (h1 : 0x21 ≤ c.toNat) (h2 : c.toNat < 0x7f) :
    Text.isBlank c = false := by
  simp only [Text.isBlank, Bool.or_eq_false_iff, Bool.and_eq_false_iff, decide_eq_false_iff_not,
    beq_eq_false_iff_ne]
  omega

lemma not_isBlank_of_isWordChar {c : Char} (h : isWordChar c = true) : Text.isBlank c = false := by
  simp only [isWordChar, Char.isAlphanum, Char.isAlpha, Char.isUpper, Char.isLower, Char.isDigit,
    Bool.or_eq_true, Bool.and_eq_true, decide_eq_true_eq, beq_iff_eq, UInt32.le_iff_toNat_le,
    ge_iff_le] at h
  have hval : c.toNat = c.val.toNat := rfl
  have hA : 'A'.val.toNat = 65 ∧ 'Z'.val.toNat = 90 := ⟨rfl, rfl⟩
  have ha : 'a'.val.toNat = 97 ∧ 'z'.val.toNat = 122 := ⟨rfl, rfl⟩
  have h0 : '0'.val.toNat = 48 ∧ '9'.val.toNat = 57 := ⟨rfl, rfl⟩
  rcases h with ((((((h | h) | rfl) | rfl) | rfl) | rfl) | rfl) | rfl
  · exact not_isBlank_of_visible (by omega) (by omega)
  · exact not_isBlank_of_visible (by omega) (by omega)
  all_goals rfl

lemma ne_newline_of_not_isBlank {c : Char} (h : Text.isBlank c = false) : c ≠ '\n' := by
  rintro rfl
  exact absurd h (by decide)

lemma newline_not_mem_literalRest {q : Char} (hq : q ≠ '\n') (cs : List Char) :
    '\n' ∉ cs.take (literalRest q cs) := by
  fun_induction literalRest q cs with
  | case1 => simp
  | case2 c hc =>
    rw [beq_iff_eq] at hc
    simpa [hc] using hq.symm
  | case3 c hc d ds hd ih =>
    rw [beq_iff_eq] at hc hd
    rw [Nat.add_comm, List.take_succ_cons, List.take_succ_cons]
    simp [hc, hd, ih, hq.symm]
  | case4 c hc d ds hd =>
    rw [beq_iff_eq] at hc
    simpa [hc] using hq.symm
  | case5 c ds hc hnewline => simp
  | case6 c ds hc hnewline ih =>
    rw [beq_iff_eq] at hnewline
    rw [Nat.add_comm, List.take_succ_cons]
    simp [ih, Ne.symm hnewline]

/-- A word holds word characters and periods only. -/
lemma not_mem_wordRest {a : Char} (hword : isWordChar a = false) (hperiod : a ≠ '.')
    (cs : List Char) : a ∉ cs.take (wordRest cs) := by
  have hne : ∀ {c : Char}, isWordChar c = true → a ≠ c := by
    rintro c hc rfl
    rw [hword] at hc
    cases hc
  fun_induction wordRest cs with
  | case1 => simp
  | case2 c cs hc ih =>
    rw [Nat.add_comm, List.take_succ_cons]
    simp [ih, hne hc]
  | case3 => simp
  | case4 c hc hdot d ds hd ih =>
    rw [beq_iff_eq] at hdot
    rw [Nat.add_comm, List.take_succ_cons, List.take_succ_cons]
    simp [ih, hdot, hperiod, hne hd]
  | case5 => simp
  | case6 => simp

lemma literal?_eq_some {c : Char} {cs : List Char} {n : Nat} (h : literal? c cs = some n) :
    Text.isBlank c = false ∧ '\n' ∉ cs.take n := by
  have hquote : ∀ {q : Char}, Text.isQuote q = true → Text.isBlank q = false := by
    intro q hq
    simp only [Text.isQuote, Bool.or_eq_true, beq_iff_eq] at hq
    rcases hq with rfl | rfl <;> rfl
  unfold literal? at h
  split at h
  · rename_i hc
    rw [← Option.some.inj h]
    exact ⟨hquote hc, newline_not_mem_literalRest (ne_newline_of_not_isBlank (hquote hc)) cs⟩
  split at h
  · rename_i hletter
    have hc : Text.isBlank c = false := by
      simp only [isLiteralLetter, List.contains_iff_mem, List.mem_cons, List.not_mem_nil,
        or_false] at hletter
      rcases hletter with rfl | rfl | rfl | rfl | rfl | rfl | rfl | rfl <;> rfl
    split at h
    · rename_i q rest
      split at h
      · rename_i hq
        have hne := ne_newline_of_not_isBlank (hquote hq)
        rw [← Option.some.inj h, Nat.add_comm, List.take_succ_cons]
        refine ⟨hc, ?_⟩
        simp [newline_not_mem_literalRest hne, hne.symm]
      · simp at h
    · simp at h
  · simp at h

/-- A token that is neither a comment nor a literal goes on through a word or white space. -/
lemma length_of_no_literal {c : Char} {cs : List Char} (hcomment : comment? c cs = none)
    (hliteral : literal? c cs = none) :
    (measure false c cs).2 = wordRest cs ∨
      (measure false c cs).2 = (cs.takeWhile isSpace).length ∨ (measure false c cs).2 = 0 := by
  simp only [measure, Bool.false_eq_true, if_false, hcomment, hliteral, word?, whitespace?]
  by_cases hword : isWordChar c = true
  · simp [hword]
  by_cases hspace : isSpace c = true
  · simp [hword, hspace]
  · simp only [hword, hspace, separator?]
    right
    right
    by_cases hmark : (c == ',' || c == ';') = true
    · cases cs with
      | nil => simp [hmark]
      | cons d ds => by_cases hd : (d == ' ' || d == '\t' || d == '\r' || d == '\n') = true <;>
          simp [hmark, hd]
    · simp [hmark]

/-- How a plain token is measured: a comment takes the rest of its line, white space all that
follows, a literal or a word stays on its line, and anything else is a single character. -/
lemma measure_cases (c : Char) (cs : List Char) :
    (Text.commentMark <+: c :: cs ∧
      measure false c cs = (.comment, (cs.takeWhile (· != '\n')).length)) ∨
    (isSpace c = true ∧ measure false c cs = (.whitespace, (cs.takeWhile isSpace).length)) ∨
    (¬Text.commentMark <+: c :: cs ∧ Text.isBlank c = false ∧
      '\n' ∉ cs.take (measure false c cs).2) ∨
    (¬Text.commentMark <+: c :: cs ∧ isSpace c = false ∧ (measure false c cs).2 = 0 ∧
      (measure false c cs).1 ≠ .word) := by
  by_cases hmark : Text.commentMark <+: c :: cs
  · refine .inl ⟨hmark, ?_⟩
    simp [measure, comment?, List.isPrefixOf_iff_prefix.mpr hmark]
  have hcomment : comment? c cs = none := by
    rw [comment?, if_neg]
    rw [List.isPrefixOf_iff_prefix]
    exact hmark
  simp only [measure, Bool.false_eq_true, if_false, hcomment]
  split
  · rename_i n hn
    obtain ⟨h1, h2⟩ := literal?_eq_some hn
    exact .inr (.inr (.inl ⟨hmark, h1, h2⟩))
  by_cases hword : isWordChar c = true
  · refine .inr (.inr (.inl ⟨hmark, not_isBlank_of_isWordChar hword, ?_⟩))
    simpa [word?, hword] using not_mem_wordRest (a := '\n') (by decide) (by decide) cs
  by_cases hspace : isSpace c = true
  · exact .inr (.inl ⟨hspace, by simp [word?, hword, whitespace?, hspace]⟩)
  · have hspace' : isSpace c = false := by simpa using hspace
    refine .inr (.inr (.inr ⟨hmark, hspace', ?_⟩))
    simp only [word?, hword, whitespace?, hspace', Bool.false_eq_true, if_false]
    split
    · rename_i n hn
      refine ⟨?_, by simp⟩
      unfold separator? at hn
      split at hn
      · split at hn
        · simpa using hn.symm
        · split at hn <;> simp_all
      · simp at hn
    · split <;> simp

end Lexer

/-- Whether a character belongs to a comment or a comment entry. -/
def TracedChar.isComment (x : TracedChar) : Bool :=
  x.2.any Origin.isComment

/-- The characters up to the end of the line. -/
def lineOf (xs : List TracedChar) : List TracedChar :=
  xs.takeWhile fun x => x.1 != '\n'

/-- Whether what a line still holds of a comment stands behind a comment mark, with nothing but
blanks before the mark. -/
def Guarded (xs : List TracedChar) : Prop :=
  (∃ x ∈ lineOf xs, x.isComment = true) →
    Text.commentMark <+: Text.trimLeft ((lineOf xs).map (·.1))

/-- Whether the comments on all further lines are guarded. -/
def GuardedLines (xs : List TracedChar) : Prop :=
  ∀ x ys, x.1 = '\n' → x :: ys <:+ xs → Guarded ys

lemma GuardedLines.of_suffix {xs ys : List TracedChar} (h : GuardedLines xs) (hsuffix : ys <:+ xs) :
    GuardedLines ys :=
  fun x zs hx hzs => h x zs hx (hzs.trans hsuffix)

lemma map_lineOf (xs : List TracedChar) :
    (lineOf xs).map (·.1) = (xs.map (·.1)).takeWhile (· != '\n') := by
  rw [lineOf, List.takeWhile_map]
  rfl

lemma lineOf_cons {x : TracedChar} (hx : x.1 ≠ '\n') (xs : List TracedChar) :
    lineOf (x :: xs) = x :: lineOf xs := by
  simp [lineOf, hx]

lemma lineOf_append {xs : List TracedChar} (h : ∀ x ∈ xs, x.1 ≠ '\n') (ys : List TracedChar) :
    lineOf (xs ++ ys) = xs ++ lineOf ys := by
  apply List.takeWhile_append_of_pos
  simpa using h

lemma lineOf_drop_lineOf (xs : List TracedChar) : lineOf (xs.drop (lineOf xs).length) = [] := by
  induction xs with
  | nil => rfl
  | cons x xs ih =>
    by_cases hx : x.1 = '\n'
    · simp [lineOf, hx]
    · rw [lineOf_cons hx]
      exact ih

/-- At the end of a line there is nothing to guard. -/
lemma guarded_of_lineOf_eq_nil {xs : List TracedChar} (h : lineOf xs = []) : Guarded xs := by
  rintro ⟨x, hx, -⟩
  simp [h] at hx

/-- A blank can be passed, be it the end of a line or not. -/
lemma Guarded.tail {x : TracedChar} {xs : List TracedChar} (h : Guarded (x :: xs))
    (hlines : GuardedLines (x :: xs)) (hx : Text.isBlank x.1 = true) : Guarded xs := by
  by_cases hnewline : x.1 = '\n'
  · exact hlines x xs hnewline (List.suffix_refl _)
  · rintro ⟨y, hy, hcomment⟩
    rw [Guarded, lineOf_cons hnewline] at h
    have hmark := h ⟨y, List.mem_cons_of_mem x hy, hcomment⟩
    rwa [List.map_cons, Text.trimLeft, List.dropWhile_cons_of_pos hx] at hmark

lemma Guarded.drop_blanks {xs : List TracedChar} (h : Guarded xs) (hlines : GuardedLines xs)
    {n : Nat} (hblank : ∀ x ∈ xs.take n, Text.isBlank x.1 = true) : Guarded (xs.drop n) := by
  induction n generalizing xs with
  | zero => exact h
  | succ n ih =>
    cases xs with
    | nil => exact h
    | cons x xs =>
      rw [List.take_succ_cons, List.forall_mem_cons] at hblank
      exact ih (h.tail hlines hblank.1) (hlines.of_suffix (List.suffix_cons x xs)) hblank.2

/-- If a line starts neither with a blank nor with a mark, nothing on it is a comment. -/
lemma Guarded.not_isComment {x : TracedChar} {xs : List TracedChar} (h : Guarded (x :: xs))
    (hx : Text.isBlank x.1 = false) (hmark : ¬Text.commentMark <+: (x :: xs).map (·.1)) :
    ∀ y ∈ lineOf (x :: xs), y.isComment = false := by
  intro y hy
  by_contra hcomment
  have hinit := h ⟨y, hy, by simpa using hcomment⟩
  have hsolid : Text.trimLeft ((lineOf (x :: xs)).map (·.1)) = (lineOf (x :: xs)).map (·.1) := by
    rw [lineOf_cons (Lexer.ne_newline_of_not_isBlank hx), List.map_cons, Text.trimLeft,
      List.dropWhile_cons_of_neg (by simp [hx])]
  rw [hsolid, map_lineOf] at hinit
  exact hmark (hinit.trans (List.takeWhile_prefix _))

/-- What starts neither with a blank nor with a mark and stays on its line can be passed. -/
lemma Guarded.drop_solid {x : TracedChar} {xs : List TracedChar} (h : Guarded (x :: xs))
    (hx : Text.isBlank x.1 = false) (hmark : ¬Text.commentMark <+: (x :: xs).map (·.1)) {n : Nat}
    (hline : ∀ y ∈ xs.take n, y.1 ≠ '\n') : Guarded (xs.drop n) := by
  rintro ⟨y, hy, hcomment⟩
  have hsplit : lineOf (x :: xs) = x :: (xs.take n ++ lineOf (xs.drop n)) := by
    rw [lineOf_cons (Lexer.ne_newline_of_not_isBlank hx), ← lineOf_append hline,
      List.take_append_drop]
  have := h.not_isComment hx hmark y (by simp [hsplit, hy])
  simp [this] at hcomment

/-- A plain token leaves comments guarded, and a word that is one is not in a comment. -/
lemma Guarded.next {xs : List TracedChar} (h : Guarded xs) (hlines : GuardedLines xs) {pos : Nat}
    {t : Token} {rest : List Char}
    (hnext : Token.next? false pos (xs.map (·.1)) = some (t, rest)) :
    Guarded (xs.drop t.text.length) ∧ (t.kind = .word → ∀ x ∈ xs.head?, x.isComment = false) := by
  cases xs with
  | nil => simp [Token.next?] at hnext
  | cons x xs =>
    simp only [List.map_cons, Token.next?, Option.some.injEq, Prod.mk.injEq] at hnext
    obtain ⟨rfl, -⟩ := hnext
    simp only [List.length_cons, List.drop_succ_cons, List.length_take, List.length_map,
      List.head?_cons, Option.mem_def, Option.some.injEq, forall_eq']
    have hmin : ∀ n, xs.drop (min n xs.length) = xs.drop n := by
      intro n
      by_cases hle : n ≤ xs.length
      · rw [Nat.min_eq_left hle]
      · rw [Nat.min_eq_right (by omega), List.drop_length, List.drop_eq_nil_of_le (by omega)]
    rw [hmin]
    rcases Lexer.measure_cases x.1 (xs.map (·.1)) with ⟨hmark, hm⟩ | ⟨hspace, hm⟩ |
      ⟨hmark, hblank, hline⟩ | ⟨hmark, hspace, hzero, hkind⟩
    · rw [hm]
      refine ⟨guarded_of_lineOf_eq_nil ?_, by simp⟩
      rw [← map_lineOf, List.length_map]
      exact lineOf_drop_lineOf xs
    · rw [hm]
      refine ⟨?_, by simp⟩
      rw [← List.drop_succ_cons (a := x)]
      apply h.drop_blanks hlines
      rw [List.take_succ_cons, List.forall_mem_cons]
      refine ⟨Lexer.isBlank_of_isSpace hspace, fun y hy => Lexer.isBlank_of_isSpace ?_⟩
      have htake := List.prefix_iff_eq_take.mp
        (List.takeWhile_prefix (l := xs.map (·.1)) Lexer.isSpace)
      apply List.mem_takeWhile_imp (l := xs.map (·.1))
      rw [htake, ← List.map_take]
      exact List.mem_map_of_mem hy
    · refine ⟨h.drop_solid hblank hmark ?_, fun _ => h.not_isComment hblank hmark x ?_⟩
      · intro y hy hnewline
        apply hline
        rw [← List.map_take, ← hnewline]
        exact List.mem_map_of_mem hy
      · simp [lineOf_cons (Lexer.ne_newline_of_not_isBlank hblank)]
    · rw [hzero, List.drop_zero]
      refine ⟨?_, fun hword => absurd hword hkind⟩
      by_cases hblank : Text.isBlank x.1 = true
      · exact h.tail hlines hblank
      · exact h.drop_solid (n := 0) (by simpa using hblank) hmark (by simp)

section Scan

variable {xs : List TracedChar} {text : List Char} (htext : xs.map (·.1) = text)
  (hlines : GuardedLines xs)
include htext hlines

lemma guarded_stop_of_next? {pos : Nat} (h : Guarded (xs.drop pos)) {t : Token}
    {rest : List Char} (hnext : Token.next? false pos (text.drop pos) = some (t, rest)) :
    Guarded (xs.drop t.stop) ∧ (t.kind = .word → ∀ x ∈ xs[pos]?, x.isComment = false) := by
  have hstart := (Token.next?_eq_some hnext).1
  rw [← htext, ← List.map_drop] at hnext
  have hnext' := h.next (hlines.of_suffix (List.drop_suffix pos xs)) hnext
  rw [List.drop_drop, List.head?_drop] at hnext'
  rw [Token.stop, hstart]
  exact hnext'

lemma guarded_endOfExec? {pos stop : Nat} (h : Guarded (xs.drop pos))
    (hstop : Item.endOfExec? pos (text.drop pos) = some stop) : Guarded (xs.drop stop) := by
  generalize hs : text.drop pos = s at hstop
  fun_induction Item.endOfExec? pos s with
  | case1 => simp at hstop
  | case2 pos s t rest hnext hword =>
    rw [← hs] at hnext
    rw [← Option.some.inj hstop]
    exact (guarded_stop_of_next? htext hlines h hnext).1
  | case3 pos s t rest hnext hword ih =>
    rw [← hs] at hnext
    exact ih (guarded_stop_of_next? htext hlines h hnext).1
      (Token.foundIn_of_next? hnext).2.2.symm hstop

lemma guarded_nextSignificant? {pos : Nat} (h : Guarded (xs.drop pos)) {t : Token}
    {rest : List Char}
    (hnext : Token.nextSignificant? false pos (text.drop pos) = some (t, rest)) :
    Guarded (xs.drop t.stop) := by
  generalize hs : text.drop pos = s at hnext
  generalize hpseudo : false = pseudo at hnext
  fun_induction Token.nextSignificant? pseudo pos s with
  | case1 => simp at hnext
  | case2 pos s u urest hu hblank ih =>
    rw [← hs, ← hpseudo] at hu
    exact ih (guarded_stop_of_next? htext hlines h hu).1
      (Token.foundIn_of_next? hu).2.2.symm hnext
  | case3 pos s u urest hu hblank =>
    rw [← hs, ← hpseudo] at hu
    simp only [Option.some.injEq, Prod.mk.injEq] at hnext
    rw [← hnext.1]
    exact (guarded_stop_of_next? htext hlines h hu).1

lemma guarded_pastOptional (kind : TokenKind) {pos : Nat} (h : Guarded (xs.drop pos)) :
    Guarded (xs.drop (Item.pastOptional kind pos (text.drop pos))) := by
  unfold Item.pastOptional
  split
  · rename_i t rest hnext
    split
    · exact guarded_nextSignificant? htext hlines h hnext
    · exact h
  · exact h

/-- What is read by plain tokens alone leaves comments guarded: a token that is no keyword, a block
of another language, and a statement that is left out. -/
lemma guarded_stop_of_readToken {d : Dialect} {options : Bool} {t : Token}
    (ht : t.FoundIn text) (h : Guarded (xs.drop t.stop)) {stop : Nat}
    (hread : (Item.readToken d text options t (text.drop t.stop)).stop? = some stop)
    (hplain : (Item.readToken d text options t (text.drop t.stop)).directiveStop? = none) :
    Guarded (xs.drop stop) := by
  rw [Item.readToken_eq] at hread hplain
  split at hread
  · rename_i k hk
    rw [hk] at hplain
    cases k with
    | exec =>
      simp only [Item.readStatement] at hread
      split at hread
      · rename_i last hlast
        rw [← Option.some.inj hread]
        exact guarded_endOfExec? htext hlines h hlast
      · simp [Item.Reading.stop?] at hread
    | copy =>
      simp only [Item.readStatement] at hread hplain
      cases hclause : Directive.copyClause t.stop (text.drop t.stop) with
      | error defect => simp [hclause, Item.Reading.stop?] at hread
      | ok result => simp [hclause, Item.Reading.directiveStop?] at hplain
    | replace =>
      simp only [Item.readStatement] at hread hplain
      cases heffect : Directive.ruleChange t.stop (text.drop t.stop) with
      | error defect => simp [heffect, Item.Reading.stop?] at hread
      | ok result => simp [heffect, Item.Reading.directiveStop?] at hplain
    | listing =>
      rw [← Option.some.inj hread]
      have htitle := Item.pastOptional_bounds .literal ht.bounds.2
      unfold Item.endOfListing
      simp only
      split
      · rw [List.drop_drop, Nat.add_sub_cancel' htitle.1]
        exact guarded_pastOptional htext hlines _ (guarded_pastOptional htext hlines _ h)
      · rw [Nat.sub_self, List.drop_zero]
        exact guarded_pastOptional htext hlines _ h
    | option =>
      -- The statement goes up to the end of its line.
      rw [← Option.some.inj hread]
      apply guarded_of_lineOf_eq_nil
      have hlength : ((text.drop t.stop).takeWhile (· != '\n')).length =
          (lineOf (xs.drop t.stop)).length := by
        rw [← htext, ← List.map_drop, ← map_lineOf, List.length_map]
      rw [hlength, ← List.drop_drop]
      exact lineOf_drop_lineOf _
  · rw [← Option.some.inj hread]
    exact h

end Scan

end CobolText
