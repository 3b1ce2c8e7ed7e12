import CobolText.LogicalLine.Continuation
import CobolText.Proofs.GuardedComments

/-!
# Literals left open

A continuation line needs to know whether the line before it ends inside a literal, and reads that
off the quotes alone, one character after the other.  The main result is that this agrees with the
tokens of the line: a quote is open at its end exactly if the last token is a literal that it opens
and that holds an odd number of it.  The reading goes token by token.  A literal that is closed
leaves no quote open, one that is not closed takes all of the line, and other tokens hold no quotes.
-/

namespace CobolText

/-- The text of a literal from its quote on, without the letter that may stand in front. -/
def Token.quotation (t : Token) : List Char :=
  match t.text with
  | [] => []
  | c :: cs => if Lexer.isLiteralLetter c then cs else c :: cs

/-- A literal that `q` opens and does not close. -/
structure Token.LeavesOpen (t : Token) (q : Char) : Prop where
  literal : t.kind = .literal
  opened : t.quotation.head? = some q
  odd : Odd (t.text.count q)

namespace Lexer

/-- A literal after its quote: it is closed and the search goes on behind it, or it takes all of the
line and its quote stays open. -/
lemma openQuoteAfter_literalRest (floating : Bool) {q : Char} (hq : Text.isQuote q = true)
    {cs : List Char} (hline : '\n' ∉ cs) :
    (Odd ((cs.take (literalRest q cs)).count q) ∧
      openQuoteAfter floating (some q) cs =
        openQuoteAfter floating none (cs.drop (literalRest q cs))) ∨
    (Even ((cs.take (literalRest q cs)).count q) ∧ cs.drop (literalRest q cs) = [] ∧
      openQuoteAfter floating (some q) cs = some q) := by
  fun_induction literalRest q cs with
  | case1 => exact .inr ⟨by simp, rfl, rfl⟩
  | case2 c hc =>
    rw [beq_iff_eq] at hc
    exact .inl ⟨by simp [hc], by simp [openQuoteAfter, hc]⟩
  | case3 c hc d ds hd ih =>
    rw [beq_iff_eq] at hc hd
    subst hc hd
    have hscan : openQuoteAfter floating (some d) (d :: d :: ds) =
        openQuoteAfter floating (some d) ds := by
      simp [openQuoteAfter, hq]
    have hcount : ((d :: d :: ds).take (2 + literalRest d ds)).count d =
        (ds.take (literalRest d ds)).count d + 2 := by
      rw [Nat.add_comm]
      simp
    have hdrop : (d :: d :: ds).drop (2 + literalRest d ds) = ds.drop (literalRest d ds) := by
      rw [Nat.add_comm]
      rfl
    rw [hscan, hcount, hdrop]
    rcases ih fun h => hline (by simp [h]) with ⟨hodd, hopen⟩ | ⟨heven, hrest⟩
    · exact .inl ⟨hodd.add_even even_two, hopen⟩
    · exact .inr ⟨heven.add even_two, hrest⟩
  | case4 c hc d ds hd =>
    rw [beq_iff_eq] at hc
    exact .inl ⟨by simp [hc], by simp [openQuoteAfter, hc]⟩
  | case5 c ds hc hnewline =>
    rw [beq_iff_eq] at hnewline
    simp [hnewline] at hline
  | case6 c ds hc hnewline ih =>
    rw [beq_iff_eq] at hc
    have hscan : openQuoteAfter floating (some q) (c :: ds) =
        openQuoteAfter floating (some q) ds := by
      simp [openQuoteAfter, hc]
    have hcount : ((c :: ds).take (1 + literalRest q ds)).count q =
        (ds.take (literalRest q ds)).count q := by
      rw [Nat.add_comm, List.take_succ_cons, List.count_cons_of_ne hc]
    have hdrop : (c :: ds).drop (1 + literalRest q ds) = ds.drop (literalRest q ds) := by
      rw [Nat.add_comm]
      rfl
    rw [hscan, hcount, hdrop]
    exact ih fun h => hline (by simp [h])

lemma openQuoteAfter_cons {c : Char} {cs : List Char} (hquote : Text.isQuote c = false)
    (hmark : ¬Text.commentMark <+: c :: cs) :
    openQuoteAfter true none (c :: cs) = openQuoteAfter true none cs := by
  have hmark' : Text.commentMark.isPrefixOf (c :: cs) = false := by
    rw [Bool.eq_false_iff, ne_eq, List.isPrefixOf_iff_prefix]
    exact hmark
  simp [openQuoteAfter, hquote, hmark']

/-- Characters that are no quotes and start no comment are passed. -/
lemma openQuoteAfter_append {xs : List Char}
    (h : ∀ c ∈ xs, Text.isQuote c = false ∧ c ≠ '*') (rest : List Char) :
    openQuoteAfter true none (xs ++ rest) = openQuoteAfter true none rest := by
  induction xs with
  | nil => rfl
  | cons c xs ih =>
    rw [List.forall_mem_cons] at h
    rw [List.cons_append, openQuoteAfter_cons h.1.1, ih h.2]
    rintro ⟨tail, htail⟩
    exact h.1.2 (List.cons.inj htail).1.symm

lemma literal?_cases {c : Char} {cs : List Char} {n : Nat} (h : literal? c cs = some n) :
    (Text.isQuote c = true ∧ n = literalRest c cs) ∨
    (isLiteralLetter c = true ∧ Text.isQuote c = false ∧
      ∃ q rest, cs = q :: rest ∧ Text.isQuote q = true ∧ n = literalRest q rest + 1) := by
  unfold literal? at h
  by_cases hquote : Text.isQuote c = true
  · rw [if_pos hquote] at h
    exact .inl ⟨hquote, (Option.some.inj h).symm⟩
  · rw [if_neg hquote] at h
    by_cases hletter : isLiteralLetter c = true
    · rw [if_pos hletter] at h
      cases cs with
      | nil => cases h
      | cons q rest =>
        by_cases hq : Text.isQuote q = true
        · simp only [hq, if_true, Option.some.injEq] at h
          exact .inr ⟨hletter, by simpa using hquote, q, rest, rfl, hq, by omega⟩
        · simp [hq] at h
    · rw [if_neg hletter] at h
      cases h

/-- A token that is neither a comment nor a literal has no quotes in it, and no stars behind its
first character. -/
lemma not_isQuote_of_no_literal {c : Char} {cs : List Char} (hcomment : comment? c cs = none)
    (hliteral : literal? c cs = none) :
    Text.isQuote c = false ∧
      ∀ d ∈ cs.take (measure false c cs).2, Text.isQuote d = false ∧ d ≠ '*' := by
  have hquote : ∀ d, Text.isQuote d = true →
      isWordChar d = false ∧ isSpace d = false ∧ d ≠ '.' := by
    intro d hd
    simp only [Text.isQuote, Bool.or_eq_true, beq_iff_eq] at hd
    rcases hd with rfl | rfl <;> decide
  constructor
  · by_contra hc
    have hc' : Text.isQuote c = true := by simpa using hc
    simp [literal?, hc'] at hliteral
  · intro d hd
    rcases length_of_no_literal hcomment hliteral with hlength | hlength | hlength
    · rw [hlength] at hd
      refine ⟨?_, ?_⟩
      · by_contra hquoted
        obtain ⟨hword, -, hperiod⟩ := hquote d (by simpa using hquoted)
        exact not_mem_wordRest hword hperiod cs hd
      · rintro rfl
        exact not_mem_wordRest (by decide) (by decide) cs hd
    · rw [hlength, ← List.prefix_iff_eq_take.mp (List.takeWhile_prefix isSpace)] at hd
      have hspace := List.mem_takeWhile_imp hd
      refine ⟨?_, ?_⟩
      · by_contra hquoted
        rw [(hquote d (by simpa using hquoted)).2.1] at hspace
        cases hspace
      · rintro rfl
        exact absurd hspace (by decide)
    · simp [hlength] at hd

lemma kind_ne_literal {c : Char} {cs : List Char} (hcomment : comment? c cs = none)
    (hliteral : literal? c cs = none) : (measure false c cs).1 ≠ .literal := by
  simp only [measure, Bool.false_eq_true, if_false, hcomment, hliteral]
  cases word? c cs with
  | some n => simp
  | none =>
    cases whitespace? c cs with
    | some n => simp
    | none =>
      cases separator? c cs with
      | some n => simp
      | none => by_cases hperiod : (c == '.') = true <;> simp [hperiod]

end Lexer

namespace Token

lemma LeavesOpen.unique {t : Token} {q q' : Char} (h : t.LeavesOpen q) (h' : t.LeavesOpen q') :
    q = q' :=
  Option.some.inj (h.opened.symm.trans h'.opened)

/-- A literal at the start of a line, whose quote stands behind `front`: it leaves its quote open
and takes all of the line, or it is closed and the search goes on behind it. -/
lemma openQuote_of_literal {t : Token} {front cs : List Char} {q : Char}
    (hkind : t.kind = .literal) (htext : t.text = front ++ q :: cs.take (Lexer.literalRest q cs))
    (hquotation : t.quotation = q :: cs.take (Lexer.literalRest q cs)) (hfront : q ∉ front)
    (hscan : openQuote true (front ++ q :: cs) = openQuoteAfter true (some q) cs)
    (hq : Text.isQuote q = true) (hline : '\n' ∉ cs) :
    (∃ q', t.LeavesOpen q' ∧ cs.drop (Lexer.literalRest q cs) = [] ∧
      openQuote true (front ++ q :: cs) = some q') ∨
    ((∀ q', ¬t.LeavesOpen q') ∧
      openQuote true (front ++ q :: cs) = openQuote true (cs.drop (Lexer.literalRest q cs))) := by
  have hopened : t.quotation.head? = some q := by rw [hquotation, List.head?_cons]
  have hcount : t.text.count q = (cs.take (Lexer.literalRest q cs)).count q + 1 := by
    rw [htext, List.count_append, List.count_eq_zero.mpr hfront, List.count_cons_self, Nat.zero_add]
  rw [hscan]
  rcases Lexer.openQuoteAfter_literalRest true hq hline with ⟨hodd, hopen⟩ | ⟨heven, hdrop, hopen⟩
  · refine .inr ⟨fun q' hq' => ?_, hopen⟩
    have hsame : q' = q := Option.some.inj (hq'.opened.symm.trans hopened)
    have hclosed := hq'.odd
    rw [hsame, hcount] at hclosed
    exact Nat.not_odd_iff_even.mpr hodd.add_one hclosed
  · refine .inl ⟨q, ⟨hkind, hopened, ?_⟩, hdrop, hopen⟩
    rw [hcount]
    exact heven.add_one

/-- One token of a line: it leaves a quote open and is the last one, or the search for an open quote
goes on behind it. -/
lemma openQuote_of_next? {pos : Nat} {s rest : List Char} {t : Token}
    (h : next? false pos s = some (t, rest)) (hline : '\n' ∉ s) :
    (∃ q, t.LeavesOpen q ∧ rest = [] ∧ openQuote true s = some q) ∨
    ((∀ q, ¬t.LeavesOpen q) ∧ openQuote true s = openQuote true rest) := by
  cases s with
  | nil => simp [next?] at h
  | cons c cs =>
    simp only [next?, Option.some.injEq, Prod.mk.injEq] at h
    obtain ⟨rfl, rfl⟩ := h
    rw [List.mem_cons, not_or] at hline
    cases hcomment : Lexer.comment? c cs with
    | some n =>
      -- A comment takes all of the line, and the search ends at its mark.
      have hmark : Text.commentMark.isPrefixOf (c :: cs) = true ∧
          n = (cs.takeWhile (· != '\n')).length := by
        unfold Lexer.comment? at hcomment
        split at hcomment
        · rename_i hopens
          exact ⟨hopens, (Option.some.inj hcomment).symm⟩
        · cases hcomment
      have hall : cs.takeWhile (· != '\n') = cs := by
        rw [List.takeWhile_eq_self_iff]
        intro d hd
        rw [bne_iff_ne]
        rintro rfl
        exact hline.2 hd
      have hmeasure : Lexer.measure false c cs = (.comment, cs.length) := by
        simp [Lexer.measure, hcomment, hmark.2, hall]
      have hquote : Text.isQuote c = false := by
        obtain ⟨tail, htail⟩ := List.isPrefixOf_iff_prefix.mp hmark.1
        rw [← (List.cons.inj htail).1]
        decide
      rw [hmeasure]
      refine .inr ⟨fun q hq => by simpa using hq.literal, ?_⟩
      simp [openQuote, openQuoteAfter, hquote, hmark.1]
    | none =>
      have hmark : ¬Text.commentMark <+: c :: cs := by
        intro hopens
        simp [Lexer.comment?, List.isPrefixOf_iff_prefix.mpr hopens] at hcomment
      cases hliteral : Lexer.literal? c cs with
      | some n =>
        have hmeasure : Lexer.measure false c cs = (.literal, n) := by
          simp [Lexer.measure, hcomment, hliteral]
        rw [hmeasure]
        rcases Lexer.literal?_cases hliteral with
          ⟨hquote, rfl⟩ | ⟨hletter, hquote, q, ds, rfl, hq, rfl⟩
        · have hletter : Lexer.isLiteralLetter c = false := by
            simp only [Text.isQuote, Bool.or_eq_true, beq_iff_eq] at hquote
            rcases hquote with rfl | rfl <;> rfl
          have hscan : openQuote true (c :: cs) = openQuoteAfter true (some c) cs := by
            simp [openQuote, openQuoteAfter, hquote]
          exact @openQuote_of_literal _ [] _ _ rfl rfl (by simp [quotation, hletter])
            List.not_mem_nil hscan hquote hline.2
        · have hscan : openQuote true (c :: q :: ds) = openQuoteAfter true (some q) ds := by
            rw [openQuote, Lexer.openQuoteAfter_cons hquote hmark]
            simp [openQuoteAfter, hq]
          have hfront : q ∉ [c] := by
            rw [List.mem_singleton]
            rintro rfl
            rw [hq] at hquote
            cases hquote
          exact @openQuote_of_literal _ [c] _ _ rfl rfl (by simp [quotation, hletter]) hfront
            hscan hq fun h => hline.2 (List.mem_cons_of_mem q h)
      | none =>
        obtain ⟨hquote, hplain⟩ := Lexer.not_isQuote_of_no_literal hcomment hliteral
        have hkind := Lexer.kind_ne_literal hcomment hliteral
        refine .inr ⟨fun q hq => hkind hq.literal, ?_⟩
        have hskip := Lexer.openQuoteAfter_append hplain (cs.drop (Lexer.measure false c cs).2)
        rw [List.take_append_drop] at hskip
        rw [openQuote, Lexer.openQuoteAfter_cons hquote hmark, hskip]
        rfl

/-- The quote that is open at the end of a line is the one that the last token leaves open, and none
is open if the last token leaves none. -/
theorem openQuote_eq_some_iff {line : List Char} (h : '\n' ∉ line) (q : Char) :
    openQuote true line = some q ↔
      ∃ t, (tokens false 0 line).getLast? = some t ∧ t.LeavesOpen q := by
  generalize 0 = pos
  generalize hpseudo : false = pseudo
  fun_induction tokens pseudo pos line with
  | case1 pos s hnone =>
    have hnil : s = [] := by
      by_contra hne
      obtain ⟨t, rest, hnext⟩ := next?_isSome pseudo pos hne
      rw [hnone] at hnext
      cases hnext
    simp [hnil, openQuote, openQuoteAfter]
  | case2 pos s t rest hnext ih =>
    have hrest : '\n' ∉ rest := by
      intro hmem
      rw [← text_append_of_next? hnext] at h
      exact h (List.mem_append_right _ hmem)
    have hlater := ih hrest
    rw [← hpseudo] at hnext
    rw [List.getLast?_cons]
    rcases openQuote_of_next? hnext h with ⟨q', hopen, rfl, hscan⟩ | ⟨hclosed, hscan⟩
    · have hnil : tokens pseudo t.stop [] = [] := by
        rw [tokens_eq]
        rfl
      rw [hscan, hnil]
      simp only [List.getLast?_nil, Option.getD_none, Option.some.injEq, exists_eq_left']
      constructor
      · rintro rfl
        exact hopen
      · exact hopen.unique
    · rw [hscan, hlater]
      cases (tokens pseudo t.stop rest).getLast? with
      | none => simp [hclosed]
      | some u => simp

/-- An apostrophe that is written twice and a quotation mark inside a literal close nothing. -/
theorem openQuote_eq_some_iff_doubled :
    openQuote true ['A', ' ', 'x', '\'', 'B', '\'', '\'', '*', '>', '\x22'] = some '\'' ∧
    ∃ t, (tokens false 0 ['A', ' ', 'x', '\'', 'B', '\'', '\'', '*', '>', '\x22']).getLast? =
        some t ∧
      t.LeavesOpen '\'' := by
  have hopen : openQuote true ['A', ' ', 'x', '\'', 'B', '\'', '\'', '*', '>', '\x22'] =
      some '\'' := by
    decide
  exact ⟨hopen, (openQuote_eq_some_iff (by decide) '\'').mp hopen⟩

end Token

end CobolText
