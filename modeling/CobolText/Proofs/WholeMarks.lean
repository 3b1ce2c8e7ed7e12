import CobolText.Proofs.CharacterSources
import CobolText.Proofs.WordPatterns

/-!
# Marks that stay whole

A text is composed if it is made up of characters with an origin, of spaces and line feeds, and of
whole comment marks without an origin.  However such a text is split, it is composed on both sides
unless the split goes through a mark.  Rules never split a mark, since every mark lies in one
comment or literal, and never match from an unmapped character on, since no match starts with white
space.  So a composed text is composed after replacement, and all that is written in it has an
origin.
-/

namespace CobolText

/-- The marks that are put in front of comments and comment entries. -/
def commentMarks : List (List Char) :=
  [Text.commentMark, LogicalLine.entryMark]

lemma commentMark_prefix_of_mem {mark : List Char} (h : mark ∈ commentMarks) :
    Text.commentMark <+: mark := by
  revert mark
  decide

lemma star_of_mem {mark : List Char} (h : mark ∈ commentMarks) : ∃ rest, mark = '*' :: rest := by
  obtain ⟨rest, rfl⟩ := commentMark_prefix_of_mem h
  exact ⟨_, rfl⟩

/-- A mark holds no quote and no line feed. -/
lemma mark_char {mark : List Char} (h : mark ∈ commentMarks) :
    ∀ c ∈ mark, c ≠ '\n' ∧ Text.isQuote c = false := by
  simp only [commentMarks, List.mem_cons, List.not_mem_nil, or_false] at h
  rcases h with rfl | rfl <;> simp [Text.commentMark, LogicalLine.entryMark, Text.isQuote]

namespace Lexer

lemma literalRest_cons {q c : Char} (hnewline : c ≠ '\n') (hquote : c ≠ q) (cs : List Char) :
    literalRest q (c :: cs) = 1 + literalRest q cs := by
  conv_lhs => unfold literalRest
  rw [if_neg (by simpa using hquote), if_neg (by simpa using hnewline)]

lemma length_le_literalRest {q : Char} {mark cs : List Char}
    (hmark : ∀ c ∈ mark, c ≠ '\n' ∧ c ≠ q) (h : mark <+: cs) : mark.length ≤ literalRest q cs := by
  induction mark generalizing cs with
  | nil => exact Nat.zero_le _
  | cons c mark ih =>
    obtain ⟨rest, rfl⟩ := h
    rw [List.forall_mem_cons] at hmark
    have hrest := ih hmark.2 (List.prefix_append mark rest)
    rw [List.cons_append, literalRest_cons hmark.1.1 hmark.1.2, List.length_cons]
    omega

/-- A literal that reaches a mark goes on behind it. -/
lemma le_literalRest {q : Char} {mark cs : List Char} (hne : mark ≠ [])
    (hmark : ∀ c ∈ mark, c ≠ '\n' ∧ c ≠ q) {k : Nat} (h : mark <+: cs.drop k)
    (hk : k < literalRest q cs) : k + mark.length ≤ literalRest q cs := by
  -- The mark does not start with the quote.
  have hhead : ∀ ds : List Char, ¬mark <+: q :: ds := by
    rintro ds ⟨rest, hrest⟩
    obtain ⟨c, front, rfl⟩ := List.exists_cons_of_ne_nil hne
    exact (hmark c List.mem_cons_self).2 (List.cons.inj hrest).1
  fun_induction literalRest q cs generalizing k with
  | case1 => omega
  | case2 c hc =>
    obtain rfl : c = q := by simpa using hc
    obtain rfl : k = 0 := by omega
    exact absurd h (hhead [])
  | case3 c hc d ds hd ih =>
    obtain rfl : c = q := by simpa using hc
    obtain rfl : d = c := by simpa using hd
    obtain _ | _ | k := k
    · exact absurd h (hhead _)
    · exact absurd h (hhead _)
    · have hlater := ih h (by omega)
      omega
  | case4 c hc d ds hd =>
    obtain rfl : c = q := by simpa using hc
    obtain rfl : k = 0 := by omega
    exact absurd h (hhead _)
  | case5 => omega
  | case6 c ds hc hnewline ih =>
    cases k with
    | zero =>
      rw [List.drop_zero] at h
      have hlength := length_le_literalRest hmark h
      rw [literalRest_cons (by simpa using hnewline) (by simpa using hc)] at hlength
      omega
    | succ k =>
      have hlater := ih h (by omega)
      omega

/-- What runs through characters of one kind and reaches a mark goes on behind it. -/
lemma le_length_takeWhile {p : Char → Bool} {mark cs : List Char} (hmark : ∀ c ∈ mark, p c = true)
    {k : Nat} (h : mark <+: cs.drop k) (hk : k ≤ (cs.takeWhile p).length) :
    k + mark.length ≤ (cs.takeWhile p).length := by
  obtain ⟨rest, hrest⟩ := h
  have hlength : (cs.take k).length = k :=
    List.length_take_of_le (Nat.le_trans hk (List.takeWhile_prefix p).length_le)
  have hbefore : ∀ c ∈ cs.take k, p c = true := by
    intro c hc
    have hinit := List.prefix_of_prefix_length_le (List.take_prefix k cs)
      (List.takeWhile_prefix p) (by rw [hlength]; exact hk)
    exact List.mem_takeWhile_imp (hinit.subset hc)
  have hsplit : cs = cs.take k ++ (mark ++ rest) := by
    rw [hrest, List.take_append_drop]
  rw [hsplit, List.takeWhile_append_of_pos hbefore, List.takeWhile_append_of_pos hmark,
    List.length_append, List.length_append, hlength]
  omega

/-- A literal that reaches a mark takes in all of it, and does not start with it. -/
lemma literal?_mark {c : Char} {cs mark : List Char} (hmark : mark ∈ commentMarks) {n k : Nat}
    (h : literal? c cs = some n) (hk : k < n) (hat : mark <+: cs.drop k) :
    k + mark.length ≤ n := by
  obtain ⟨tail, htail⟩ := star_of_mem hmark
  have hne : mark ≠ [] := by simp [htail]
  have hchars : ∀ {q}, Text.isQuote q = true → ∀ d ∈ mark, d ≠ '\n' ∧ d ≠ q := by
    intro q hq d hd
    refine ⟨(mark_char hmark d hd).1, ?_⟩
    rintro rfl
    simp [(mark_char hmark d hd).2] at hq
  unfold literal? at h
  split at h
  · rename_i hquote
    obtain rfl := Option.some.inj h
    exact le_literalRest hne (hchars hquote) hat hk
  split at h
  · split at h
    · rename_i q rest
      split at h
      · rename_i hquote
        obtain rfl := Option.some.inj h
        match k with
        | 0 =>
          -- The quote behind the letter starts no mark.
          obtain ⟨after, hafter⟩ := hat
          rw [htail, List.drop_zero] at hafter
          exact absurd (List.cons.inj hafter).1 (hchars hquote '*' (by simp [htail])).2
        | k + 1 =>
          rw [List.drop_succ_cons] at hat
          have hlater := le_literalRest hne (hchars hquote) hat (by omega)
          omega
      · cases h
    · cases h
  · cases h

/-- A plain token that reaches a mark is a comment or a literal and takes in all of it. -/
lemma measure_mark {c : Char} {cs mark : List Char} (hmark : mark ∈ commentMarks) {k : Nat}
    (h : mark <+: (c :: cs).drop k) (hk : k ≤ (measure false c cs).2) :
    ((measure false c cs).1 = .comment ∨ (measure false c cs).1 = .literal) ∧
      k + mark.length ≤ (measure false c cs).2 + 1 ∧
      (k = 0 → (measure false c cs).1 = .comment) := by
  have hline : ∀ d ∈ mark, (d != '\n') = true := fun d hd => by simp [(mark_char hmark d hd).1]
  obtain ⟨tail, htail⟩ := star_of_mem hmark
  by_cases hcomment : Text.commentMark <+: c :: cs
  · have hmeasure : measure false c cs = (.comment, (cs.takeWhile (· != '\n')).length) := by
      simp [measure, comment?, List.isPrefixOf_iff_prefix.mpr hcomment]
    rw [hmeasure] at hk ⊢
    refine ⟨.inl rfl, ?_, fun _ => rfl⟩
    cases k with
    | zero =>
      rw [List.drop_zero, htail] at h
      have htaken := le_length_takeWhile (fun d hd => hline d (by simp [htail, hd]))
        (k := 0) (List.cons_prefix_cons.mp h).2 (Nat.zero_le _)
      rw [htail, List.length_cons]
      omega
    | succ k =>
      rw [List.drop_succ_cons] at h
      have htaken := le_length_takeWhile hline h (by omega)
      omega
  -- Otherwise the token starts before the mark.
  cases k with
  | zero => exact absurd ((commentMark_prefix_of_mem hmark).trans h) hcomment
  | succ k =>
    rw [List.drop_succ_cons] at h
    have hstar : ∀ {n}, k < n → '*' ∈ cs.take n := by
      intro n hn
      apply List.mem_of_getElem? (i := k)
      obtain ⟨rest, hrest⟩ := h
      rw [List.getElem?_take_of_lt hn, ← List.head?_drop, ← hrest, htail]
      rfl
    have hnone : comment? c cs = none := by
      rw [comment?, if_neg]
      rwa [List.isPrefixOf_iff_prefix]
    cases hliteral : literal? c cs with
    | some n =>
      have hmeasure : measure false c cs = (.literal, n) := by simp [measure, hnone, hliteral]
      rw [hmeasure] at hk ⊢
      have htaken := literal?_mark hmark hliteral hk h
      exact ⟨.inr rfl, by dsimp only; omega, fun hzero => by omega⟩
    | none =>
      exfalso
      rcases length_of_no_literal hnone hliteral with hlength | hlength | hlength
      · rw [hlength] at hk
        exact not_mem_wordRest (by decide) (by decide) cs (hstar hk)
      · rw [hlength] at hk
        have hmem := hstar hk
        rw [← List.prefix_iff_eq_take.mp (List.takeWhile_prefix isSpace)] at hmem
        exact absurd (List.mem_takeWhile_imp hmem) (by decide)
      · omega

end Lexer

namespace Token

/-- Every character of a text lies in one of its tokens. -/
lemma exists_mem_tokens {pseudo : Bool} {text : List Char} {pos p : Nat} (hle : pos ≤ p)
    (hlt : p < text.length) :
    ∃ u ∈ tokens pseudo pos (text.drop pos), u.start ≤ p ∧ p < u.stop ∧
      next? pseudo u.start (text.drop u.start) = some (u, text.drop u.stop) := by
  generalize hs : text.drop pos = s
  fun_induction tokens pseudo pos s with
  | case1 pos s hnext =>
    have hne : s ≠ [] := by
      rw [← hs, Ne, List.drop_eq_nil_iff]
      omega
    obtain ⟨t, rest, h⟩ := next?_isSome pseudo pos hne
    simp [h] at hnext
  | case2 pos s u rest hnext ih =>
    rw [← hs] at hnext
    obtain ⟨-, hstart, hrest⟩ := foundIn_of_next? hnext
    by_cases hstop : p < u.stop
    · rw [hrest] at hnext
      exact ⟨u, List.mem_cons_self, by omega, hstop, by rw [hstart]; exact hnext⟩
    · obtain ⟨v, hv, hcovers⟩ := ih (by omega) hrest.symm
      exact ⟨v, List.mem_cons_of_mem u hv, hcovers⟩

/-- A mark lies in one comment or literal, and what starts with it is a comment. -/
lemma exists_token_of_mark {text mark : List Char} (hmark : mark ∈ commentMarks) {a : Nat}
    (h : mark <+: text.drop a) :
    ∃ u ∈ tokens false 0 text, (u.kind = .comment ∨ u.kind = .literal) ∧ u.start ≤ a ∧
      a + mark.length ≤ u.stop ∧ (u.start = a → u.kind = .comment) := by
  obtain ⟨tail, htail⟩ := star_of_mem hmark
  have hlt : a < text.length := by
    have hlength := h.length_le
    rw [htail, List.length_cons, List.length_drop] at hlength
    omega
  obtain ⟨u, hu, hstart, hstop, hnext⟩ := @exists_mem_tokens false text 0 a (Nat.zero_le a) hlt
  refine ⟨u, hu, ?_⟩
  have hmarked : mark <+: (text.drop u.start).drop (a - u.start) := by
    rwa [List.drop_drop, Nat.add_sub_cancel' hstart]
  cases hs : text.drop u.start with
  | nil => simp [hs, next?] at hnext
  | cons c cs =>
    rw [hs] at hnext hmarked
    simp only [next?, Option.some.injEq, Prod.mk.injEq] at hnext
    obtain ⟨hu, -⟩ := hnext
    have hkind : u.kind = (Lexer.measure false c cs).1 := by rw [← hu]
    have hlength : u.text.length = min (Lexer.measure false c cs).2 cs.length + 1 := by
      rw [← hu, List.length_cons, List.length_take]
    rw [Token.stop, hlength] at hstop ⊢
    obtain ⟨hkinds, hwhole, hfirst⟩ := Lexer.measure_mark hmark hmarked (by omega)
    have hin := hmarked.length_le
    rw [List.length_drop, List.length_cons] at hin
    rw [hkind]
    exact ⟨hkinds, hstart, by omega, fun heq => hfirst (by omega)⟩

end Token

/-- What may be exchanged lies before a mark or behind it, or it starts before the mark and takes
in all of it. -/
lemma Edit.Admissible.mark {t : TracedText} {start stop : Nat} (h : Admissible t start stop)
    {mark : List Char} (hmark : mark ∈ commentMarks) {a : Nat} (hat : mark <+: t.text.drop a) :
    stop ≤ a ∨ a + mark.length ≤ start ∨ (start < a ∧ a + mark.length ≤ stop) := by
  obtain ⟨u, hu, hkind, hstart, hstop, hfirst⟩ := Token.exists_token_of_mark hmark hat
  rcases hkind with hkind | hkind
  · rcases h.comments u hu hkind with hbefore | hafter
    · omega
    · omega
  · have hne : u.start ≠ a := by
      intro heq
      simp [hfirst heq] at hkind
    rcases h.literals u hu hkind with hwhole | hbefore | hafter
    · omega
    · omega
    · omega

/-- Whether a text is composed of characters with an origin, of spaces and line feeds, and of whole
marks; `M` tells what is known of the sources of a mark. -/
inductive Composed {α : Type} (M : List Char → List (Option α) → Prop) :
    List (Option α) → List TracedChar → Prop
  | nil : Composed M [] []
  | char {a : Option α} {x : TracedChar} {as : List (Option α)} {xs : List TracedChar}
      (plain : x.2.isSome = true ∨ x.1 = ' ' ∨ x.1 = '\n') (rest : Composed M as xs) :
      Composed M (a :: as) (x :: xs)
  | mark {mark : List Char} {bs as : List (Option α)} {xs : List TracedChar}
      (isMark : mark ∈ commentMarks) (sources : M mark bs) (length_eq : bs.length = mark.length)
      (rest : Composed M as xs) : Composed M (bs ++ as) (mark.map (fun c => (c, none)) ++ xs)

/-- Whether a mark without an origin starts at an offset. -/
def MarkedAt (xs : List TracedChar) (mark : List Char) (a : Nat) : Prop :=
  mark.map (fun c => (c, none)) <+: xs.drop a

/-- Whether an offset lies inside of a mark without an origin. -/
def InsideMark (xs : List TracedChar) (n : Nat) : Prop :=
  ∃ mark ∈ commentMarks, ∃ a, MarkedAt xs mark a ∧ a < n ∧ n < a + mark.length

lemma MarkedAt.getElem? {xs : List TracedChar} {mark : List Char} {a : Nat}
    (h : MarkedAt xs mark a) {j : Nat} {c : Char} (hc : mark[j]? = some c) :
    xs[a + j]? = some (c, none) := by
  have hj : (mark.map fun c => ((c, none) : TracedChar))[j]? = some (c, none) := by
    rw [List.getElem?_map, hc]
    rfl
  obtain ⟨rest, hrest⟩ := h
  have hlt := (List.getElem?_eq_some_iff.mp hj).1
  rw [← List.getElem?_drop, ← hrest, List.getElem?_append_left hlt]
  exact hj

lemma MarkedAt.text {xs : List TracedChar} {mark : List Char} {a : Nat}
    (h : MarkedAt xs mark a) : mark <+: (xs.map (·.1)).drop a := by
  obtain ⟨rest, hrest⟩ := h
  refine ⟨rest.map (·.1), ?_⟩
  rw [← List.map_drop, ← hrest, List.map_append, List.map_map]
  simp [Function.comp_def]

lemma MarkedAt.of_take {xs : List TracedChar} {mark : List Char} {a n : Nat}
    (h : MarkedAt (xs.take n) mark a) : MarkedAt xs mark a := by
  apply List.IsPrefix.trans h
  rw [List.drop_take]
  exact List.take_prefix _ _

lemma InsideMark.of_take {xs : List TracedChar} {n stop : Nat} (h : InsideMark (xs.take stop) n) :
    InsideMark xs n := by
  obtain ⟨mark, hmark, a, hat, hinside⟩ := h
  exact ⟨mark, hmark, a, hat.of_take, hinside⟩

/-- Before its last character a mark holds no blank and no period. -/
lemma mark_dropLast {mark : List Char} (h : mark ∈ commentMarks) :
    ∀ c ∈ mark.dropLast, Text.isBlank c = false ∧ c ≠ '.' := by
  simp only [commentMarks, List.mem_cons, List.not_mem_nil, or_false] at h
  rcases h with rfl | rfl <;> simp [Text.commentMark, LogicalLine.entryMark, Text.isBlank]

/-- Around an offset inside of a mark stand characters that have no origin. -/
lemma InsideMark.neighbours {xs : List TracedChar} {n : Nat} (h : InsideMark xs n) :
    ∃ c d, xs[n - 1]? = some (c, none) ∧ xs[n]? = some (d, none) ∧ Text.isBlank c = false ∧
      c ≠ '.' ∧ d ≠ '\n' := by
  obtain ⟨mark, hmark, a, hat, hlt, hlt'⟩ := h
  have hb : n - 1 - a < mark.length := by omega
  have ha : n - a < mark.length := by omega
  have hbefore := hat.getElem? (List.getElem?_eq_getElem hb)
  have hafter := hat.getElem? (List.getElem?_eq_getElem ha)
  rw [show a + (n - 1 - a) = n - 1 by omega] at hbefore
  rw [show a + (n - a) = n by omega] at hafter
  have hinit : mark[n - 1 - a] ∈ mark.dropLast := by
    rw [List.dropLast_eq_take]
    apply List.mem_of_getElem? (i := n - 1 - a)
    rw [List.getElem?_take_of_lt (by omega), List.getElem?_eq_getElem hb]
  obtain ⟨hblank, hperiod⟩ := mark_dropLast hmark _ hinit
  exact ⟨_, _, hbefore, hafter, hblank, hperiod, (mark_char hmark _ (List.getElem_mem ha)).1⟩

namespace Composed

variable {α : Type} {M M' : List Char → List (Option α) → Prop} {as bs : List (Option α)}
  {xs ys : List TracedChar}

lemma length_eq (h : Composed M as xs) : as.length = xs.length := by
  induction h with
  | nil => rfl
  | char plain rest ih => simp [ih]
  | mark isMark sources hlength rest ih => simp [hlength, ih]

lemma append (h : Composed M as xs) (h' : Composed M bs ys) :
    Composed M (as ++ bs) (xs ++ ys) := by
  induction h with
  | nil => exact h'
  | char plain rest ih => exact .char plain ih
  | mark isMark sources hlength rest ih =>
    rw [List.append_assoc, List.append_assoc]
    exact .mark isMark sources hlength ih

lemma of_plain (hlength : as.length = xs.length)
    (h : ∀ x ∈ xs, x.2.isSome = true ∨ x.1 = ' ' ∨ x.1 = '\n') : Composed M as xs := by
  induction xs generalizing as with
  | nil =>
    rw [List.length_eq_zero_iff.mp hlength]
    exact .nil
  | cons x xs ih =>
    obtain ⟨a, as, rfl⟩ := List.exists_cons_of_length_eq_add_one hlength
    rw [List.forall_mem_cons] at h
    exact .char h.1 (ih (Nat.succ.inj hlength) h.2)

lemma imp (h : Composed M as xs) (hM : ∀ mark bs, M mark bs → M' mark bs) : Composed M' as xs := by
  induction h with
  | nil => exact .nil
  | char plain rest ih => exact .char plain ih
  | mark isMark sources hlength rest ih => exact .mark isMark (hM _ _ sources) hlength ih

/-- Seen through copybooks, a composed text is composed. -/
lemma within (h : Composed M as xs) (inclusions : List String) :
    Composed M as (xs.map (TracedChar.within inclusions)) := by
  induction h with
  | nil => exact .nil
  | char plain rest ih =>
    rw [List.map_cons]
    refine .char ?_ ih
    simpa [TracedChar.within] using plain
  | mark isMark sources hlength rest ih =>
    rw [List.map_append, List.map_map]
    exact .mark isMark sources hlength ih

/-- A composed text can be split everywhere but inside of a mark. -/
lemma split (h : Composed M as xs) (n : Nat) :
    (Composed M (as.take n) (xs.take n) ∧ Composed M (as.drop n) (xs.drop n)) ∨
      InsideMark xs n := by
  induction h generalizing n with
  | nil =>
    left
    rw [List.take_nil, List.take_nil, List.drop_nil, List.drop_nil]
    exact ⟨.nil, .nil⟩
  | @char a x as xs plain rest ih =>
    cases n with
    | zero => exact .inl ⟨.nil, .char plain rest⟩
    | succ n =>
      rcases ih n with ⟨htake, hdrop⟩ | ⟨mark, hmark, a, hat, hinside⟩
      · exact .inl ⟨.char plain htake, hdrop⟩
      · exact .inr ⟨mark, hmark, a + 1, hat, by omega, by omega⟩
  | @mark mark bs as xs isMark sources hlength rest ih =>
    by_cases hle : mark.length ≤ n
    · obtain ⟨m, rfl⟩ := Nat.exists_eq_add_of_le hle
      have hmap : (mark.map fun c => ((c, none) : TracedChar)).length = mark.length :=
        List.length_map _
      rcases ih m with ⟨htake, hdrop⟩ | ⟨mark', hmark', a, hat, hinside⟩
      · left
        rw [← hlength, List.take_length_add_append, List.drop_length_add_append, hlength, ← hmap,
          List.take_length_add_append, List.drop_length_add_append]
        exact ⟨.mark isMark sources hlength htake, hdrop⟩
      · refine .inr ⟨mark', hmark', mark.length + a, ?_, by omega, by omega⟩
        rw [MarkedAt, ← hmap, List.drop_length_add_append]
        exact hat
    · cases n with
      | zero => exact .inl ⟨.nil, .mark isMark sources hlength rest⟩
      | succ n =>
        right
        exact ⟨mark, isMark, 0, List.prefix_append _ _, by omega, by omega⟩

lemma take (h : Composed M as xs) {n : Nat} (hn : ¬InsideMark xs n) :
    Composed M (as.take n) (xs.take n) :=
  ((h.split n).resolve_right hn).1

lemma drop (h : Composed M as xs) {n : Nat} (hn : ¬InsideMark xs n) :
    Composed M (as.drop n) (xs.drop n) :=
  ((h.split n).resolve_right hn).2

lemma slice (h : Composed M as xs) {start stop : Nat} (hstart : ¬InsideMark xs start)
    (hstop : ¬InsideMark xs stop) :
    Composed M ((as.take stop).drop start) ((xs.take stop).drop start) :=
  (h.take hstop).drop (mt InsideMark.of_take hstart)

/-- What a character without an origin is: a space, a line feed, or part of a whole mark. -/
lemma cases_at (h : Composed M as xs) {i : Nat} {x : TracedChar} (hx : xs[i]? = some x) :
    x.2.isSome = true ∨ x.1 = ' ' ∨ x.1 = '\n' ∨ ∃ mark ∈ commentMarks, ∃ a, MarkedAt xs mark a ∧
      a ≤ i ∧ i < a + mark.length ∧ M mark ((as.drop a).take mark.length) := by
  induction h generalizing i with
  | nil => simp at hx
  | @char b y as xs plain rest ih =>
    cases i with
    | zero =>
      obtain rfl := Option.some.inj hx
      rcases plain with hsome | hspace | hnewline
      · exact .inl hsome
      · exact .inr (.inl hspace)
      · exact .inr (.inr (.inl hnewline))
    | succ i =>
      rw [List.getElem?_cons_succ] at hx
      rcases ih hx with hsome | hspace | hnewline | ⟨mark, hmark, a, hat, hle, hlt, hsources⟩
      · exact .inl hsome
      · exact .inr (.inl hspace)
      · exact .inr (.inr (.inl hnewline))
      · exact .inr (.inr (.inr ⟨mark, hmark, a + 1, hat, by omega, by omega, hsources⟩))
  | @mark mark bs as xs isMark sources hlength rest ih =>
    have hmap : (mark.map fun c => ((c, none) : TracedChar)).length = mark.length :=
      List.length_map _
    by_cases hlt : i < mark.length
    · refine .inr (.inr (.inr ⟨mark, isMark, 0, List.prefix_append _ _, by omega, by omega, ?_⟩))
      rw [List.drop_zero, List.take_left' hlength]
      exact sources
    · rw [List.getElem?_append_right (by omega), hmap] at hx
      rcases ih hx with hsome | hspace | hnewline | ⟨mark', hmark', a, hat, hle, hlt', hsources⟩
      · exact .inl hsome
      · exact .inr (.inl hspace)
      · exact .inr (.inr (.inl hnewline))
      · refine .inr (.inr (.inr ⟨mark', hmark', mark.length + a, ?_, by omega, by omega, ?_⟩))
        · rw [MarkedAt, ← hmap, List.drop_length_add_append]
          exact hat
        · rw [← hlength, List.drop_length_add_append]
          exact hsources

end Composed

namespace Edit

variable {α : Type} {M : List Char → List (Option α) → Prop} {as : List (Option α)}
  {t : TracedText} {rules : List ReplacementRule}

/-- What may be exchanged starts and ends outside of marks. -/
lemma Admissible.not_insideMark {start stop : Nat} (h : Admissible t start stop)
    (hle : start ≤ stop) : ¬InsideMark t.trace start ∧ ¬InsideMark t.trace stop := by
  have hmark : ∀ {mark}, mark ∈ commentMarks → ∀ {a}, MarkedAt t.trace mark a →
      stop ≤ a ∨ a + mark.length ≤ start ∨ (start < a ∧ a + mark.length ≤ stop) := by
    intro mark hmark a hat
    apply h.mark hmark
    rw [← t.map_fst_trace]
    exact hat.text
  constructor
  · rintro ⟨mark, hmem, a, hat, hlt, hlt'⟩
    have hclear := hmark hmem hat
    omega
  · rintro ⟨mark, hmem, a, hat, hlt, hlt'⟩
    have hclear := hmark hmem hat
    omega

/-- In a composed text a rule only ever matches from a character with an origin on. -/
lemma IsFirst.isSome_originAt? {e : Edit} (h : IsFirst t rules e)
    (hrules : ∀ rule ∈ rules, rule.Made)
    (ht : Composed M as t.trace) : (t.map.originAt? e.start).isSome = true := by
  obtain ⟨earlier, later, heq, ⟨hlt, hmatch, hadmissible⟩, -⟩ := h
  have hspace := (hrules e.rule (by simp [heq])).not_isSpace hmatch
  have hstart : e.start < t.text.length := by
    have hle := WordPattern.matchLength?_le hmatch
    rw [List.length_drop] at hle
    omega
  have hchar := List.getElem?_eq_getElem hstart
  have htrace := t.getElem?_trace e.start
  rw [hchar, Option.map_some] at htrace
  rw [List.head?_drop, hchar] at hspace
  have hsolid := hspace _ rfl
  rcases ht.cases_at htrace with hsome | hblank | hblank | ⟨mark, hmark, a, hat, hle, hin, -⟩
  · exact hsome
  · simp [show t.text[e.start] = ' ' from hblank, Lexer.isSpace] at hsolid
  · simp [show t.text[e.start] = '\n' from hblank, Lexer.isSpace] at hsolid
  · have hclear := hadmissible.mark hmark (t.map_fst_trace ▸ hat.text)
    omega

end Edit

namespace Composed

variable {α : Type} {M : List Char → List (Option α) → Prop} {as : List (Option α)}
  {t : TracedText} {rules : List ReplacementRule}

/-- A composed text is composed after edits that start at characters with an origin and end outside
of marks. -/
lemma rewritten (h : Composed M as t.trace) {pos : Nat} {es : List Edit}
    (hpos : ¬InsideMark t.trace pos)
    (hes : ∀ e ∈ es, (t.map.originAt? e.start).isSome = true ∧ ¬InsideMark t.trace e.start ∧
      ¬InsideMark t.trace e.stop) :
    Composed M (Edit.sources as pos es) (Edit.rewritten t pos es) := by
  induction es generalizing pos with
  | nil => exact h.drop hpos
  | cons e es ih =>
    rw [List.forall_mem_cons] at hes
    obtain ⟨⟨horigin, hstart, hstop⟩, hes⟩ := hes
    have hwritten : Composed M (e.rule.replacement.map fun _ => as[e.start]?.join)
        (e.rule.replacement.map fun c => (c, (t.map.originAt? e.start).map Origin.replaced)) := by
      apply of_plain
      · rw [List.length_map, List.length_map]
      · intro x hx
        obtain ⟨c, -, rfl⟩ := List.mem_map.mp hx
        left
        rw [Option.isSome_map]
        exact horigin
    exact ((h.slice hpos hstart).append hwritten).append (ih hstop hes)

/-- A composed text is composed after replacement. -/
lemma replace (h : Composed M as t.trace) (ht : t.WellFormed)
    (hrules : ∀ rule ∈ rules, rule.Made) :
    Composed M (Edit.sources as 0 (t.edits rules)) (t.replace rules).trace := by
  rw [TracedText.trace_replace ht]
  apply h.rewritten
  · rintro ⟨mark, -, a, -, hlt, -⟩
    omega
  · intro e he
    have hfirst := (TracedText.leftmost_edits ht rules).isFirst e he
    have horigin := hfirst.isSome_originAt? hrules h
    obtain ⟨-, -, -, ⟨hlt, -, hadmissible⟩, -⟩ := hfirst
    exact ⟨horigin, hadmissible.not_insideMark hlt.le⟩

end Composed

end CobolText
