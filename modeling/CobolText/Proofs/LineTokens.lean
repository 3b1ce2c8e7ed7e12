import CobolText.Proofs.GuardedComments

/-!
# Plain tokens line by line

Without pseudo-text no token but white space reaches past the end of its line.  So what one line
leaves open, be it a literal or a comment, has no effect on the lines after it: apart from white
space, the tokens of a text that goes on after a line feed are those of the part in front of it and
those of the part behind it, each read by itself.  The main result is that tokens lie end to end
from any offset of a text, and that those without white space are the tokens of its lines.
-/

namespace CobolText

namespace Lexer

lemma takeWhile_append_cons {α : Type} {p : α → Bool} {a : α} (h : p a = false) (xs ys : List α) :
    (xs ++ a :: ys).takeWhile p = xs.takeWhile p := by
  induction xs with
  | nil => simp [h]
  | cons x xs ih => cases hx : p x <;> simp [hx, ih]

lemma isPrefixOf_commentMark_newline (c : Char) (cs rest : List Char) :
    Text.commentMark.isPrefixOf (c :: (cs ++ '\n' :: rest)) =
      Text.commentMark.isPrefixOf (c :: cs) := by
  cases cs with
  | nil => simp [Text.commentMark, List.isPrefixOf]
  | cons d ds => rfl

lemma literalRest_append_newline {q : Char} (hq : q ≠ '\n') (cs rest : List Char) :
    literalRest q (cs ++ '\n' :: rest) = literalRest q cs := by
  fun_induction literalRest q cs with
  | case1 =>
    rw [List.nil_append, literalRest.eq_def]
    simp [hq.symm]
  | case2 c hc => simp [literalRest, hc, hq.symm]
  | case3 c hc d ds hd ih => simp [literalRest, hc, hd, ih]
  | case4 c hc d ds hd => simp [literalRest, hc, hd]
  | case5 c ds hc hnewline =>
    rw [List.cons_append, literalRest.eq_def]
    simp only [hc, hnewline, if_true]
    rfl
  | case6 c ds hc hnewline ih =>
    rw [List.cons_append, literalRest.eq_def]
    simp only [hc, hnewline, ih]
    rfl

lemma wordRest_append_newline (cs rest : List Char) :
    wordRest (cs ++ '\n' :: rest) = wordRest cs := by
  have hnewline : isWordChar '\n' = false := by decide
  fun_induction wordRest cs with
  | case1 =>
    rw [List.nil_append, wordRest.eq_def]
    simp [hnewline]
  | case2 c cs hc ih =>
    rw [List.cons_append, wordRest.eq_def]
    simp [hc, ih]
  | case3 c hc hdot => simp [wordRest, hc, hdot, hnewline]
  | case4 c hc hdot d ds hd ih => simp [wordRest, hc, hdot, hd, ih]
  | case5 c hc hdot d ds hd => simp [wordRest, hc, hdot, hd]
  | case6 c cs hc hdot =>
    rw [List.cons_append, wordRest.eq_def]
    simp [hc, hdot]

lemma literal?_append_newline (c : Char) (cs rest : List Char) :
    literal? c (cs ++ '\n' :: rest) = literal? c cs := by
  have hquote : ∀ {q : Char}, Text.isQuote q = true → q ≠ '\n' := by
    rintro q hq rfl
    exact absurd hq (by decide)
  unfold literal?
  split
  · rename_i hc
    rw [literalRest_append_newline (hquote hc)]
  · split
    · cases cs with
      | nil => simp [Text.isQuote]
      | cons d ds =>
        rw [List.cons_append]
        by_cases hd : Text.isQuote d = true
        · simp only [hd, if_true, literalRest_append_newline (hquote hd)]
        · simp only [hd, Bool.false_eq_true, if_false]
    · rfl

lemma separator?_append_newline (c : Char) (cs rest : List Char) :
    separator? c (cs ++ '\n' :: rest) = separator? c cs := by
  cases cs with
  | nil => simp [separator?]
  | cons d ds => rfl

/-- What follows the line has no part in the measure of a token that is no white space. -/
lemma measure_append_newline {c : Char} (h : isSpace c = false) (cs rest : List Char) :
    measure false c (cs ++ '\n' :: rest) = measure false c cs := by
  have hcomment : comment? c (cs ++ '\n' :: rest) = comment? c cs := by
    rw [comment?, comment?, isPrefixOf_commentMark_newline,
      takeWhile_append_cons (by decide)]
  have hword : word? c (cs ++ '\n' :: rest) = word? c cs := by
    rw [word?, word?, wordRest_append_newline]
  have hspace : ∀ ds, whitespace? c ds = none := by simp [whitespace?, h]
  simp only [measure, Bool.false_eq_true, if_false, hcomment, literal?_append_newline, hword,
    hspace, separator?_append_newline]

/-- A token that is no white space stays in front of the next line feed. -/
lemma measure_le_of_newline {c : Char} (h : isSpace c = false) (cs rest : List Char) :
    (measure false c (cs ++ '\n' :: rest)).2 ≤ cs.length := by
  rcases measure_cases c (cs ++ '\n' :: rest) with ⟨-, hm⟩ | ⟨hspace, -⟩ | ⟨-, -, hline⟩ |
    ⟨-, -, hzero, -⟩
  · rw [hm, takeWhile_append_cons (by decide)]
    exact (List.takeWhile_prefix _).length_le
  · rw [h] at hspace
    cases hspace
  · by_contra hlong
    apply hline
    rw [List.take_append]
    obtain ⟨n, hn⟩ : ∃ n, (measure false c (cs ++ '\n' :: rest)).2 - cs.length = n + 1 :=
      ⟨_, (Nat.succ_pred (by omega)).symm⟩
    rw [hn]
    simp
  · rw [hzero]
    exact Nat.zero_le _

lemma measure_of_isSpace {c : Char} (h : isSpace c = true) (cs : List Char) :
    measure false c cs = (.whitespace, (cs.takeWhile isSpace).length) := by
  have hblank := isBlank_of_isSpace h
  rcases measure_cases c cs with ⟨hmark, -⟩ | ⟨-, hm⟩ | ⟨-, hsolid, -⟩ | ⟨-, hspace, -⟩
  · obtain ⟨rest, hrest⟩ := hmark
    rw [← (List.cons.inj hrest).1] at h
    exact absurd h (by decide)
  · exact hm
  · rw [hblank] at hsolid
    cases hsolid
  · rw [h] at hspace
    cases hspace

/-- A token with a line feed in it would reach past its line, were it not white space. -/
lemma isSpace_of_newline_mem {c : Char} {cs : List Char}
    (h : '\n' ∈ c :: cs.take (measure false c cs).2) : isSpace c = true := by
  by_contra hspace
  have hsolid : isSpace c = false := by simpa using hspace
  rcases List.mem_cons.mp h with rfl | hmem
  · exact absurd hsolid (by decide)
  · obtain ⟨before, after, htake, -⟩ := List.eq_append_cons_of_mem hmem
    have hcs : cs = before ++ '\n' :: (after ++ cs.drop (measure false c cs).2) := by
      conv_lhs => rw [← List.take_append_drop (measure false c cs).2 cs, htake]
      simp
    have hle := measure_le_of_newline hsolid before (after ++ cs.drop (measure false c cs).2)
    rw [← hcs] at hle
    have hlength := congrArg List.length htake
    rw [List.length_take, List.length_append, List.length_cons] at hlength
    omega

end Lexer

namespace Token

/-- The plain tokens of a text that starts at `pos`, without the white space between them. -/
def solid (pos : Nat) (s : List Char) : List Token :=
  (tokens false pos s).filter fun t => t.kind != .whitespace

/-- A character of white space in front changes nothing but where the text starts. -/
lemma solid_cons_of_isSpace {c : Char} (h : Lexer.isSpace c = true) (pos : Nat) (cs : List Char) :
    solid pos (c :: cs) = solid (pos + 1) cs := by
  have hfirst : ∀ d ds, Lexer.isSpace d = true → ∀ p, solid p (d :: ds) =
      solid (p + 1 + (ds.takeWhile Lexer.isSpace).length) (ds.dropWhile Lexer.isSpace) := by
    intro d ds hd p
    have hdrop : ds.drop (ds.takeWhile Lexer.isSpace).length = ds.dropWhile Lexer.isSpace := by
      conv_lhs => rw [← List.takeWhile_append_dropWhile (p := Lexer.isSpace) (l := ds)]
      rw [List.drop_left' (by rw [List.takeWhile_append_dropWhile])]
    have htake : ds.take (ds.takeWhile Lexer.isSpace).length = ds.takeWhile Lexer.isSpace :=
      (List.prefix_iff_eq_take.mp (List.takeWhile_prefix _)).symm
    rw [solid, tokens_eq]
    simp only [next?, Lexer.measure_of_isSpace hd, hdrop, htake, stop, List.length_cons]
    rw [List.filter_cons_of_neg (by simp), solid]
    congr 2
    omega
  rw [hfirst c cs h]
  cases cs with
  | nil => rfl
  | cons d ds =>
    by_cases hd : Lexer.isSpace d = true
    · rw [hfirst d ds hd (pos + 1)]
      simp only [List.takeWhile_cons_of_pos hd, List.dropWhile_cons_of_pos hd, List.length_cons]
      congr 1
      omega
    · simp [hd]

/-- The tokens of a text that goes on after a line feed: those of the text in front of it, and
those of the text behind it. -/
lemma solid_append_newline (pos : Nat) (s rest : List Char) :
    solid pos (s ++ '\n' :: rest) = solid pos s ++ solid (pos + s.length + 1) rest := by
  induction hn : s.length using Nat.strong_induction_on generalizing pos s with
  | _ n ih =>
    cases s with
    | nil =>
      have hnil : solid pos [] = [] := by
        rw [solid, tokens_eq]
        rfl
      rw [← hn, List.nil_append, solid_cons_of_isSpace (by decide), hnil]
      rfl
    | cons c cs =>
      rw [List.length_cons] at hn
      by_cases hspace : Lexer.isSpace c = true
      · rw [List.cons_append, solid_cons_of_isSpace hspace, solid_cons_of_isSpace hspace,
          ih cs.length (by omega) (pos + 1) cs rfl]
        congr 2
        omega
      · -- The same token is found with and without the line feed.
        have hsolid : Lexer.isSpace c = false := by simpa using hspace
        have hle := Lexer.measure_le_of_newline hsolid cs rest
        rw [Lexer.measure_append_newline hsolid] at hle
        have hrest := ih (cs.drop (Lexer.measure false c cs).2).length
          (by rw [List.length_drop]; omega)
          (pos + (1 + (Lexer.measure false c cs).2)) (cs.drop (Lexer.measure false c cs).2) rfl
        have hplace : pos + (1 + (Lexer.measure false c cs).2) +
            (cs.drop (Lexer.measure false c cs).2).length + 1 = pos + n + 1 := by
          rw [List.length_drop]
          omega
        rw [hplace] at hrest
        rw [solid, solid, tokens_eq, tokens_eq false pos (c :: cs)]
        simp only [List.cons_append, next?, Lexer.measure_append_newline hsolid,
          List.take_append_of_le_length hle, List.drop_append_of_le_length hle, stop,
          List.length_cons, List.length_take, Nat.min_eq_left hle]
        rw [Nat.add_comm (Lexer.measure false c cs).2 1, List.filter_cons, List.filter_cons]
        split
        · rw [List.cons_append]
          exact congrArg _ hrest
        · exact hrest

/-- The same token further along a text. -/
def shift (t : Token) (n : Nat) : Token :=
  { t with start := t.start + n }

lemma tokens_add (pseudo : Bool) (pos n : Nat) (s : List Char) :
    tokens pseudo (pos + n) s = (tokens pseudo pos s).map fun t => t.shift n := by
  fun_induction tokens pseudo pos s with
  | case1 pos s hnone =>
    cases s with
    | nil => rw [tokens_eq, next?, List.map_nil]
    | cons c cs => simp [next?] at hnone
  | case2 pos s t rest hnext ih =>
    have hmoved : next? pseudo (pos + n) s = some (t.shift n, rest) := by
      cases s with
      | nil => simp [next?] at hnext
      | cons c cs =>
        simp only [next?, Option.some.injEq, Prod.mk.injEq] at hnext ⊢
        obtain ⟨rfl, rfl⟩ := hnext
        exact ⟨rfl, rfl⟩
    have hstop : (t.shift n).stop = t.stop + n := by
      simp only [stop, shift]
      omega
    rw [tokens_eq, hmoved, List.map_cons]
    simp only
    rw [hstop, ih]

lemma solid_eq_map_shift (pos : Nat) (s : List Char) :
    solid pos s = (solid 0 s).map fun t => t.shift pos := by
  have h := tokens_add false 0 pos s
  rw [Nat.zero_add] at h
  rw [solid, solid, h, List.filter_map]
  rfl

/-- The tokens of lines that are each read by themselves, moved to where the lines stand in a text
from `pos` on. -/
def solidLines (pos : Nat) : List (List Char) → List Token
  | [] => []
  | line :: rest =>
    ((solid 0 line).map fun t => t.shift pos) ++ solidLines (pos + line.length + 1) rest

lemma solid_eq_solidLines (pos : Nat) (s : List Char) :
    solid pos s = solidLines pos (Text.splitOn '\n' s) := by
  induction hn : s.length using Nat.strong_induction_on generalizing pos s with
  | _ n ih =>
    by_cases hmem : '\n' ∈ s
    · obtain ⟨line, rest, rfl, hline⟩ := List.eq_append_cons_of_mem hmem
      rw [List.length_append, List.length_cons] at hn
      rw [Text.splitOn_append_cons hline, solidLines, solid_append_newline,
        solid_eq_map_shift pos line, ih rest.length (by omega) _ rest rfl]
    · rw [Text.splitOn_of_not_mem hmem, solidLines, solidLines, List.append_nil,
        solid_eq_map_shift]

lemma kind_of_newline_mem {pos : Nat} {s rest : List Char} {t : Token}
    (h : next? false pos s = some (t, rest)) (hnewline : '\n' ∈ t.text) : t.kind = .whitespace := by
  cases s with
  | nil => simp [next?] at h
  | cons c cs =>
    simp only [next?, Option.some.injEq, Prod.mk.injEq] at h
    obtain ⟨rfl, -⟩ := h
    rw [Lexer.measure_of_isSpace (Lexer.isSpace_of_newline_mem hnewline)]

lemma kind_of_newline_mem_tokens {pos : Nat} {s : List Char} :
    ∀ t ∈ tokens false pos s, '\n' ∈ t.text → t.kind = .whitespace := by
  generalize hpseudo : false = pseudo
  fun_induction tokens pseudo pos s with
  | case1 => simp
  | case2 pos s t rest hnext ih =>
    rw [← hpseudo] at hnext
    exact List.forall_mem_cons.mpr ⟨kind_of_newline_mem hnext, ih⟩

/-- Tokens that lie end to end from an offset to the end of a text.  None is empty, and each is what
the text holds between its bounds. -/
def Tile (text : List Char) (pos : Nat) : List Token → Prop
  | [] => pos = text.length
  | t :: ts => t.start = pos ∧ pos < t.stop ∧ t.text = (text.take t.stop).drop t.start ∧
      Tile text t.stop ts

lemma tile_tokens (pseudo : Bool) {text : List Char} {pos : Nat} (h : pos ≤ text.length) :
    Tile text pos (tokens pseudo pos (text.drop pos)) := by
  generalize hs : text.drop pos = s
  fun_induction tokens pseudo pos s with
  | case1 pos s hnone =>
    have hnil : s = [] := by
      by_contra hne
      obtain ⟨t, rest, hnext⟩ := next?_isSome pseudo pos hne
      rw [hnone] at hnext
      cases hnext
    rw [hnil, List.drop_eq_nil_iff] at hs
    exact Nat.le_antisymm h hs
  | case2 pos s t rest hnext ih =>
    rw [← hs] at hnext
    obtain ⟨hstart, hpos, happ⟩ := next?_eq_some hnext
    obtain ⟨hrest, hstop⟩ := drop_stop_of_next? hnext
    have htext : t.text = (text.take t.stop).drop t.start := by
      rw [stop, hstart, List.drop_take, Nat.add_sub_cancel_left, ← happ, List.take_left]
    exact ⟨hstart, by rw [stop]; omega, htext, ih hstop hrest.symm⟩

/-- From any offset in a text tokens lie end to end up to its end.  Where no pseudo-text is looked
for, those with a line feed in them are white space, and the others are the tokens of the lines of
the text, each line read by itself. -/
theorem tile_line_by_line {text : List Char} {start : Nat} (h : start ≤ text.length)
    (pseudo : Bool) :
    ∃ ts, allFrom? pseudo text start = some (ts.map fun t => ((t.start : Int), t)) ∧
      Tile text start ts ∧
      (pseudo = false →
        (∀ t ∈ ts, '\n' ∈ t.text → t.kind = .whitespace) ∧
        ts.filter (fun t => t.kind != .whitespace) =
          solidLines start (Text.splitOn '\n' (text.drop start))) := by
  refine ⟨tokens pseudo start (text.drop start), ?_, tile_tokens pseudo h, ?_⟩
  · simp [allFrom?]
  · rintro rfl
    exact ⟨kind_of_newline_mem_tokens, solid_eq_solidLines start (text.drop start)⟩

/-- A literal and a comment that are left open, each at the end of its line. -/
theorem tile_line_by_line_unclosed :
    ∃ ts, allFrom? false ['-', '\'', 'A', '\n', '*', '>', '\'', '\n', 'B'] 1 =
        some (ts.map fun t => ((t.start : Int), t)) ∧
      Tile ['-', '\'', 'A', '\n', '*', '>', '\'', '\n', 'B'] 1 ts ∧
      ts.filter (fun t => t.kind != .whitespace) =
        [⟨.literal, ['\'', 'A'], 1⟩, ⟨.comment, ['*', '>', '\''], 4⟩, ⟨.word, ['B'], 8⟩] := by
  obtain ⟨ts, hts, htile, hlines⟩ :=
    @tile_line_by_line ['-', '\'', 'A', '\n', '*', '>', '\'', '\n', 'B'] 1 (by decide) false
  refine ⟨ts, hts, htile, (hlines rfl).2.trans ?_⟩
  cbv

end Token

end CobolText
