import CobolText.Proofs.LineTokens
import CobolText.Proofs.Stretches

/-!
# The text behind a copybook

What a copybook leaves open at its end, be it a literal, a comment or a line, does not reach the
text behind the `COPY` directive.  If the rest of the line of the directive is blank, it holds no
token and the line feed after it closes the last line of the copybook.  If not, a line feed and as
many spaces as there are columns up to the end of the directive are put in front of it.  So the
tokens of the program behind the directive are the last ones of the text that is scanned, and what
stands on the line of the directive keeps its columns.
-/

namespace CobolText

/-- The kinds of token that must not be lost behind a copybook. -/
def TokenKind.lexical : List TokenKind :=
  [.word, .literal, .period, .comment]

lemma Lexer.measure_of_isBlank {c : Char} (h : Text.isBlank c = true) (cs : List Char) :
    (measure false c cs).1 = .whitespace ∨ (measure false c cs).1 = .other := by
  have hne : c ≠ '*' ∧ c ≠ '.' ∧ c ≠ ',' ∧ c ≠ ';' := by
    refine ⟨?_, ?_, ?_, ?_⟩ <;> rintro rfl <;> exact absurd h (by decide)
  have hcomment : comment? c cs = none := by
    simp [comment?, Text.commentMark, List.isPrefixOf, hne.1.symm]
  have hliteral : literal? c cs = none := by
    cases hn : literal? c cs with
    | none => rfl
    | some n => simp [(literal?_eq_some hn).1] at h
  have hword : isWordChar c = false := by
    by_contra hc
    simp [not_isBlank_of_isWordChar (by simpa using hc)] at h
  simp only [measure, Bool.false_eq_true, if_false, hcomment, hliteral, word?, hword, separator?,
    hne, beq_iff_eq, or_self, Bool.or_eq_true]
  cases whitespace? c cs <;> simp

namespace Token

/-- The words, literals, periods and comments of a text that starts at `pos`, in their order. -/
def lexemes (pos : Nat) (s : List Char) : List (TokenKind × List Char) :=
  ((tokens false pos s).map fun t => (t.kind, t.text)).filter fun x =>
    TokenKind.lexical.contains x.1

/-- Which tokens a text has does not depend on where it starts. -/
lemma map_tokens_pos (pseudo : Bool) (pos pos' : Nat) (s : List Char) :
    (tokens pseudo pos s).map (fun t => (t.kind, t.text)) =
      (tokens pseudo pos' s).map fun t => (t.kind, t.text) := by
  have hstart : ∀ p, (tokens pseudo p s).map (fun t => (t.kind, t.text)) =
      (tokens pseudo 0 s).map fun t => (t.kind, t.text) := by
    intro p
    have hmoved := tokens_add pseudo 0 p s
    rw [Nat.zero_add] at hmoved
    rw [hmoved, List.map_map]
    rfl
  rw [hstart pos, hstart pos']

lemma lexemes_pos (pos pos' : Nat) (s : List Char) : lexemes pos s = lexemes pos' s := by
  rw [lexemes, lexemes, map_tokens_pos false pos pos']

lemma lexemes_eq_solid (pos : Nat) (s : List Char) :
    lexemes pos s = ((solid pos s).map fun t => (t.kind, t.text)).filter fun x =>
      TokenKind.lexical.contains x.1 := by
  rw [lexemes, solid, List.filter_map, List.filter_map, List.filter_filter]
  congr 1
  apply List.filter_congr
  intro t _
  simp only [Function.comp_apply]
  cases t.kind <;> rfl

lemma lexemes_append_newline (pos : Nat) (s rest : List Char) :
    lexemes pos (s ++ '\n' :: rest) = lexemes pos s ++ lexemes pos rest := by
  rw [lexemes_eq_solid, solid_append_newline, List.map_append, List.filter_append,
    ← lexemes_eq_solid, ← lexemes_eq_solid, lexemes_pos (pos + s.length + 1) pos]

lemma lexemes_spaces_append (pos n : Nat) (s : List Char) :
    lexemes pos (Text.spaces n ++ s) = lexemes pos s := by
  induction n with
  | zero => rfl
  | succ n ih =>
    rw [← ih, Text.spaces, List.replicate_succ, List.cons_append, lexemes_eq_solid,
      solid_cons_of_isSpace (by decide), ← lexemes_eq_solid, lexemes_pos (pos + 1) pos]
    rfl

/-- Blanks hold no word, literal, period or comment. -/
lemma lexemes_of_isBlankText {s : List Char} (h : Text.isBlankText s = true) (pos : Nat) :
    lexemes pos s = [] := by
  rw [Text.isBlankText_iff] at h
  rw [lexemes, List.filter_eq_nil_iff]
  simp only [List.mem_map]
  rintro _ ⟨t, ht, rfl⟩ hlexical
  generalize hpseudo : false = pseudo at ht
  fun_induction tokens pseudo pos s with
  | case1 => simp at ht
  | case2 pos s u rest hnext ih =>
    have happ := text_append_of_next? hnext
    rcases List.mem_cons.mp ht with rfl | ht
    · cases s with
      | nil => simp [next?] at hnext
      | cons c cs =>
        rw [← hpseudo] at hnext
        simp only [next?, Option.some.injEq, Prod.mk.injEq] at hnext
        obtain ⟨rfl, -⟩ := hnext
        rcases Lexer.measure_of_isBlank (h c List.mem_cons_self) cs with hkind | hkind <;>
          simp [hkind, TokenKind.lexical] at hlexical
    · exact ih (fun c hc => h c (by simp [← happ, hc])) ht

/-- Blanks up to the end of a line have no tokens, whatever is in front of them on the line, and
the tokens after the line do not depend on it. -/
lemma lexemes_suffix_of_blank (pos : Nat) (before s : List Char)
    (h : Text.isBlankText (s.takeWhile (· != '\n')) = true) :
    lexemes pos s <:+ lexemes pos (before ++ s) := by
  have hsplit := List.takeWhile_append_dropWhile (p := (· != '\n')) (l := s)
  cases htail : s.dropWhile (· != '\n') with
  | nil =>
    rw [htail, List.append_nil] at hsplit
    rw [hsplit] at h
    rw [lexemes_of_isBlankText h]
    exact List.nil_suffix
  | cons c tail =>
    obtain rfl : c = '\n' := by
      have hhead := List.head?_dropWhile_not (· != '\n') s
      rw [htail] at hhead
      simpa using hhead
    rw [htail] at hsplit
    rw [← hsplit, ← List.append_assoc, lexemes_append_newline, lexemes_append_newline,
      lexemes_of_isBlankText h, List.nil_append]
    exact List.suffix_append _ _

end Token

namespace Progress

/-- The text that waits for the rules in force to change. -/
def waiting (p : Progress) : List Char :=
  (TracedText.assemble p.pending.reverse).text

lemma waiting_push (p : Progress) (fs : List Fragment) :
    (p.push fs).waiting = p.waiting ++ fs.flatMap (·.text) := by
  rw [waiting, pending_push, TracedText.text_assemble, List.flatMap_append]
  rfl

end Progress

namespace Expansion

/-- The text of a copybook in the place of a directive: on a blank rest of the line it loses its
last line feed, and in front of other text it ends with a line feed and spaces. -/
lemma text_splice (text : List Char) (stop : Nat) (name : String) {book : TracedText}
    (hbook : book.text ≠ []) :
    (Text.isBlankText ((text.drop stop).takeWhile (· != '\n')) = true ∧
      ((splice text stop name book).flatMap (·.text) = book.text ∨
        (splice text stop name book).flatMap (·.text) ++ ['\n'] = book.text)) ∨
    (Text.isBlankText ((text.drop stop).takeWhile (· != '\n')) = false ∧
      ∃ lines, (book.text = lines ++ ['\n'] ∨ book.text = lines) ∧
        (splice text stop name book).flatMap (·.text) =
          lines ++ '\n' :: Text.spaces (columnsBefore text stop)) := by
  have hcut : ∀ last : Nat, last ≤ book.text.length →
      (book.cut 0 last [name]).text = book.text.take last := fun last h => by
    have hzero := book.text_cut 0 h [name]
    rwa [List.drop_zero] at hzero
  have hempty : book.text.isEmpty = false := by simpa using hbook
  unfold splice
  simp only [hempty, Bool.or_false]
  cases hblank : Text.isBlankText ((text.drop stop).takeWhile (· != '\n')) with
  | true =>
    refine .inl ⟨rfl, ?_⟩
    simp only [if_true, List.flatMap_singleton]
    by_cases hends : (book.text.getLast? == some '\n') = true
    · obtain ⟨lines, hlines⟩ := List.getLast?_eq_some_iff.mp (by simpa using hends)
      rw [if_pos hends, hcut _ (Nat.sub_le _ _), hlines]
      simp
    · rw [if_neg hends, hcut _ (Nat.le_refl _), List.take_length]
      exact .inl rfl
  | false =>
    refine .inr ⟨rfl, ?_⟩
    simp only [Bool.false_eq_true, if_false, List.flatMap_cons, List.flatMap_nil, List.append_nil,
      Fragment.synthetic, hcut _ (Nat.le_refl _), List.take_length]
    by_cases hends : (book.text.getLast? == some '\n') = true
    · obtain ⟨lines, hlines⟩ := List.getLast?_eq_some_iff.mp (by simpa using hends)
      exact ⟨lines, .inl hlines, by simp [hlines]⟩
    · exact ⟨book.text, .inr rfl, by rw [if_neg hends]; simp⟩

/-- Further on along a line, as many more columns stand before. -/
lemma columnsBefore_add {text : List Char} {offset k : Nat}
    (h : '\n' ∉ (text.drop offset).take k) (hk : offset + k ≤ text.length) :
    columnsBefore text (offset + k) = columnsBefore text offset + k := by
  have hline : ∀ c ∈ ((text.drop offset).take k).reverse, (c != '\n') = true := by
    intro c hc
    rw [bne_iff_ne]
    rintro rfl
    exact h (List.mem_reverse.mp hc)
  rw [columnsBefore, List.take_add, List.reverse_append, List.takeWhile_append_of_pos hline,
    List.length_append, List.length_reverse, List.length_take, List.length_drop, columnsBefore]
  omega

lemma columnsBefore_spaces (lines rest : List Char) (n : Nat) :
    columnsBefore (lines ++ '\n' :: Text.spaces n ++ rest)
      (lines ++ '\n' :: Text.spaces n).length = n := by
  have hspaces : ∀ c ∈ List.replicate n ' ', (c != '\n') = true := by
    intro c hc
    rw [List.eq_of_mem_replicate hc]
    rfl
  rw [columnsBefore, List.take_left, List.reverse_append, List.reverse_cons, List.append_assoc,
    Text.spaces, List.reverse_replicate, List.takeWhile_append_of_pos hspaces]
  simp

/-- A copybook does not reach the text behind its directive.  Whatever its expansion leaves open,
the words, literals, periods and comments behind the directive are the last ones of the text that
waits with what follows; and if more than blanks follow on the line of the directive, they start on
a line of their own and keep their columns. -/
theorem text_after_copy {σ : Type} (files : FileAccess (StateM σ)) (r : RunRules)
    (expand : Option (Expander (StateM σ))) (stack : List Inclusion) (t : TracedText)
    (p p' : Progress) (keyword : Token) (clause : CopyClause) (stop : Nat) (w w' : World σ)
    (h : Returns (carryOut files r expand stack t p (.copy keyword clause stop)) w p' w') :
    ∃ book, Returns (includeBook files r expand stack clause
        (directivePosition? t keyword)) w book w' ∧
      (book.text ≠ [] →
        (p.waiting ++ book.text <+: p'.waiting ∨ p.waiting ++ book.text = p'.waiting ++ ['\n']) ∧
        Token.lexemes stop (t.text.drop stop) <:+
          Token.lexemes 0 (p'.waiting ++ t.text.drop stop) ∧
        (Text.isBlankText ((t.text.drop stop).takeWhile (· != '\n')) = false →
          (∃ lines, p'.waiting = lines ++ '\n' :: Text.spaces (columnsBefore t.text stop)) ∧
          ∀ k, stop + k ≤ t.text.length → '\n' ∉ (t.text.drop stop).take k →
            columnsBefore (p'.waiting ++ t.text.drop stop) (p'.waiting.length + k) =
              columnsBefore t.text (stop + k))) := by
  rcases carryOut_returns h with ⟨_, _, hitem, -⟩ | ⟨_, hitem, -⟩ |
    ⟨_, _, _, book, hitem, hbook, hp⟩
  · cases hitem
  · cases hitem
  obtain ⟨rfl, rfl, rfl⟩ := Item.copy.inj hitem
  have hwaiting : p'.waiting =
      p.waiting ++ (splice t.text stop clause.name book).flatMap (·.text) := by
    rw [← Progress.waiting_push, hp]
    rfl
  refine ⟨book, hbook, fun hne => ?_⟩
  rcases text_splice t.text stop clause.name hne with ⟨hblank, htext⟩ |
    ⟨hblank, lines, htext, hlines⟩
  · -- The text goes on behind the copybook on the same line, but only with blanks.
    refine ⟨?_, ?_, fun hsolid => ?_⟩
    · rw [hwaiting]
      rcases htext with htext | htext
      · rw [htext]
        exact .inl (List.prefix_refl _)
      · rw [List.append_assoc, htext]
        exact .inr rfl
    · rw [Token.lexemes_pos stop 0]
      exact Token.lexemes_suffix_of_blank 0 _ _ hblank
    · rw [hblank] at hsolid
      cases hsolid
  · -- The text goes on behind a line feed and spaces.
    rw [hlines] at hwaiting
    refine ⟨.inl ?_, ?_, fun _ => ⟨⟨p.waiting ++ lines, ?_⟩, fun k hk hline => ?_⟩⟩
    · rw [hwaiting, List.prefix_append_right_inj]
      rcases htext with htext | htext
      · rw [htext]
        exact ⟨Text.spaces (columnsBefore t.text stop), by simp⟩
      · rw [htext]
        exact List.prefix_append _ _
    · rw [hwaiting, ← List.append_assoc, List.append_assoc _ ('\n' :: _), List.cons_append,
        Token.lexemes_append_newline, Token.lexemes_spaces_append, Token.lexemes_pos stop 0]
      exact List.suffix_append _ _
    · rw [hwaiting, List.append_assoc]
    · have hlength : p'.waiting.length + k ≤ (p'.waiting ++ t.text.drop stop).length := by
        rw [List.length_append, List.length_drop]
        omega
      rw [columnsBefore_add (by rwa [List.drop_left]) hlength, columnsBefore_add hline hk,
        hwaiting, ← List.append_assoc, columnsBefore_spaces]

/-- A directive with a word behind it. -/
def wordAfterCopy : TracedText :=
  TracedText.assemble
    [Fragment.copied ['C', 'O', 'P', 'Y', ' ', 'D', '.', ' ', 'B'] ⟨"main", 1, 1⟩ {}]

/-- Copybooks that all end in a comment without a line feed. -/
def commentExpander : Expander (StateM Unit) := fun _ name _ =>
  return TracedText.assemble [Fragment.copied ['A', '*', '>'] ⟨name, 1, 1⟩ {}]

set_option maxRecDepth 20000 in
/-- The word is not taken in by the comment, and stays in column nine. -/
theorem text_after_copy_comment :
    ∃ (clause : CopyClause) (p' : Progress) (w' : World Unit),
      .copy ⟨.word, ['C', 'O', 'P', 'Y'], 0⟩ clause 7 ∈
        Item.ofText .ansi85 true wordAfterCopy.text ∧
      Returns (carryOut sampleFiles sampleRules (some commentExpander) [] wordAfterCopy
        Progress.initial (.copy ⟨.word, ['C', 'O', 'P', 'Y'], 0⟩ clause 7))
        (⟨BookCache.empty, []⟩, ()) p' w' ∧
      ['A', '*', '>'] <+: p'.waiting ∧
      [(.word, ['B'])] <:+ Token.lexemes 0 (p'.waiting ++ [' ', 'B']) ∧
      columnsBefore (p'.waiting ++ [' ', 'B']) (p'.waiting.length + 1) = 8 := by
  have hok : (Run.outcome (carryOut sampleFiles sampleRules (some commentExpander) []
      wordAfterCopy Progress.initial
      (.copy ⟨.word, ['C', 'O', 'P', 'Y'], 0⟩ ⟨"D", none, false, []⟩ 7))
      (⟨BookCache.empty, []⟩, ())).1.1.toOption.isSome = true := by
    cbv
  have hbook : (Run.outcome (includeBook sampleFiles sampleRules (some commentExpander) []
      ⟨"D", none, false, []⟩
      (directivePosition? wordAfterCopy ⟨.word, ['C', 'O', 'P', 'Y'], 0⟩))
      (⟨BookCache.empty, []⟩, ())).1.1.toOption.map (·.text) = some ['A', '*', '>'] := by
    cbv
  have hitem : (.copy ⟨.word, ['C', 'O', 'P', 'Y'], 0⟩ ⟨"D", none, false, []⟩ 7) ∈
      Item.ofText .ansi85 true wordAfterCopy.text := by
    have hitems : Item.ofText .ansi85 true wordAfterCopy.text =
        [.kept 0 0, .copy ⟨.word, ['C', 'O', 'P', 'Y'], 0⟩ ⟨"D", none, false, []⟩ 7,
          .kept 7 9] := by
      cbv
    simp [hitems]
  rcases hrun : Run.outcome (carryOut sampleFiles sampleRules (some commentExpander) []
      wordAfterCopy Progress.initial
      (.copy ⟨.word, ['C', 'O', 'P', 'Y'], 0⟩ ⟨"D", none, false, []⟩ 7))
      (⟨BookCache.empty, []⟩, ()) with ⟨⟨⟨e⟩ | ⟨p'⟩, s⟩, fs⟩
  · rw [hrun] at hok
    simp [Except.toOption] at hok
  · obtain ⟨book, hreturns, hrest⟩ := text_after_copy sampleFiles sampleRules
      (some commentExpander) [] wordAfterCopy Progress.initial p' _ _ 7
      (⟨BookCache.empty, []⟩, ()) (s, fs) hrun
    rw [hreturns] at hbook
    have htext : book.text = ['A', '*', '>'] := Option.some.inj hbook
    have hdrop : wordAfterCopy.text.drop 7 = [' ', 'B'] := rfl
    rw [htext, hdrop] at hrest
    obtain ⟨hfront, hlexemes, hcolumns⟩ := hrest (by simp)
    have hlast : Token.lexemes 7 [' ', 'B'] = [(.word, ['B'])] := by cbv
    rw [hlast] at hlexemes
    refine ⟨_, p', (s, fs), hitem, hrun, ?_, hlexemes, ?_⟩
    · rcases hfront with hfront | hfront
      · exact hfront
      · -- The copybook does not end with a line feed.
        have hnewline := congrArg List.getLast? hfront
        rw [List.getLast?_concat] at hnewline
        exact absurd hnewline (by decide)
    · have hcolumn := (hcolumns (by decide)).2 1 (by decide) (by decide)
      rw [hcolumn]
      rfl

end Expansion

end CobolText
