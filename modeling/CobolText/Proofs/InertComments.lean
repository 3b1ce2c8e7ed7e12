import CobolText.Proofs.CommentWords

/-!
# Comments hold no tokens of the program

A unit is written out with one line of text for each of its logical lines.  The main result is that
plain tokens, taken one after the other from the start of the text, respect the comments in it: no
word, literal, period or separator reaches into a comment, whatever literals are left open on the
lines before and whatever the comment holds.

Before every token the comments on the rest of the line stand behind their mark.  A token of the
program starts neither with a blank nor with a mark and stays on its line, so then there is no
comment on the line for it to reach.
-/

namespace CobolText

/-- The kinds of token that programs are made of. -/
def TokenKind.program : List TokenKind :=
  [.word, .literal, .period, .separator]

namespace Lexer

/-- A token of the program starts with no comment mark and no blank, and stays on its line. -/
lemma measure_program {c : Char} {cs : List Char} (h : (measure false c cs).1 ∈ TokenKind.program) :
    ¬Text.commentMark <+: c :: cs ∧ Text.isBlank c = false ∧
      '\n' ∉ cs.take (measure false c cs).2 := by
  rcases measure_cases c cs with ⟨-, hm⟩ | ⟨-, hm⟩ | hsolid | ⟨hmark, -, hzero, -⟩
  · simp [hm, TokenKind.program] at h
  · simp [hm, TokenKind.program] at h
  · exact hsolid
  · -- A single character: a literal's quote, a period, or a comma or semicolon.
    refine ⟨hmark, ?_, by simp [hzero]⟩
    by_contra hblank
    have hliteral : literal? c cs = none := by
      cases hn : literal? c cs with
      | none => rfl
      | some n => exact absurd (literal?_eq_some hn).1 hblank
    have hne : c ≠ '.' ∧ c ≠ ',' ∧ c ≠ ';' := by
      refine ⟨?_, ?_, ?_⟩ <;> rintro rfl <;> exact hblank rfl
    have hwordChar : isWordChar c = false := by
      by_contra hc
      exact hblank (not_isBlank_of_isWordChar (by simpa using hc))
    have hcomment : comment? c cs = none := by
      rw [comment?, if_neg]
      rwa [List.isPrefixOf_iff_prefix]
    simp only [measure, Bool.false_eq_true, if_false, hcomment, hliteral, word?, hwordChar,
      separator?, hne, beq_iff_eq, or_self, Bool.or_eq_true] at h
    cases hspace : whitespace? c cs with
    | none => simp [hspace, TokenKind.program] at h
    | some n => simp [hspace, TokenKind.program] at h

end Lexer

/-- From a guarded place on, a token of the program holds nothing of a comment. -/
lemma Guarded.not_isComment_of_next {xs : List TracedChar} (h : Guarded xs) {pos : Nat} {t : Token}
    {rest : List Char} (hnext : Token.next? false pos (xs.map (·.1)) = some (t, rest))
    (hkind : t.kind ∈ TokenKind.program) :
    ∀ x ∈ xs.take t.text.length, x.isComment = false := by
  cases xs with
  | nil => simp [Token.next?] at hnext
  | cons x xs =>
    simp only [List.map_cons, Token.next?, Option.some.injEq, Prod.mk.injEq] at hnext
    obtain ⟨rfl, -⟩ := hnext
    obtain ⟨hmark, hblank, hline⟩ := Lexer.measure_program hkind
    intro y hy
    apply h.not_isComment hblank hmark
    rw [lineOf_cons (Lexer.ne_newline_of_not_isBlank hblank)]
    simp only [List.length_cons, List.length_take, List.length_map, List.take_succ_cons] at hy
    rcases List.mem_cons.mp hy with rfl | hy
    · exact List.mem_cons_self
    · -- What the token takes of the line comes before the line feed.
      apply List.mem_cons_of_mem
      rw [← List.take_append_drop (Lexer.measure false x.1 (xs.map (·.1))).2 xs, lineOf_append]
      · exact List.mem_append_left _ (List.take_subset_take_left _ (Nat.min_le_left _ _) hy)
      · intro z hz hnewline
        apply hline
        rw [← List.map_take, ← hnewline]
        exact List.mem_map_of_mem hz

section Scan

variable {xs : List TracedChar} {text : List Char} (htext : xs.map (·.1) = text)
include htext

lemma not_isComment_of_next? {pos : Nat} (h : Guarded (xs.drop pos)) {t : Token} {rest : List Char}
    (hnext : Token.next? false pos (text.drop pos) = some (t, rest))
    (hkind : t.kind ∈ TokenKind.program) {p : Nat} (hle : t.start ≤ p) (hlt : p < t.stop) :
    ∀ x ∈ xs[p]?, x.isComment = false := by
  have hstart := (Token.next?_eq_some hnext).1
  rw [← htext, ← List.map_drop] at hnext
  intro x hx
  apply h.not_isComment_of_next hnext hkind
  rw [Token.stop] at hlt
  apply List.mem_of_getElem? (i := p - pos)
  rw [List.getElem?_take_of_lt (by omega), List.getElem?_drop, ← hstart, Nat.add_sub_cancel' hle]
  exact hx

/-- Read token by token from a guarded place on, a text is guarded where each token starts. -/
lemma guarded_of_mem_tokens (hlines : GuardedLines xs) {pos : Nat} (h : Guarded (xs.drop pos))
    {t : Token} (ht : t ∈ Token.tokens false pos (text.drop pos)) :
    Guarded (xs.drop t.start) ∧
      ∃ rest, Token.next? false t.start (text.drop t.start) = some (t, rest) := by
  generalize hs : text.drop pos = s at ht
  generalize hpseudo : false = pseudo at ht ⊢
  fun_induction Token.tokens pseudo pos s with
  | case1 => simp at ht
  | case2 pos s u rest hnext ih =>
    rw [← hs, ← hpseudo] at hnext
    obtain ⟨-, hstart, hrest⟩ := Token.foundIn_of_next? hnext
    rcases List.mem_cons.mp ht with rfl | ht
    · rw [hstart, ← hpseudo]
      exact ⟨h, rest, hnext⟩
    · exact ih (guarded_stop_of_next? htext hlines h hnext).1 hrest.symm ht

end Scan

namespace Text

lemma splitOn_flatMap_line {α : Type} {sep : Char} (line : α → List Char) {items : List α}
    (h : ∀ a ∈ items, sep ∉ line a) :
    splitOn sep (items.flatMap fun a => line a ++ [sep]) = items.map line ++ [[]] := by
  induction items with
  | nil => rfl
  | cons a items ih =>
    rw [List.forall_mem_cons] at h
    rw [List.flatMap_cons, List.append_assoc, List.singleton_append, splitOn_append_cons h.1,
      ih h.2]
    rfl

/-- A text has one piece more than separators. -/
lemma length_splitOn (sep : Char) (s : List Char) : (splitOn sep s).length = s.count sep + 1 := by
  induction s with
  | nil => rfl
  | cons c s ih =>
    rw [splitOn_cons, List.count_cons]
    unfold splitStep
    split
    · simp [ih]
    · split
      · rename_i hnil
        exact absurd hnil (splitOn_ne_nil sep s)
      · rename_i first rest hsplit
        rw [hsplit] at ih
        simpa using ih

end Text

/-- A logical line as it stands in the text, without the line feed. -/
def LogicalLine.record (indent : Nat) (l : LogicalLine) : List Char :=
  Text.spaces indent ++ l.marker ++ l.content

namespace SourceUnit

variable {r : LineRules} {name : String} {text : List Char} {unit : SourceUnit}

lemma text_written (h : SourceUnit.read r name text = .ok unit) :
    unit.written.text =
      unit.lines.flatMap fun l => l.record (r.dialect.layout r.format).indentWidth ++ ['\n'] := by
  rw [← TracedText.map_fst_trace, (SourceUnit.lines_of_read h).1, LogicalLine.trace_write,
    List.map_flatMap]
  congr 1
  funext l
  rw [LogicalLine.trace_fragments, List.map_append, List.map_append, LogicalLine.map_body,
    List.map_map]
  simp [LogicalLine.record, Function.comp_def]

lemma newline_not_mem_record (h : SourceUnit.read r name text = .ok unit) {l : LogicalLine}
    (hl : l ∈ unit.lines) (indent : Nat) : '\n' ∉ l.record indent := by
  obtain ⟨u, hu, rfl⟩ := (SourceUnit.lines_of_read h).2 l hl
  intro hmem
  rw [LogicalLine.record, ← LogicalLine.map_body] at hmem
  rcases List.mem_append.mp hmem with hmem | hmem
  · have hfront := (LogicalLine.writtenLine_mark hu r.debugging indent).plain ('\n', none)
      (List.mem_map_of_mem hmem)
    exact hfront.2.1 rfl
  · obtain ⟨x, hx, hnewline⟩ := List.mem_map.mp hmem
    exact (LogicalLine.writtenLine_mark hu r.debugging indent).newline x hx hnewline

/-- The text of a unit is its lines, each with its indentation, its marker and its content, and no
token of the program overlaps a comment. -/
theorem comments_inert (h : SourceUnit.read r name text = .ok unit) :
    unit.written.text.count '\n' = unit.lines.length ∧
    Text.splitOn '\n' unit.written.text =
      unit.lines.map (·.record (r.dialect.layout r.format).indentWidth) ++ [[]] ∧
    ∀ t ∈ Token.tokens false 0 unit.written.text, t.kind ∈ TokenKind.program →
      ∀ e ∈ unit.written.extents, e.isComment = true →
        (t.stop : Int) ≤ e.start ∨ e.stop ≤ t.start := by
  have hsplit : Text.splitOn '\n' unit.written.text =
      unit.lines.map (·.record (r.dialect.layout r.format).indentWidth) ++ [[]] := by
    rw [text_written h]
    exact Text.splitOn_flatMap_line _ fun l hl => newline_not_mem_record h hl _
  refine ⟨?_, hsplit, fun t ht hkind e he hcomment => ?_⟩
  · have hlength := Text.length_splitOn '\n' unit.written.text
    rw [hsplit, List.length_append, List.length_map] at hlength
    simpa using hlength.symm
  · by_contra hoverlap
    have hwell := (SourceUnit.standsIn_written h).1
    have hw := SourceUnit.writtenText h
    have hbounds := (Token.bounds_of_mem_tokens ht).2.1
    have hnonempty := hwell.nonempty e he
    -- Two intervals that meet share the greater of their starts.
    obtain ⟨p, hp⟩ : ∃ p : Nat, (p : Int) = max (t.start : Int) e.start :=
      ⟨(max (t.start : Int) e.start).toNat, by omega⟩
    have hin : unit.written.InComment p :=
      ⟨e, he, hcomment, Extent.covers_iff.mpr (by omega)⟩
    obtain ⟨x, hx, hxcomment⟩ := hwell.inComment_iff.mp hin
    have htext := unit.written.map_fst_trace
    have hstart : Guarded (unit.written.trace.drop 0) := hw.guarded
    obtain ⟨hguarded, rest, hnext⟩ :=
      guarded_of_mem_tokens htext hw.guardedLines hstart ht
    have hclear := not_isComment_of_next? htext hguarded hnext hkind (p := p) (by omega) (by omega)
    simp [hclear x hx] at hxcomment

/-- A literal left open, a comment with a quote in it, and an entry behind its paragraph name. -/
def openQuoteText : List Char :=
  [' ', ' ', ' ', ' ', ' ', ' ', ' ', 'X', ' ', '\'', 'A', '\n',
    ' ', ' ', ' ', ' ', ' ', ' ', '*', 'C', 'O', 'P', 'Y', ' ', '\'', 'B', '.', '\n',
    ' ', ' ', ' ', ' ', ' ', ' ', ' ', 'A', 'U', 'T', 'H', 'O', 'R', '.', ' ', 'D', '\'', '\n']

set_option maxRecDepth 20000 in
/-- The text has four lines, one more than the source, and holds an open literal and comments. -/
theorem comments_inert_openQuote :
    ∃ unit, SourceUnit.read ⟨.fixed, .ansi85, false⟩ "main" openQuoteText = .ok unit ∧
      unit.written.text.count '\n' = 4 ∧
      (∃ t ∈ Token.tokens false 0 unit.written.text, t.kind = .literal ∧ t.text = ['\'', 'A']) ∧
      (∃ e ∈ unit.written.extents, e.isComment = true) ∧
      ∀ t ∈ Token.tokens false 0 unit.written.text, t.kind ∈ TokenKind.program →
        ∀ e ∈ unit.written.extents, e.isComment = true →
          (t.stop : Int) ≤ e.start ∨ e.stop ≤ t.start := by
  have hok : (SourceUnit.read ⟨.fixed, .ansi85, false⟩ "main" openQuoteText).toOption.map
      (fun u => (u.lines.length, u.written.extents.any (·.isComment),
        (Token.tokens false 0 u.written.text).any fun t =>
          t.kind == .literal && t.text == ['\'', 'A'])) = some (4, true, true) := by
    cbv
  cases hread : SourceUnit.read ⟨.fixed, .ansi85, false⟩ "main" openQuoteText with
  | error fault => simp [hread, Except.toOption] at hok
  | ok unit =>
    simp only [hread, Except.toOption, Option.map_some, Option.some.injEq, Prod.mk.injEq,
      List.any_eq_true, Bool.and_eq_true, beq_iff_eq] at hok
    obtain ⟨hlength, hcomment, hliteral⟩ := hok
    obtain ⟨hcount, -, hclear⟩ := comments_inert hread
    exact ⟨unit, rfl, hcount.trans hlength, hliteral, hcomment, hclear⟩

end SourceUnit

end CobolText
