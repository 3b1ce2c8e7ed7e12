import CobolText.Proofs.LineTokens
import CobolText.Proofs.WrittenLines

/-!
# Directive words in comments

Whether a word of a comment is ever taken for a keyword.  The reading of a unit starts with all its
comments guarded, and every step by plain tokens leaves them so.  Only a `COPY` or `REPLACE`
directive is read otherwise: its pseudo-text may run over a comment mark, and the directive may then
end in the middle of a comment.  From there on the rest of the line is read like program text.  So a
keyword of a comment is acted on exactly if it stands behind a directive that ends in the same
comment.
-/

namespace CobolText

/-- Whether the character at an offset belongs to a comment or a comment entry. -/
def TracedText.InComment (t : TracedText) (offset : Nat) : Prop :=
  ∃ e ∈ t.extents, e.isComment = true ∧ e.covers offset = true

lemma TracedText.WellFormed.inComment_iff {t : TracedText} (ht : t.WellFormed) {offset : Nat} :
    t.InComment offset ↔ ∃ x ∈ t.trace[offset]?, x.isComment = true := by
  constructor
  · rintro ⟨e, he, hcomment, hcovers⟩
    obtain ⟨c, -, hc⟩ := ht.getElem?_trace_of_covers he hcovers
    exact ⟨(c, some (e.originAt offset)), hc, hcomment⟩
  · rintro ⟨x, hx, hcomment⟩
    rw [getElem?_trace, Option.mem_def] at hx
    obtain ⟨c, -, rfl⟩ := Option.map_eq_some_iff.mp hx
    rw [TracedChar.isComment, OriginMap.originAt?] at hcomment
    cases he : t.map.extentAt? offset with
    | none => simp [he] at hcomment
    | some e =>
      rw [he] at hcomment
      rw [OriginMap.extentAt?_eq_at?] at he
      obtain ⟨hmem, hcovers⟩ := Extent.covers_of_at? he
      exact ⟨e, hmem, hcomment, Extent.covers_iff.mpr hcovers⟩

/-- The offset of the end of the line that holds an offset. -/
def endOfLine (text : List Char) (offset : Nat) : Nat :=
  offset + ((text.drop offset).takeWhile (· != '\n')).length

lemma Token.FoundIn.mem_text {text : List Char} {t : Token} (h : t.FoundIn text) {p : Nat}
    {c : Char}
    (hc : text[p]? = some c) (hle : t.start ≤ p) (hlt : p < t.stop) : c ∈ t.text := by
  have hchar := h.getElem? (show p - t.start < t.text.length by rw [Token.stop] at hlt; omega)
  rw [Nat.add_sub_cancel' hle, hc] at hchar
  exact List.mem_of_getElem? hchar.symm

/-- A plain token that does not stay on its line is white space. -/
lemma Token.isBlank_of_newline_mem {pos : Nat} {s rest : List Char} {t : Token}
    (h : Token.next? false pos s = some (t, rest)) (hnewline : '\n' ∈ t.text) :
    ∀ c ∈ t.text, Text.isBlank c = true := by
  cases s with
  | nil => simp [Token.next?] at h
  | cons c cs =>
    simp only [Token.next?, Option.some.injEq, Prod.mk.injEq] at h
    obtain ⟨rfl, -⟩ := h
    have hspace := Lexer.isSpace_of_newline_mem hnewline
    have htake : cs.take (cs.takeWhile Lexer.isSpace).length = cs.takeWhile Lexer.isSpace :=
      (List.prefix_iff_eq_take.mp (List.takeWhile_prefix _)).symm
    rw [Lexer.measure_of_isSpace hspace, htake, List.forall_mem_cons]
    exact ⟨Lexer.isBlank_of_isSpace hspace, fun d hd =>
      Lexer.isBlank_of_isSpace (List.mem_takeWhile_imp hd)⟩

namespace Item

lemma endsAt_of_directiveStop? {d : Dialect} {text : List Char} {options : Bool} {t : Token}
    (ht : t.FoundIn text) {stop : Nat}
    (h : (readToken d text options t (text.drop t.stop)).directiveStop? = some stop) :
    Directive.EndsAt text t.stop stop := by
  have hread := Passage.readAs_of_readToken d options ht
  cases hreading : readToken d text options t (text.drop t.stop) with
  | copy clause last =>
    rw [hreading] at h hread
    rw [← Option.some.inj h]
    exact hread.2.2.2.2
  | change effect last =>
    rw [hreading] at h hread
    rw [← Option.some.inj h]
    exact hread.2.2.2.2
  | _ => simp [hreading, Reading.directiveStop?] at h

/-- Behind a period on the same line no statement starts. -/
lemma startsLine_of_period {text : List Char} {stop p : Nat} (hpos : 0 < stop)
    (hperiod : text[stop - 1]? = some '.') (hle : stop ≤ p) (hlt : p < endOfLine text stop) :
    startsLine text p = false := by
  have hsplit : text.take p =
      text.take (stop - 1) ++ '.' :: (text.drop stop).take (p - stop) := by
    have hdrop : text.drop (stop - 1) = '.' :: text.drop stop := by
      rw [List.drop_eq_getElem?_toList_append, hperiod, Nat.sub_add_cancel hpos]
      rfl
    conv_lhs => rw [show p = stop - 1 + (p - stop + 1) by omega, List.take_add, hdrop,
      List.take_succ_cons]
  have hline : ∀ c ∈ ((text.drop stop).take (p - stop)).reverse, (c != '\n') = true := by
    intro c hc
    have hinit : (text.drop stop).take (p - stop) <+: (text.drop stop).takeWhile (· != '\n') := by
      rw [List.prefix_iff_eq_take.mp (List.takeWhile_prefix (· != '\n'))]
      exact List.take_prefix_take_left (by rw [endOfLine] at hlt; omega)
    have hmem := hinit.subset (List.mem_reverse.mp hc)
    exact List.mem_takeWhile_imp (p := (· != '\n')) hmem
  rw [startsLine, hsplit, List.reverse_append, List.reverse_cons, List.append_assoc,
    List.takeWhile_append_of_pos hline]
  simp [Text.isBlankText, show Text.isBlank '.' = false from rfl]

lemma keyword?_eq_of_not_startsLine (d : Dialect) {text : List Char} {t : Token}
    (h : startsLine text t.start = false) (o o' : Bool) :
    keyword? d text o t = keyword? d text o' t := by
  simp [keyword?, h]

/-- Whether no word from `pos` up to `last` is a keyword. -/
def Quiet (d : Dialect) (text : List Char) (options : Bool) (pos last : Nat) : Prop :=
  ∀ u ∈ Token.tokens false pos (text.drop pos), u.start < last → keyword? d text options u = none

lemma Quiet.next {d : Dialect} {text : List Char} {options : Bool} {pos last : Nat}
    (h : Quiet d text options pos last) (hlt : pos < last) {t : Token}
    (hnext : Token.next? false pos (text.drop pos) = some (t, text.drop t.stop)) :
    keyword? d text options t = none ∧ Quiet d text options t.stop last := by
  unfold Quiet at h
  rw [Token.tokens_eq, hnext, List.forall_mem_cons] at h
  refine ⟨h.1 ?_, h.2⟩
  rw [(Token.next?_eq_some hnext).1]
  exact hlt

lemma reads_after {d : Dialect} {text : List Char} {options : Bool} {pos : Nat} {steps : List Step}
    (h : Reads d text options pos steps) {s : Step} (hs : s ∈ steps) {stop : Nat}
    (hstop : s.reading.directiveStop? = some stop) :
    Directive.EndsAt text s.token.stop stop ∧
      ∃ later, Reads d text s.options stop later ∧ later ⊆ steps := by
  induction h with
  | done => simp at hs
  | @step options pos last t steps next goesOn rest ih =>
    rcases List.mem_cons.mp hs with rfl | hs
    · refine ⟨endsAt_of_directiveStop? (Token.foundIn_of_next? next).1 hstop, steps, ?_,
        List.subset_cons_self _ _⟩
      generalize readToken d text options t (text.drop t.stop) = reading at hstop goesOn rest
      cases reading with
      | copy clause last =>
        rw [← Option.some.inj hstop, Option.some.inj goesOn]
        exact rest
      | change effect last =>
        rw [← Option.some.inj hstop, Option.some.inj goesOn]
        exact rest
      | _ => simp [Reading.directiveStop?] at hstop
    · obtain ⟨hends, later, hlater, hsub⟩ := ih hs
      exact ⟨hends, later, hlater, List.Subset.trans hsub (List.subset_cons_self _ _)⟩
  | stuck next hmalformed =>
    rw [List.mem_singleton.mp hs] at hstop
    simp [Reading.directiveStop?] at hstop

/-- The first keyword from `pos` up to `last` is acted on. -/
lemma exists_step_of_keyword {d : Dialect} {text : List Char} {options : Bool} {pos last : Nat}
    {steps : List Step} (h : Reads d text options pos steps) (o : Bool)
    (hinside : ∀ p, pos ≤ p → p < last → startsLine text p = false)
    (hkeyword : ¬Quiet d text o pos last) :
    ∃ s ∈ steps, pos ≤ s.token.start ∧ s.token.start < last ∧
      keyword? d text s.options s.token ≠ none := by
  have hsome : ∀ {pos}, ¬Quiet d text o pos last → pos < last := by
    intro pos hkeyword
    by_contra hle
    refine hkeyword fun u hu hlt => ?_
    have := (Token.bounds_of_mem_tokens hu).1
    omega
  induction h with
  | done =>
    refine absurd ?_ hkeyword
    intro u hu
    rw [List.drop_length, Token.tokens_eq] at hu
    simp [Token.next?] at hu
  | @step options pos stop t steps next goesOn rest ih =>
    have hlt := hsome hkeyword
    obtain ⟨hfound, hstart, -⟩ := Token.foundIn_of_next? next
    by_cases hk : keyword? d text options t = none
    · -- The token is kept, so the keyword comes later.
      have hstop : t.stop = stop := by
        rw [readToken_eq, hk] at goesOn
        exact Option.some.inj goesOn
      have hbounds := hfound.bounds
      rw [keyword?_eq_of_not_startsLine d (hinside t.start (by omega) (by omega)) options o] at hk
      have hlater : ¬Quiet d text o stop last := by
        intro hquiet
        refine hkeyword ?_
        unfold Quiet
        rw [Token.tokens_eq, next, List.forall_mem_cons, hstop]
        exact ⟨fun _ => hk, hquiet⟩
      obtain ⟨s, hs, h1, h2⟩ := ih (fun p hp => hinside p (by omega)) hlater
      exact ⟨s, List.mem_cons_of_mem _ hs, by omega, h2⟩
    · exact ⟨_, List.mem_cons_self, Nat.le_of_eq hstart.symm, hstart ▸ hlt, hk⟩
  | @stuck options pos t defect next hmalformed =>
    have hlt := hsome hkeyword
    have hstart := (Token.next?_eq_some next).1
    refine ⟨_, List.mem_singleton.mpr rfl, Nat.le_of_eq hstart.symm, hstart ▸ hlt, ?_⟩
    intro hk
    rw [readToken_eq, hk] at hmalformed
    simp at hmalformed

end Item

section Scan

variable {xs : List TracedChar} {text : List Char} (htext : xs.map (·.1) = text)
include htext

lemma endOfLine_eq (pos : Nat) : endOfLine text pos = pos + (lineOf (xs.drop pos)).length := by
  rw [endOfLine, ← htext, ← List.map_drop, ← map_lineOf, List.length_map]

lemma lineOf_drop_endOfLine (pos : Nat) : lineOf (xs.drop (endOfLine text pos)) = [] := by
  rw [endOfLine_eq htext, ← List.drop_drop]
  exact lineOf_drop_lineOf _

lemma mem_lineOf_of_lt {pos p : Nat} (hle : pos ≤ p) (hlt : p < endOfLine text pos) :
    ∃ x ∈ lineOf (xs.drop pos), xs[p]? = some x := by
  rw [endOfLine_eq htext] at hlt
  have hi : p - pos < (lineOf (xs.drop pos)).length := by omega
  refine ⟨_, List.getElem_mem hi, ?_⟩
  have hp := List.prefix_iff_getElem?.mp (List.takeWhile_prefix _) (p - pos) hi
  rwa [List.getElem?_drop, Nat.add_sub_cancel' hle] at hp

/-- A directive stops behind a period. -/
lemma suffix_of_endsAt {pos stop : Nat} (hends : Directive.EndsAt text pos stop) :
    ∃ x : TracedChar, x.1 = '.' ∧ x :: xs.drop stop <:+ xs := by
  have hafter := hends.after
  have hperiod := hends.period
  rw [← htext, List.getElem?_map] at hperiod
  obtain ⟨x, hx, hdot⟩ := Option.map_eq_some_iff.mp hperiod
  have hdrop : xs.drop (stop - 1) = x :: xs.drop stop := by
    rw [List.drop_eq_getElem?_toList_append, hx, Nat.sub_add_cancel (by omega)]
    rfl
  exact ⟨x, hdot, hdrop ▸ List.drop_suffix _ _⟩

variable (hw : WrittenText xs)
include hw

/-- If a directive is followed by a comment on its line, it ends in that comment, and the comment
takes up the rest of the line. -/
lemma isComment_of_endsAt {pos stop : Nat} (hends : Directive.EndsAt text pos stop)
    (hsome : ∃ y ∈ lineOf (xs.drop stop), y.isComment = true) {p : Nat} (hle : stop ≤ p)
    (hlt : p < endOfLine text stop) : ∃ x ∈ xs[p]?, x.isComment = true := by
  obtain ⟨x, hdot, hsuffix⟩ := suffix_of_endsAt htext hends
  obtain ⟨y, hy, hp⟩ := mem_lineOf_of_lt htext hle hlt
  exact ⟨y, hp, hw.isComment_of_period hdot hsuffix hsome y hy⟩

lemma exists_isComment_of_getElem? {pos : Nat} (h : ∃ x ∈ xs[pos]?, x.isComment = true) :
    pos < endOfLine text pos ∧ ∃ y ∈ lineOf (xs.drop pos), y.isComment = true := by
  obtain ⟨x, hx, hcomment⟩ := h
  have hdrop : xs.drop pos = x :: xs.drop (pos + 1) := by
    rw [List.drop_eq_getElem?_toList_append, hx]
    rfl
  have hne : x.1 ≠ '\n' := by
    intro hnewline
    simp [hw.not_isComment_newline (List.mem_of_getElem? hx) hnewline] at hcomment
  rw [endOfLine_eq htext, hdrop, lineOf_cons hne]
  exact ⟨by simp, x, List.mem_cons_self, hcomment⟩

/-- A plain token that reaches the end of a line leaves comments guarded. -/
lemma guarded_of_endOfLine {pos last : Nat} {t : Token} {rest : List Char}
    (hnext : Token.next? false pos (text.drop pos) = some (t, rest)) (hle : pos ≤ last)
    (hline : lineOf (xs.drop last) = []) (hstop : last ≤ t.stop) : Guarded (xs.drop t.stop) := by
  obtain ⟨hfound, hstart, -⟩ := Token.foundIn_of_next? hnext
  have hmem : ∀ {p y}, xs[p]? = some y → last ≤ p → p < t.stop → y.1 ∈ t.text := by
    intro p y hp h1 h2
    have hchar : text[p]? = some y.1 := by
      rw [← htext, List.getElem?_map, hp]
      rfl
    exact hfound.mem_text hchar (by omega) h2
  rw [← Nat.add_sub_cancel' hstop, ← List.drop_drop]
  apply (guarded_of_lineOf_eq_nil hline).drop_blanks
    (hw.guardedLines.of_suffix (List.drop_suffix _ _))
  intro x hx
  obtain ⟨i, hi⟩ := List.mem_iff_getElem?.mp hx
  rw [List.getElem?_take, List.getElem?_drop] at hi
  split at hi
  · -- The token holds the line feed, so it is white space.
    have hlast : last < xs.length := by
      have := (List.getElem?_eq_some_iff.mp hi).1
      omega
    have hnewline : xs[last].1 = '\n' := by
      by_contra hne
      rw [List.drop_eq_getElem_cons hlast, lineOf_cons hne] at hline
      simp at hline
    have hcross := hmem (List.getElem?_eq_getElem hlast) (Nat.le_refl _) (by omega)
    rw [hnewline] at hcross
    exact Token.isBlank_of_newline_mem hnext hcross _ (hmem hi (by omega) (by omega))
  · simp at hi

/-- Whether no word of a comment can be acted on from an offset up to the next end of a line. -/
def Harmless (d : Dialect) (xs : List TracedChar) (pos : Nat) : Prop :=
  Guarded (xs.drop pos) ∨ ∃ last, pos < last ∧ lineOf (xs.drop last) = [] ∧
    ∀ o, Item.Quiet d (xs.map (·.1)) o pos last

/-- A keyword that is acted on stands in no comment. -/
lemma Harmless.not_isComment {d : Dialect} {pos : Nat} (h : Harmless d xs pos) {t : Token}
    {rest : List Char} (hnext : Token.next? false pos (text.drop pos) = some (t, rest))
    {options : Bool} (hk : Item.keyword? d text options t ≠ none) :
    ∀ x ∈ xs[pos]?, x.isComment = false := by
  obtain ⟨k, hk⟩ := Option.ne_none_iff_exists'.mp hk
  have hword := (Item.keyword?_eq_some hk).1
  have hrest := (Token.foundIn_of_next? hnext).2.2
  rcases h with h | ⟨last, hlt, -, hquiet⟩
  · exact (guarded_stop_of_next? htext hw.guardedLines h hnext).2 hword
  · rw [htext] at hquiet
    rw [hrest] at hnext
    simp [((hquiet options).next hlt hnext).1] at hk

/-- Plain tokens keep to what is harmless. -/
lemma Harmless.step {d : Dialect} {pos : Nat} (h : Harmless d xs pos) {t : Token}
    (hnext : Token.next? false pos (text.drop pos) = some (t, text.drop t.stop)) {options : Bool}
    {stop : Nat} (hstop : (Item.readToken d text options t (text.drop t.stop)).stop? = some stop)
    (hplain : (Item.readToken d text options t (text.drop t.stop)).directiveStop? = none) :
    Harmless d xs stop := by
  obtain ⟨hfound, hstart, -⟩ := Token.foundIn_of_next? hnext
  rcases h with h | ⟨last, hlt, hline, hquiet⟩
  · have hguarded := (guarded_stop_of_next? htext hw.guardedLines h hnext).1
    exact .inl (guarded_stop_of_readToken htext hw.guardedLines hfound hguarded hstop hplain)
  · rw [htext] at hquiet
    have hkeep : t.stop = stop := by
      rw [Item.readToken_eq, ((hquiet options).next hlt hnext).1] at hstop
      exact Option.some.inj hstop
    rw [← hkeep]
    by_cases hwithin : t.stop < last
    · refine .inr ⟨last, hwithin, hline, fun o => ?_⟩
      rw [htext]
      exact ((hquiet o).next hlt hnext).2
    · exact .inl (guarded_of_endOfLine htext hw hnext (by omega) hline (by omega))

/-- A directive is harmless unless it ends in a comment with keywords in the rest of it. -/
lemma harmless_of_endsAt {d : Dialect} {pos stop : Nat} (hends : Directive.EndsAt text pos stop)
    {options : Bool} (hquiet : (∃ x ∈ xs[stop]?, x.isComment = true) →
      Item.Quiet d text options stop (endOfLine text stop)) : Harmless d xs stop := by
  by_cases hsome : ∃ y ∈ lineOf (xs.drop stop), y.isComment = true
  · have hlt : stop < endOfLine text stop := by
      obtain ⟨y, hy, -⟩ := hsome
      have := List.length_pos_of_mem hy
      rw [endOfLine_eq htext]
      omega
    have hstop := isComment_of_endsAt htext hw hends hsome (Nat.le_refl _) hlt
    refine .inr ⟨_, hlt, lineOf_drop_endOfLine htext stop, fun o u hu hu' => ?_⟩
    rw [htext] at hu ⊢
    have hstarts := Item.startsLine_of_period (Nat.zero_lt_of_lt hends.after) hends.period
      (Token.bounds_of_mem_tokens hu).1 hu'
    rw [Item.keyword?_eq_of_not_startsLine d hstarts o options]
    exact hquiet hstop u hu hu'
  · exact .inl fun h => absurd h hsome

/-- If every directive is harmless, no step acts on a word of a comment. -/
lemma not_isComment_of_reads {d : Dialect} {options : Bool} {pos : Nat} {steps : List Item.Step}
    (h : Item.Reads d text options pos steps) (hpos : Harmless d xs pos)
    (hquiet : ∀ s ∈ steps, ∀ stop, s.reading.directiveStop? = some stop →
      (∃ x ∈ xs[stop]?, x.isComment = true) →
        Item.Quiet d text s.options stop (endOfLine text stop)) :
    ∀ s ∈ steps, Item.keyword? d text s.options s.token ≠ none →
      ∀ x ∈ xs[s.token.start]?, x.isComment = false := by
  -- Every step starts where it is harmless to go on.
  have hharmless : ∀ s ∈ steps, Harmless d xs s.token.start := by
    apply h.holds_at_steps hpos
    intro s hs hstart stop hstop
    obtain ⟨hnext, hreading⟩ := h.next_of_mem s hs
    cases hdirective : s.reading.directiveStop? with
    | none =>
      rw [hreading] at hstop hdirective
      exact hstart.step htext hw hnext hstop hdirective
    | some last =>
      have hlast : some last = some stop :=
        (Item.Reading.stop?_of_directiveStop? hdirective).symm.trans hstop
      rw [← Option.some.inj hlast]
      have hends := hdirective
      rw [hreading] at hends
      exact harmless_of_endsAt htext hw
        (Item.endsAt_of_directiveStop? (Token.foundIn_of_next? hnext).1 hends)
        (hquiet s hs last hdirective)
  intro s hs hk
  exact (hharmless s hs).not_isComment htext hw (h.next_of_mem s hs).1 hk

/-- If some directive is not harmless, some step acts on a word of a comment. -/
lemma exists_isComment_of_not_quiet {d : Dialect} {options : Bool} {pos : Nat}
    {steps : List Item.Step} (h : Item.Reads d text options pos steps) {s : Item.Step}
    (hs : s ∈ steps) {stop : Nat} (hstop : s.reading.directiveStop? = some stop)
    (hcomment : ∃ x ∈ xs[stop]?, x.isComment = true)
    (hkeyword : ¬Item.Quiet d text s.options stop (endOfLine text stop)) :
    ∃ s ∈ steps, Item.keyword? d text s.options s.token ≠ none ∧
      ∃ x ∈ xs[s.token.start]?, x.isComment = true := by
  obtain ⟨hends, later, hlater, hsub⟩ := Item.reads_after h hs hstop
  have hstarts : ∀ p, stop ≤ p → p < endOfLine text stop → Item.startsLine text p = false :=
    fun p => Item.startsLine_of_period (Nat.zero_lt_of_lt hends.after) hends.period
  obtain ⟨u, hu, hle, hlt, hk⟩ := Item.exists_step_of_keyword hlater s.options hstarts hkeyword
  have hsome := (exists_isComment_of_getElem? htext hw hcomment).2
  exact ⟨u, hsub hu, hk, isComment_of_endsAt htext hw hends hsome hle hlt⟩

end Scan

namespace SourceUnit

/-- No word of a comment is acted on in a unit, except behind a directive that ends in the same
comment; and there the first keyword is acted on. -/
theorem comments_unread_iff {r : LineRules} {name : String} {text : List Char}
    {unit : SourceUnit} (h : SourceUnit.read r name text = .ok unit) (options : Bool) :
    (∀ s ∈ Item.steps r.dialect options unit.written.text,
      Item.keyword? r.dialect unit.written.text s.options s.token ≠ none →
        ¬unit.written.InComment s.token.start) ↔
    ∀ s ∈ Item.steps r.dialect options unit.written.text, ∀ stop,
      s.reading.directiveStop? = some stop → unit.written.InComment stop →
        Item.Quiet r.dialect unit.written.text s.options stop
          (endOfLine unit.written.text stop) := by
  have hwell := (SourceUnit.standsIn_written h).1
  have hw := SourceUnit.writtenText h
  have htext := unit.written.map_fst_trace
  have hreads := Item.reads_stepsFrom r.dialect unit.written.text options (Nat.zero_le _)
  rw [List.drop_zero, ← Item.steps] at hreads
  simp only [hwell.inComment_iff]
  constructor
  · intro hunread s hs stop hstop hcomment
    by_contra hkeyword
    obtain ⟨u, hu, hk, hin⟩ :=
      exists_isComment_of_not_quiet htext hw hreads hs hstop hcomment hkeyword
    exact hunread u hu hk hin
  · rintro hquiet s hs hk ⟨x, hx, hcomment⟩
    have hpos : Harmless r.dialect unit.written.trace 0 := .inl hw.guarded
    have := not_isComment_of_reads htext hw hreads hpos hquiet s hs hk x hx
    simp [this] at hcomment

/-- A directive whose pseudo-text is closed in a comment, with a keyword behind it. -/
def overrunText : List Char :=
  ['R', 'E', 'P', 'L', 'A', 'C', 'E', ' ', '=', '=', 'A', '\n',
    '*', '>', '=', '=', ' ', 'B', 'Y', ' ', 'B', '.', ' ', 'E', 'X', 'E', 'C', '\n']

set_option maxRecDepth 20000 in
/-- The keyword is acted on, although it stands in a comment. -/
theorem comments_unread_iff_overrun :
    ∃ unit, SourceUnit.read ⟨.free, .ansi85, false⟩ "main" overrunText = .ok unit ∧
      unit.written.text = overrunText ∧
      ¬∀ s ∈ Item.steps .ansi85 true unit.written.text,
        Item.keyword? .ansi85 unit.written.text s.options s.token ≠ none →
          ¬unit.written.InComment s.token.start := by
  have hok : (SourceUnit.read ⟨.free, .ansi85, false⟩ "main" overrunText).toOption.map
      (fun u => (u.written.text, u.written.extents.any fun e => e.isComment && e.covers 22)) =
        some (overrunText, true) := by
    cbv
  have hdirective : (Item.steps .ansi85 true overrunText).any
      (fun s => s.options && s.reading.directiveStop? == some 22) = true := by
    cbv
  have hkeyword : (Token.tokens false 22 (overrunText.drop 22)).any (fun u =>
      u.start < endOfLine overrunText 22 && (Item.keyword? .ansi85 overrunText true u).isSome) =
        true := by
    cbv
  cases hread : SourceUnit.read ⟨.free, .ansi85, false⟩ "main" overrunText with
  | error fault => simp [hread, Except.toOption] at hok
  | ok unit =>
    simp only [hread, Except.toOption, Option.map_some, Option.some.injEq, Prod.mk.injEq,
      List.any_eq_true, Bool.and_eq_true] at hok
    obtain ⟨htext, e, he, hcomment⟩ := hok
    refine ⟨unit, rfl, htext, fun hunread => ?_⟩
    have hquiet := (comments_unread_iff hread true).mp hunread
    rw [htext] at hquiet
    simp only [List.any_eq_true, Bool.and_eq_true, beq_iff_eq] at hdirective
    obtain ⟨s, hs, hoptions, hstop⟩ := hdirective
    simp only [List.any_eq_true, Bool.and_eq_true, decide_eq_true_eq] at hkeyword
    obtain ⟨u, hu, hlt, hsome⟩ := hkeyword
    have hnone := hquiet s hs 22 hstop ⟨e, he, hcomment⟩ u hu hlt
    rw [hoptions] at hnone
    simp [hnone] at hsome

end SourceUnit

end CobolText
