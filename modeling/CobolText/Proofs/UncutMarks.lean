import CobolText.Proofs.FaultPositions
import CobolText.Proofs.InertComments
import CobolText.Proofs.WholeMarks

/-!
# Directives cut no marks

A unit that is written out is composed: in front of the content of a line stand spaces and perhaps a
mark, and all of the content has an origin.  The text that the directives of a unit keep starts and
ends outside of marks.  A statement starts with a keyword, which comes from a source; it ends with a
period, with the line, or with a token that was read past the marks.
-/

namespace CobolText

namespace Composed

variable {α : Type} {M : List Char → List (Option α) → Prop} {f : Nat → Option α}

/-- A text with its offsets as sources, and a text behind it. -/
lemma append_offsets {n : Nat} {xs ys : List TracedChar}
    (hxs : Composed M ((List.range' n xs.length).map f) xs)
    (hys : Composed M ((List.range' (n + xs.length) ys.length).map f) ys) :
    Composed M ((List.range' n (xs ++ ys).length).map f) (xs ++ ys) := by
  rw [List.length_append, ← List.range'_append_1, List.map_append]
  exact hxs.append hys

end Composed

namespace LogicalLine

lemma marker_mark {d : Dialect} {format : SourceFormat} {file : String} {text : List Char}
    {u : LogicalLine} (hu : u.ReadFrom d format file text) (debugging : Bool) :
    (u.mark debugging).marker = [] ∨ (u.mark debugging).marker ∈ commentMarks := by
  unfold mark
  by_cases hentry : u.commentEntry = true
  · simp [hentry, commentMarks]
  by_cases hout : u.isCommentedOut debugging = true
  · by_cases htagged : Text.commentMark.isPrefixOf (Text.trimLeft u.content) = true
    · simp [hentry, hout, htagged]
    · simp [hentry, hout, htagged, commentMarks]
  · rw [if_neg hentry, if_neg hout]
    exact .inl hu.marker

/-- A line that is written out is composed. -/
lemma composed_fragments {α : Type} {M : List Char → List (Option α) → Prop} {f : Nat → Option α}
    {l : LogicalLine} (hl : l.marker = [] ∨ l.marker ∈ commentMarks) (indent n : Nat)
    (hM : M l.marker ((List.range' (n + indent) l.marker.length).map f)) :
    Composed M ((List.range' n ((l.fragments indent).flatMap Fragment.trace).length).map f)
      ((l.fragments indent).flatMap Fragment.trace) := by
  rw [trace_fragments, List.map_append]
  have hspaces : ((Text.spaces indent).map fun c => ((c, none) : TracedChar)).length = indent := by
    rw [List.length_map]
    exact List.length_replicate
  apply Composed.append_offsets
  · apply Composed.append_offsets
    · apply Composed.append_offsets
      · apply Composed.of_plain
        · rw [List.length_map, List.length_range']
        · intro x hx
          obtain ⟨c, hc, rfl⟩ := List.mem_map.mp hx
          exact .inr (.inl (List.eq_of_mem_replicate hc))
      · rw [hspaces, List.length_map]
        rcases hl with hnil | hmark
        · rw [hnil]
          exact .nil
        · have hwhole := Composed.mark hmark hM (by rw [List.length_map, List.length_range']) .nil
          rwa [List.append_nil, List.append_nil] at hwhole
    · apply Composed.of_plain
      · rw [List.length_map, List.length_range']
      · intro x hx
        obtain ⟨o, horigin, -⟩ := exists_origin_of_mem_body hx
        exact .inl (by simp [horigin])
  · exact .char (.inr (.inr rfl)) .nil

end LogicalLine

namespace SourceUnit

/-- Whether the mark of a line of a unit stands at an offset of its text. -/
def MarkAt (r : LineRules) (unit : SourceUnit) (mark : List Char) (offset : Nat) : Prop :=
  ∃ before l after, unit.lines = before ++ l :: after ∧ l.marker = mark ∧
    offset = (LogicalLine.write r.dialect r.format before).text.length +
      (r.dialect.layout r.format).indentWidth

/-- A unit is composed, with the marks that stand in front of its lines. -/
lemma composed_written {α : Type} {M : List Char → List (Option α) → Prop} {f : Nat → Option α}
    {r : LineRules} {name : String} {text : List Char} {unit : SourceUnit}
    (h : SourceUnit.read r name text = .ok unit)
    (hM : ∀ mark offset, unit.MarkAt r mark offset →
      M mark ((List.range' offset mark.length).map f)) :
    Composed M ((List.range unit.written.text.length).map f) unit.written.trace := by
  obtain ⟨hwritten, hlines⟩ := SourceUnit.lines_of_read h
  have hrest : ∀ before after, unit.lines = before ++ after →
      Composed M ((List.range' (LogicalLine.write r.dialect r.format before).text.length
        (LogicalLine.write r.dialect r.format after).trace.length).map f)
        (LogicalLine.write r.dialect r.format after).trace := by
    intro before after hsplit
    induction after generalizing before with
    | nil => exact .nil
    | cons l after ih =>
      obtain ⟨u, hu, hl⟩ := hlines l (by simp [hsplit])
      have hmarker := LogicalLine.marker_mark hu r.debugging
      rw [← hl] at hmarker
      have hline := LogicalLine.composed_fragments hmarker _ _
        (hM l.marker _ ⟨before, l, after, hsplit, rfl, rfl⟩)
      have hlater := ih (before ++ [l]) (by simp [hsplit])
      rw [← TracedText.length_trace, LogicalLine.trace_write, List.flatMap_append,
        List.flatMap_singleton, List.length_append, ← LogicalLine.trace_write] at hlater
      rw [LogicalLine.trace_write, List.flatMap_cons, ← LogicalLine.trace_write,
        ← TracedText.length_trace (LogicalLine.write r.dialect r.format before)]
      rw [← TracedText.length_trace (LogicalLine.write r.dialect r.format before)] at hline
      exact hline.append_offsets hlater
  have hall := hrest [] unit.lines rfl
  rw [← hwritten, TracedText.length_trace] at hall
  rw [List.range_eq_range']
  exact hall

end SourceUnit

section Cuts

variable {d : Dialect} {text : List Char} {options : Bool} {steps : List Item.Step}

/-- From a guarded place on, the next token with a meaning is read where comments are guarded. -/
lemma guarded_of_nextSignificant? {xs : List TracedChar} (htext : xs.map (·.1) = text)
    (hlines : GuardedLines xs) {pos : Nat} (h : Guarded (xs.drop pos)) {t : Token}
    {rest : List Char}
    (hnext : Token.nextSignificant? false pos (text.drop pos) = some (t, rest)) :
    Guarded (xs.drop t.start) ∧
      Token.next? false t.start (text.drop t.start) = some (t, text.drop t.stop) := by
  generalize hs : text.drop pos = s at hnext
  generalize hpseudo : false = pseudo at hnext ⊢
  fun_induction Token.nextSignificant? pseudo pos s with
  | case1 => simp at hnext
  | case2 pos s u urest hu hblank ih =>
    rw [← hs, ← hpseudo] at hu
    exact ih (guarded_stop_of_next? htext hlines h hu).1
      (Token.foundIn_of_next? hu).2.2.symm hnext
  | case3 pos s u urest hu hblank =>
    rw [← hs] at hu
    simp only [Option.some.injEq, Prod.mk.injEq] at hnext
    obtain ⟨-, hstart, hrest⟩ := Token.foundIn_of_next? hu
    rw [← hnext.1, hstart, ← hrest]
    exact ⟨h, hu⟩

variable {xs : List TracedChar} (hxs : Shaded xs) (htext : xs.map (·.1) = text)
include hxs htext

omit hxs in
/-- A token of the program that is read past the marks does not end inside of one. -/
lemma not_insideMark_of_next? {pos : Nat}
    (h : Guarded ((xs.map TracedChar.shaded).drop pos)) {t : Token} {rest : List Char}
    (hnext : Token.next? false pos (text.drop pos) = some (t, rest))
    (hkind : t.kind ∈ TokenKind.program) : ¬InsideMark xs t.stop := by
  intro hinside
  obtain ⟨c, -, hbefore, -, hblank, -⟩ := hinside.neighbours
  have hbounds := (Token.foundIn_of_next? hnext).1.bounds
  have hshaded := (map_fst_shaded xs).trans htext
  have hplain := not_isComment_of_next? hshaded h hnext hkind (p := t.stop - 1) (by omega)
    (by omega) (TracedChar.shaded (c, none)) (by rw [List.getElem?_map, hbefore]; rfl)
  rw [TracedChar.isComment_shaded, TracedChar.isInserted, hblank] at hplain
  simp at hplain

lemma Shaded.not_insideMark_pastOptional {kind : TokenKind} (hkind : kind ∈ TokenKind.program)
    {pos : Nat} (h : Guarded ((xs.map TracedChar.shaded).drop pos)) (hpos : ¬InsideMark xs pos) :
    ¬InsideMark xs (Item.pastOptional kind pos (text.drop pos)) := by
  unfold Item.pastOptional
  split
  · rename_i t rest hnext
    split
    · rename_i hsame
      have hshaded := (map_fst_shaded xs).trans htext
      obtain ⟨hguarded, hread⟩ := guarded_of_nextSignificant? hshaded hxs.lines h hnext
      apply not_insideMark_of_next? htext hguarded hread
      rwa [beq_iff_eq.mp hsame]
    · exact hpos
  · exact hpos

/-- A listing statement does not end inside of a mark. -/
lemma Shaded.not_insideMark_endOfListing {t : Token}
    (h : Guarded ((xs.map TracedChar.shaded).drop t.start))
    (hnext : Token.next? false t.start (text.drop t.start) = some (t, text.drop t.stop))
    (hword : t.kind = .word) :
    ¬InsideMark xs (Item.endOfListing t (text.drop t.stop)) := by
  have hshaded := (map_fst_shaded xs).trans htext
  have hkeyword : ¬InsideMark xs t.stop :=
    not_insideMark_of_next? htext h hnext (by simp [hword, TokenKind.program])
  have hguarded := (guarded_stop_of_next? hshaded hxs.lines h hnext).1
  have hbounds := (Token.foundIn_of_next? hnext).1.bounds
  unfold Item.endOfListing
  dsimp only
  by_cases htitle : (t.upper == "TITLE") = true
  · have hstop := (Item.pastOptional_bounds .literal hbounds.2).1
    rw [if_pos htitle, List.drop_drop, Nat.add_sub_cancel' hstop]
    apply hxs.not_insideMark_pastOptional htext (by simp [TokenKind.program])
    · exact guarded_pastOptional hshaded hxs.lines .literal hguarded
    · exact hxs.not_insideMark_pastOptional htext (by simp [TokenKind.program]) hguarded hkeyword
  · rw [if_neg htitle, Nat.sub_self, List.drop_zero]
    exact hxs.not_insideMark_pastOptional htext (by simp [TokenKind.program]) hguarded hkeyword

/-- No keyword starts inside of a mark; it comes from a source. -/
lemma Shaded.not_insideMark_start (h : Item.Reads d text options 0 steps) :
    ∀ s ∈ steps, Item.keyword? d text s.options s.token ≠ none → ¬InsideMark xs s.token.start := by
  intro s hs hk hinside
  obtain ⟨-, c, -, hat, -⟩ := hinside.neighbours
  have hsome := hxs.isSome_of_reads htext h s hs hk _ hat
  exact absurd hsome (by simp)

/-- No statement ends inside of a mark. -/
lemma Shaded.not_insideMark_stop (h : Item.Reads d text options 0 steps) :
    ∀ s ∈ steps, ∀ stop, s.reading.cutStop? = some stop → ¬InsideMark xs stop := by
  intro s hs stop hcut
  obtain ⟨hnext, hreading⟩ := h.next_of_mem s hs
  have hfound := (Token.foundIn_of_next? hnext).1
  have hperiod : ∀ {pos}, Directive.EndsAt text pos stop → ¬InsideMark xs stop := by
    intro pos hends hinside
    obtain ⟨c, -, hbefore, -, -, hne, -⟩ := hinside.neighbours
    have hdot := hends.period
    rw [← htext, List.getElem?_map, hbefore] at hdot
    exact hne (Option.some.inj hdot)
  rw [hreading, Item.readToken_eq] at hcut
  cases hk : Item.keyword? d text s.options s.token with
  | none => simp [hk, Item.Reading.cutStop?] at hcut
  | some k =>
    have hword := (Item.keyword?_eq_some hk).1
    simp only [hk] at hcut
    cases k with
    | exec =>
      simp only [Item.readStatement] at hcut
      split at hcut <;> cases hcut
    | copy =>
      simp only [Item.readStatement] at hcut
      split at hcut
      · rename_i hclause
        obtain rfl := Option.some.inj hcut
        exact hperiod (Directive.copyClause_endsAt hclause)
      · cases hcut
    | replace =>
      simp only [Item.readStatement] at hcut
      split at hcut
      · rename_i heffect
        obtain rfl := Option.some.inj hcut
        exact hperiod (Directive.ruleChange_endsAt heffect)
      · cases hcut
    | listing =>
      obtain rfl := Option.some.inj hcut
      exact hxs.not_insideMark_endOfListing htext (hxs.guarded_of_reads htext h s hs) hnext hword
    | option =>
      obtain rfl := Option.some.inj hcut
      intro hinside
      -- The statement goes up to the end of the line.
      obtain ⟨-, c, -, hat, -, -, hne⟩ := hinside.neighbours
      have hline := lineOf_drop_endOfLine htext s.token.stop
      rw [endOfLine, List.drop_eq_getElem?_toList_append, hat, Option.toList_some,
        List.singleton_append, lineOf_cons hne] at hline
      cases hline

end Cuts

/-- What the directives of a unit keep starts and ends outside of marks. -/
lemma SourceUnit.not_insideMark_of_kept {r : LineRules} {name : String} {text : List Char}
    {unit : SourceUnit} (h : SourceUnit.read r name text = .ok unit) {options : Bool}
    {start stop : Nat} (hitem : .kept start stop ∈ Item.ofText r.dialect options unit.written.text) :
    ¬InsideMark unit.written.trace start ∧ ¬InsideMark unit.written.trace stop := by
  rw [Passage.items_eq] at hitem
  obtain ⟨passage, hpassage, hkept⟩ := List.mem_filterMap.mp hitem
  obtain rfl : passage = .kept start stop := by
    cases passage <;> simp_all [Passage.item?]
  have hreads := Item.reads_stepsFrom r.dialect unit.written.text options (Nat.zero_le _)
  have hshaded := SourceUnit.shaded h
  refine Passage.kept_cuts (P := fun n => ¬InsideMark unit.written.trace n) hreads ?_
    (hshaded.not_insideMark_start unit.written.map_fst_trace hreads)
    (hshaded.not_insideMark_stop unit.written.map_fst_trace hreads) ?_ hpassage
  · intro hinside
    obtain ⟨-, c, -, hat, -⟩ := hinside.neighbours
    have hlt := (List.getElem?_eq_some_iff.mp hat).1
    rw [TracedText.length_trace] at hlt
    omega
  · rintro ⟨mark, -, a, -, hlt, -⟩
    omega

end CobolText
