import CobolText.Proofs.BuiltMaps
import CobolText.Proofs.CommentWords

/-!
# Comments come through

No rule touches a comment, and a comment never holds the end of a line.  So a comment in text that
the directives of a unit keep comes out of the unit, and a comment that comes out of a copybook
comes out of the unit that includes it.  A run that has a result therefore shows the comments of
every unit it enters, each seen through the copybooks around it.
-/

namespace CobolText

lemma TracedChar.isComment_within (x : TracedChar) (inclusions : List String) :
    (x.within inclusions).isComment = x.isComment := by
  obtain ⟨c, o⟩ := x
  cases o <;> rfl

lemma TracedChar.within_within (x : TracedChar) (outer inner : List String) :
    (x.within inner).within outer = x.within (outer ++ inner) := by
  obtain ⟨c, o⟩ := x
  cases o with
  | none => rfl
  | some o => simp [TracedChar.within, Origin.within]

/-- Replacement keeps every character of a comment. -/
lemma TracedText.WellFormed.mem_trace_replace {t : TracedText} (ht : t.WellFormed) {x : TracedChar}
    (hx : x ∈ t.trace) (hcomment : x.isComment = true) (rules : List ReplacementRule) :
    x ∈ (t.replace rules).trace := by
  obtain ⟨i, hi⟩ := List.mem_iff_getElem?.mp hx
  have hin : t.InComment i := ht.inComment_iff.mpr ⟨x, hi, hcomment⟩
  rw [trace_replace ht]
  apply Edit.mem_rewritten_of_clear (Nat.zero_le i) hi
  intro e he hcovers
  obtain ⟨-, -, -, ⟨-, -, hadmissible⟩, -⟩ := (leftmost_edits ht rules).isFirst e he
  obtain ⟨extent, hmem, hextent, hat⟩ := hin
  obtain ⟨h1, h2⟩ := Extent.covers_iff.mp hat
  have hclear := hadmissible.origins extent hmem hextent
  omega

namespace Progress

variable {p : Progress} {x : TracedChar}

/-- Whether a character stands in the output or in the text that waits. -/
def Shows (p : Progress) (x : TracedChar) : Prop :=
  ∃ f ∈ p.output ++ p.pending, x ∈ f.trace

lemma Shows.push (h : p.Shows x) (fs : List Fragment) : (p.push fs).Shows x := by
  obtain ⟨f, hf, hx⟩ := h
  refine ⟨f, ?_, hx⟩
  simp only [Progress.push, List.mem_append] at hf ⊢
  tauto

lemma shows_push {f : Fragment} {fs : List Fragment} (hf : f ∈ fs) (hx : x ∈ f.trace) :
    (p.push fs).Shows x :=
  ⟨f, by simp [Progress.push, hf], hx⟩

/-- What waits goes through the rules in force, and its comments come out. -/
lemma Shows.flush {P : TracedChar → Prop} (hp : p.Carries P) (h : p.Shows x)
    (hcomment : x.isComment = true) : ∃ f ∈ p.flush.output, x ∈ f.trace := by
  obtain ⟨f, hf, hx⟩ := h
  have hwell := hp.waiting.1
  have htrace : (TracedText.assemble p.pending.reverse).trace =
      p.pending.reverse.flatMap Fragment.trace := by
    apply TracedText.trace_assemble
    intro g hg
    exact (hp.wellFormed g (List.mem_append_right _ (List.mem_reverse.mp hg))).proper
  have hwaits : f ∈ p.pending → x ∈ (TracedText.assemble p.pending.reverse).trace := by
    intro hpending
    rw [htrace]
    exact List.mem_flatMap.mpr ⟨f, List.mem_reverse.mpr hpending, hx⟩
  unfold Progress.flush
  simp only
  split
  · rename_i hempty
    rcases List.mem_append.mp hf with hf | hf
    · exact ⟨f, hf, hx⟩
    · have hnil : (TracedText.assemble p.pending.reverse).trace = [] := by
        apply List.eq_nil_of_length_eq_zero
        rw [TracedText.length_trace, List.isEmpty_iff.mp hempty]
        rfl
      have hmem := hwaits hf
      rw [hnil] at hmem
      exact absurd hmem (by simp)
  · rcases List.mem_append.mp hf with hf | hf
    · exact ⟨f, List.mem_cons_of_mem _ hf, hx⟩
    · refine ⟨_, List.mem_cons_self .., ?_⟩
      rw [TracedText.trace_whole _ (hwell.replace _).nonempty]
      simpa using hwell.mem_trace_replace (hwaits hf) hcomment p.levels.flatten

lemma Shows.finish {P : TracedChar → Prop} (hp : p.Carries P) (hP : Hereditary P) (h : p.Shows x)
    (hcomment : x.isComment = true) : x ∈ p.finish.trace := by
  obtain ⟨f, hf, hx⟩ := h.flush hp hcomment
  rw [Progress.finish, TracedText.trace_assemble]
  · exact List.mem_flatMap.mpr ⟨f, List.mem_reverse.mpr hf, hx⟩
  · intro g hg
    exact ((hp.flush hP).wellFormed g (List.mem_append_left _ (List.mem_reverse.mp hg))).proper

end Progress

lemma Returns.unique {σ α : Type} {x : Run (StateM σ) α} {w w₁ w₂ : World σ} {a b : α}
    (h : Returns x w a w₁) (h' : Returns x w b w₂) : a = b ∧ w₁ = w₂ := by
  rw [Returns] at h h'
  rw [h] at h'
  simp only [Prod.mk.injEq, Except.ok.injEq] at h'
  exact ⟨h'.1.1, Prod.ext h'.1.2 h'.2⟩

namespace Expansion

variable {σ : Type} {files : FileAccess (StateM σ)} {r : RunRules}

/-- The end of a line belongs to no comment, wherever it comes out. -/
lemma carried_newline : Carried files r fun _ _ x => x.isComment = true → x.1 ≠ '\n' where
  hereditary _ _ := by
    constructor
    · intro c hcomment
      exact absurd hcomment (by simp [TracedChar.isComment])
    · intro d o _ c hcomment
      exact absurd hcomment (by simp [TracedChar.isComment, Origin.isComment, Origin.replaced])
  grows _ _ h := h
  own := by
    intro s hread w x hx hcomment hnewline
    have hout := (SourceUnit.writtenText hread).not_isComment_newline hx.mem hnewline
    rw [hout] at hcomment
    exact absurd hcomment (by simp)
  included := by
    intro s b name path _ w _ x h hcomment
    rw [TracedChar.isComment_within] at hcomment
    exact h hcomment

/-- A copybook is put into the place of its directive up to the end of its last line. -/
lemma exists_mem_splice {book : TracedText} (hbook : book.WellFormed) {x : TracedChar}
    (hx : x ∈ book.trace) (hnewline : x.1 ≠ '\n') (text : List Char) (stop : Nat) (name : String) :
    ∃ f ∈ splice text stop name book, x.within [name] ∈ f.trace := by
  have hcut : ∀ last : Nat, last ≤ book.text.length → x ∈ book.trace.take last →
      x.within [name] ∈ (book.cut 0 last [name]).trace := by
    intro last hlast hmem
    have htrace := book.trace_cut hbook.nonempty 0 hlast [name]
    rw [Nat.cast_zero] at htrace
    rw [htrace]
    exact List.mem_map_of_mem (by simpa using hmem)
  have hall : x ∈ book.trace.take book.text.length := by
    rw [← book.length_trace, List.take_length]
    exact hx
  unfold splice
  simp only
  split
  · refine ⟨_, List.mem_singleton_self _, hcut _ (by split <;> omega) ?_⟩
    split
    · rename_i hends
      -- The one character that is left out is the end of the last line.
      rw [← book.length_trace, ← List.dropLast_eq_take]
      rcases List.eq_nil_or_concat book.trace with hnil | ⟨front, last, hlast⟩
      · rw [hnil] at hx
        exact absurd hx (by simp)
      · rw [List.concat_eq_append] at hlast
        rw [← book.map_fst_trace, hlast] at hends
        rw [hlast] at hx ⊢
        rw [List.dropLast_concat]
        rcases List.mem_append.mp hx with hx | hx
        · exact hx
        · rw [List.mem_singleton.mp hx] at hnewline
          exact absurd (by simpa using hends) hnewline
    · exact hall
  · exact ⟨_, List.mem_cons_self .., hcut _ (Nat.le_refl _) hall⟩

lemma carryOut_shows {levels : Nat} {stack : List Inclusion} {t : TracedText} {p p' : Progress}
    {item : Item} {w w' : World σ} {x : TracedChar} {P : TracedChar → Prop} (hp : p.Carries P)
    (h : Returns (carryOut files r (below files r levels) stack t p item) w p' w')
    (hshows : p.Shows x) (hcomment : x.isComment = true) : p'.Shows x := by
  obtain ⟨start, stop, -, rfl, -⟩ | ⟨effect, -, rfl, -⟩ |
    ⟨keyword, clause, stop, book, -, -, rfl⟩ := carryOut_returns h
  · exact hshows.push _
  · obtain ⟨f, hf, hx⟩ := hshows.flush hp hcomment
    exact ⟨f, List.mem_append_left _ hf, hx⟩
  · obtain ⟨f, hf, hx⟩ := hshows.push (splice t.text stop clause.name book)
    exact ⟨f, hf, hx⟩

namespace Stage

/-- Whether a run that stands at a stage carries out all that is left of the unit, and the unit
comes out as `out`. -/
def Completes (files : FileAccess (StateM σ)) (r : RunRules) (s : Stage σ) (out : TracedText) :
    Prop :=
  ∃ q w', Returns (s.items.foldlM
    (carryOut files r (below files r s.levels) s.stack s.unit.written) s.progress) s.world q w' ∧
    out = q.finish

lemma completes_enter {levels : Nat} {stack : List Inclusion} {unit : SourceUnit}
    {w w' : World σ} {out : TracedText}
    (h : Returns (expandUnit files r levels stack unit) w out w') (text : List Char) :
    (enter r levels stack text unit w).Completes files r out := by
  obtain ⟨copies, h⟩ := expandUnit_returns h
  obtain ⟨p, hfold, hresult⟩ := expandDocument_returns h
  exact ⟨p, w', hfold, (Prod.mk.inj hresult).1⟩

lemma Completes.unique {s : Stage σ} {out out' : TracedText} (h : s.Completes files r out)
    (h' : s.Completes files r out') : out = out' := by
  obtain ⟨q, w, hreturns, rfl⟩ := h
  obtain ⟨q', w', hreturns', rfl⟩ := h'
  rw [(hreturns.unique hreturns').1]

lemma Completes.item {levels : Nat} {stack : List Inclusion} {text : List Char}
    {unit : SourceUnit} {p : Progress} {item : Item} {items : List Item} {w : World σ}
    {out : TracedText}
    (h : Completes files r ⟨levels, stack, text, unit, p, item :: items, w⟩ out) :
    ∃ p' w', Returns (carryOut files r (below files r levels) stack unit.written p item) w p' w' ∧
      Completes files r ⟨levels, stack, text, unit, p', items, w'⟩ out := by
  obtain ⟨q, w', h, hout⟩ := h
  obtain ⟨p₁, w₁, hstep, h⟩ := Returns.bind_iff.mp h
  exact ⟨p₁, w₁, hstep, q, w', h, hout⟩

lemma Completes.mem_of_shows {s : Stage σ} {out : TracedText} (h : s.Completes files r out)
    (hs : s.Sound r) {x : TracedChar} (hshows : s.progress.Shows x)
    (hcomment : x.isComment = true) : x ∈ out.trace := by
  obtain ⟨levels, stack, text, unit, p, items, w⟩ := s
  induction items generalizing p w with
  | nil =>
    obtain ⟨q, w', h, rfl⟩ := h
    obtain ⟨rfl, rfl⟩ := Returns.pure_iff.mp h
    exact hshows.finish hs.carries ⟨fun _ => trivial, fun _ _ => trivial⟩ hcomment
  | cons item items ih =>
    obtain ⟨p', w', hstep, hrest⟩ := h.item
    exact ih p' w' hrest (hs.next (.item hstep)) (carryOut_shows hs.carries hstep hshows hcomment)

lemma Completes.mem_of_kept {s : Stage σ} {out : TracedText} (h : s.Completes files r out)
    (hs : s.Sound r) {start stop : Nat} (hmem : .kept start stop ∈ s.items) {x : TracedChar}
    (hx : x ∈ (s.unit.written.trace.take stop).drop start) (hcomment : x.isComment = true) :
    x ∈ out.trace := by
  obtain ⟨levels, stack, text, unit, p, items, w⟩ := s
  induction items generalizing p w with
  | nil => exact absurd hmem (by simp)
  | cons item items ih =>
    obtain ⟨p', w', hstep, hrest⟩ := h.item
    have hs' := hs.next (.item hstep)
    rcases List.mem_cons.mp hmem with rfl | hmem
    · obtain ⟨hp', -⟩ := Returns.pure_iff.mp hstep
      apply hrest.mem_of_shows hs' _ hcomment
      rw [hp']
      apply Progress.shows_push (List.mem_singleton_self _)
      have hlast := Item.kept_stop_le (hs.kept start stop (by simp))
      rw [TracedText.trace_cut _ hs.written.nonempty start hlast, TracedChar.within_nil,
        List.map_id]
      exact hx
    · exact ih p' w' hrest hs' hmem hx

/-- The copybook that a run finds, loads and reads for a directive is the one that it expands when
it carries out the directive. -/
lemma returns_of_found {levels : Nat} {stack : List Inclusion} {clause : CopyClause}
    {position : Option Position} {path : Path} {source : List Char}
    {unit : SourceUnit} {book : TracedText} {w w₁ w₂ w' : World σ}
    (h : Returns (includeBook files r (below files r (levels + 1)) stack clause position)
      w book w')
    (found : (r.plan.find files clause.name clause.library position).run w.2 = (.ok path, w₁.2))
    (same : w₁.1 = w.1) (loaded : Returns (loadBook files r path) w₁ source w₂)
    (read : SourceUnit.read r.toLineRules path.render source = .ok unit) :
    ∃ out, Returns (expandUnit files r levels
      (stack ++ [⟨clause.name, clause.library, some path⟩]) unit) w₂ out w' ∧
      book = out.replace clause.rules := by
  obtain ⟨expandText, path', source', out, w₁', w₂', hsome, hstate, hfound, -, hload, hinner,
    rfl⟩ := includeBook_returns h
  obtain rfl := Option.some.inj hsome
  rw [found, Prod.mk.injEq, Except.ok.injEq] at hfound
  obtain ⟨rfl, hfiles⟩ := hfound
  obtain rfl : w₁ = w₁' := Prod.ext (same.trans hstate.symm) hfiles
  obtain ⟨rfl, rfl⟩ := loaded.unique hload
  obtain ⟨unit', w₃, hunit, hexpand⟩ := Returns.bind_iff.mp hinner
  obtain ⟨hread, rfl⟩ := readUnit_returns.mp hunit
  rw [read, Except.ok.injEq] at hread
  rw [hread]
  exact ⟨out, hexpand, rfl⟩

/-- What a run that completes a stage comes to: it completes the stage it goes on to, and the
comments that come out there come out here. -/
lemma Completes.next {s s' : Stage σ} {out : TracedText} (h : s.Completes files r out)
    (hs : s.Sound r) (hnext : Next files r s s') :
    ∃ out' inner, s'.stack = s.stack ++ inner ∧ s'.Completes files r out' ∧
      ∀ x ∈ out'.trace, x.isComment = true →
        x.within (inner.map Inclusion.name) ∈ out.trace := by
  cases hnext with
  | item carried =>
    obtain ⟨p', w', hstep, hrest⟩ := h.item
    obtain ⟨rfl, rfl⟩ := hstep.unique carried
    refine ⟨out, [], (List.append_nil _).symm, hrest, fun x hx _ => ?_⟩
    rw [List.map_nil, TracedChar.within_nil]
    exact hx
  | @book levels stack text source unit book p keyword clause stop items path w w₁ w₂ found same
      fresh loaded read =>
    obtain ⟨p', w', hstep, hrest⟩ := h.item
    have hrestSound := hs.next (.item hstep)
    obtain ⟨included, hincluded, rfl⟩ := copy_returns_iff.mp hstep
    obtain ⟨out', hexpand, rfl⟩ := returns_of_found hincluded found same loaded read
    obtain ⟨-, hwell, hnewline⟩ := expandUnit_carries carried_newline levels _ source _ _ _ _
      (SourceUnit.read_name read) hexpand
    refine ⟨out', _, rfl, completes_enter hexpand source, fun x hx hcomment => ?_⟩
    -- The comment outlasts the rules of the directive, and is not the line end that a splice drops.
    have hbook := hwell.mem_trace_replace hx hcomment clause.rules
    obtain ⟨f, hf, hmem⟩ := exists_mem_splice (hwell.replace clause.rules) hbook
      (hnewline x hx hcomment) unit.written.text stop clause.name
    have hshows : (p.push (splice unit.written.text stop clause.name
        (out'.replace clause.rules))).Shows (x.within [clause.name]) :=
      Progress.shows_push hf hmem
    apply hrest.mem_of_shows hrestSound hshows
    rw [TracedChar.isComment_within]
    exact hcomment

/-- Of every unit that a run enters, the comments that come out of it come out of the run. -/
lemma Completes.reaches {s b : Stage σ} {out : TracedText} (h : s.Completes files r out)
    (hs : s.Sound r) (hreached : s.Reaches files r b) :
    ∃ out' inner, b.stack = s.stack ++ inner ∧ b.Completes files r out' ∧
      ∀ x ∈ out'.trace, x.isComment = true →
        x.within (inner.map Inclusion.name) ∈ out.trace := by
  induction hreached with
  | refl =>
    refine ⟨out, [], (List.append_nil _).symm, h, fun x hx _ => ?_⟩
    rw [List.map_nil, TracedChar.within_nil]
    exact hx
  | tail hreached hnext ih =>
    obtain ⟨out₁, inner₁, hstack₁, hcompletes₁, hcomes₁⟩ := ih
    obtain ⟨out₂, inner₂, hstack₂, hcompletes₂, hcomes₂⟩ :=
      hcompletes₁.next (hs.reaches hreached) hnext
    refine ⟨out₂, inner₁ ++ inner₂, ?_, hcompletes₂, fun x hx hcomment => ?_⟩
    · rw [hstack₂, hstack₁, List.append_assoc]
    · have hcomes := hcomes₁ _ (hcomes₂ x hx hcomment)
        (by rw [TracedChar.isComment_within]; exact hcomment)
      rwa [TracedChar.within_within, ← List.map_append] at hcomes

end Stage

end Expansion

end CobolText
