import CobolText.Proofs.Stretches

/-!
# Characters on their way through the expansion

Expansion never makes an origin of its own: it cuts text out, puts it behind further inclusions,
joins it, and exchanges it for what a rule writes, which stands for the first character exchanged.
So a property of characters that outlasts an exchange, and that holds of text that is made up, holds
of all output as soon as it holds of what goes in.
-/

namespace CobolText

/-- Whether a property of characters holds of what is made up, and passes on to what a rule writes
in the place of a character. -/
structure Hereditary (P : TracedChar → Prop) : Prop where
  made : ∀ c, P (c, none)
  replaced : ∀ {d o}, P (d, some o) → ∀ c, P (c, some o.replaced)

namespace TracedText

/-- An origin that a lookup gives belongs to a character of the text. -/
lemma Proper.mem_trace_of_originAt? {t : TracedText} (ht : t.Proper) {i : Nat} {o : Origin}
    (h : t.map.originAt? i = some o) : ∃ c, (c, some o) ∈ t.trace := by
  have hlt : i < t.text.length := by
    rw [OriginMap.originAt?_eq] at h
    obtain ⟨e, he, -⟩ := Option.map_eq_some_iff.mp h
    obtain ⟨hmem, -, hi⟩ := Extent.covers_of_at? he
    have hstop := (ht e hmem).2.2
    omega
  have hget : t.trace[i]? = some (t.text[i], some o) := by
    rw [getElem?_trace, List.getElem?_eq_getElem hlt, Option.map_some, h]
  exact ⟨_, List.mem_of_getElem? hget⟩

lemma forall_rewritten {P : TracedChar → Prop} (hP : Hereditary P) {t : TracedText}
    (ht : t.Proper) (h : ∀ x ∈ t.trace, P x) (pos : Nat) (es : List Edit) :
    ∀ x ∈ Edit.rewritten t pos es, P x := by
  induction es generalizing pos with
  | nil =>
    intro x hx
    exact h x (List.mem_of_mem_drop hx)
  | cons e es ih =>
    intro x hx
    simp only [Edit.rewritten, List.mem_append] at hx
    rcases hx with (hx | hx) | hx
    · exact h x (List.mem_of_mem_take (List.mem_of_mem_drop hx))
    · obtain ⟨c, -, rfl⟩ := List.mem_map.mp hx
      cases ho : t.map.originAt? e.start with
      | none => exact hP.made c
      | some o =>
        obtain ⟨d, hd⟩ := ht.mem_trace_of_originAt? ho
        exact hP.replaced (h _ hd) c
    · exact ih e.stop x hx

lemma forall_trace_replace {P : TracedChar → Prop} (hP : Hereditary P) {t : TracedText}
    (ht : t.WellFormed) (h : ∀ x ∈ t.trace, P x) (rules : List ReplacementRule) :
    ∀ x ∈ (t.replace rules).trace, P x := by
  rw [trace_replace ht]
  exact forall_rewritten hP ht.proper h 0 _

lemma forall_trace_cut {P : TracedChar → Prop} {t : TracedText} (ht : t.WellFormed)
    {start stop : Nat} (hstop : stop ≤ t.text.length) {inclusions : List String}
    (h : ∀ x ∈ (t.trace.take stop).drop start, P (x.within inclusions)) :
    ∀ x ∈ (t.cut start stop inclusions).trace, P x := by
  rw [t.trace_cut ht.nonempty start hstop]
  intro x hx
  obtain ⟨y, hy, rfl⟩ := List.mem_map.mp hx
  exact h y hy

end TracedText

lemma Expansion.forall_trace_splice {P : TracedChar → Prop} (hP : Hereditary P) {book : TracedText}
    (hbook : book.WellFormed) {name : String} (h : ∀ x ∈ book.trace, P (x.within [name]))
    (text : List Char) (stop : Nat) : ∀ f ∈ splice text stop name book, ∀ x ∈ f.trace, P x := by
  apply forall_splice
  · intro last hlast
    have hslice : ∀ x ∈ (book.trace.take last).drop 0, P (x.within [name]) :=
      fun x hx => h x (List.mem_of_mem_take (List.mem_of_mem_drop hx))
    exact TracedText.forall_trace_cut hbook hlast hslice
  · intro made x hx
    rw [Fragment.trace_synthetic] at hx
    obtain ⟨c, -, rfl⟩ := List.mem_map.mp hx
    exact hP.made c

namespace Progress

/-- Output and waiting text that are well-formed and whose characters all have a property. -/
structure Carries (P : TracedChar → Prop) (p : Progress) : Prop where
  wellFormed : ∀ f ∈ p.output ++ p.pending, f.WellFormed
  holds : ∀ f ∈ p.output ++ p.pending, ∀ x ∈ f.trace, P x

variable {P Q : TracedChar → Prop} {p : Progress}

lemma carries_initial : initial.Carries P :=
  ⟨by simp [initial], by simp [initial]⟩

lemma Carries.imp (hp : p.Carries P) (h : ∀ x, P x → Q x) : p.Carries Q :=
  ⟨hp.wellFormed, fun f hf x hx => h x (hp.holds f hf x hx)⟩

lemma Carries.push (hp : p.Carries P) {fs : List Fragment} (hwell : ∀ f ∈ fs, f.WellFormed)
    (hfs : ∀ f ∈ fs, ∀ x ∈ f.trace, P x) : (p.push fs).Carries P := by
  have hmem : ∀ f ∈ (p.push fs).output ++ (p.push fs).pending,
      f ∈ fs ∨ f ∈ p.output ++ p.pending := by
    intro f hf
    simp only [Progress.push, List.mem_append, List.mem_reverse] at hf ⊢
    tauto
  constructor
  · intro f hf
    rcases hmem f hf with hf | hf
    · exact hwell f hf
    · exact hp.wellFormed f hf
  · intro f hf
    rcases hmem f hf with hf | hf
    · exact hfs f hf
    · exact hp.holds f hf

/-- The waiting text as one text. -/
lemma Carries.waiting (hp : p.Carries P) :
    (TracedText.assemble p.pending.reverse).WellFormed ∧
      ∀ x ∈ (TracedText.assemble p.pending.reverse).trace, P x := by
  have hmem : ∀ f ∈ p.pending.reverse, f ∈ p.output ++ p.pending :=
    fun f hf => List.mem_append_right _ (List.mem_reverse.mp hf)
  have hwell : ∀ f ∈ p.pending.reverse, f.WellFormed := fun f hf => hp.wellFormed f (hmem f hf)
  refine ⟨TracedText.wellFormed_assemble hwell, ?_⟩
  rw [TracedText.trace_assemble fun f hf => (hwell f hf).proper]
  intro x hx
  obtain ⟨f, hf, hx⟩ := List.mem_flatMap.mp hx
  exact hp.holds f (hmem f hf) x hx

lemma Carries.flush (hP : Hereditary P) (hp : p.Carries P) : p.flush.Carries P := by
  obtain ⟨hwell, hholds⟩ := hp.waiting
  have hreplaced := hwell.replace p.levels.flatten
  have hmem : ∀ f ∈ p.output, f ∈ p.output ++ p.pending :=
    fun f hf => List.mem_append_left _ hf
  unfold Progress.flush
  simp only
  split
  · exact hp
  · constructor
    · intro f hf
      rw [List.append_nil] at hf
      rcases List.mem_cons.mp hf with rfl | hf
      · exact hreplaced.whole []
      · exact hp.wellFormed f (hmem f hf)
    · intro f hf
      rw [List.append_nil] at hf
      rcases List.mem_cons.mp hf with rfl | hf
      · rw [TracedText.trace_whole _ hreplaced.nonempty]
        exact TracedText.forall_trace_replace hP hwell hholds _
      · exact hp.holds f (hmem f hf)

lemma Carries.finish (hP : Hereditary P) (hp : p.Carries P) :
    p.finish.WellFormed ∧ ∀ x ∈ p.finish.trace, P x := by
  have hflush := hp.flush hP
  have hmem : ∀ f ∈ p.flush.output.reverse, f ∈ p.flush.output ++ p.flush.pending :=
    fun f hf => List.mem_append_left _ (List.mem_reverse.mp hf)
  have hwell : ∀ f ∈ p.flush.output.reverse, f.WellFormed :=
    fun f hf => hflush.wellFormed f (hmem f hf)
  refine ⟨TracedText.wellFormed_assemble hwell, ?_⟩
  rw [Progress.finish, TracedText.trace_assemble fun f hf => (hwell f hf).proper]
  intro x hx
  obtain ⟨f, hf, hx⟩ := List.mem_flatMap.mp hx
  exact hflush.holds f (hmem f hf) x hx

end Progress

end CobolText
