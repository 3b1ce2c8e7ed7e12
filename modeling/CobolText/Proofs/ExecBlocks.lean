import CobolText.Proofs.EntryProse
import CobolText.Proofs.SourceOrder

/-!
# `EXEC` blocks

Reading a document never looks for directives inside an `EXEC` block: the block lies in one passage
that is kept, and so in one stretch of the document.  But it is not kept from the rules in force
there.  A block that no edit of the rules meets comes out unchanged and in its place, as every block
does where no rules are in force; and a character of a block that an edit exchanges is lost, because
no other character of the output has its position.
-/

namespace CobolText

/-- The position of a character that came through no copybook and that no rule wrote. -/
def TracedChar.kept? (x : TracedChar) : Option Position :=
  x.2.bind fun o => if o.marks.replaced then none else o.main?

/-- The positions of the characters that came through no copybook and that no rule wrote. -/
def keptPositions (xs : List TracedChar) : List Position :=
  xs.filterMap TracedChar.kept?

lemma keptPositions_append (xs ys : List TracedChar) :
    keptPositions (xs ++ ys) = keptPositions xs ++ keptPositions ys :=
  List.filterMap_append

lemma keptPositions_sublist (xs : List TracedChar) :
    (keptPositions xs).Sublist (mainPositions xs) := by
  rw [keptPositions, mainPositions, List.filterMap_eq_flatMap_toList,
    List.filterMap_eq_flatMap_toList]
  apply List.Sublist.flatMap_right
  rintro ⟨c, o⟩ -
  cases o with
  | none => exact List.Sublist.refl _
  | some o =>
    simp only [TracedChar.kept?, Option.bind_some]
    split
    · exact List.nil_sublist _
    · exact List.Sublist.refl _

lemma drop_take_split {α : Type} (xs : List α) {first mid last : Nat} (h : first ≤ mid)
    (h' : mid ≤ last) :
    (xs.take last).drop first = (xs.take mid).drop first ++ (xs.take last).drop mid := by
  have hsplit := drop_split (xs.take last) h
  rwa [List.take_take, Nat.min_eq_left h'] at hsplit

namespace Edit

variable {t : TracedText} {pos : Nat} {es : List Edit}

lemma Ordered.bounds {length : Nat} (h : Ordered length pos es) :
    ∀ e ∈ es, pos ≤ e.start ∧ e.start ≤ e.stop ∧ e.stop ≤ length := by
  induction es generalizing pos with
  | nil => simp
  | cons e es ih =>
    obtain ⟨h1, h2, h3, hrest⟩ := h
    intro x hx
    rcases List.mem_cons.mp hx with rfl | hx
    · exact ⟨h1, h2, h3⟩
    · have := ih hrest x hx
      omega

/-- Edits that keep clear of an interval leave it as it is, behind what the edits before it make of
the text in front of it. -/
lemma rewritten_of_clear {first last : Nat} (h : Ordered t.text.length pos es) (hpos : pos ≤ first)
    (hle : first ≤ last) (hclear : ∀ e ∈ es, e.stop ≤ first ∨ last ≤ e.start) :
    ∃ earlier later left, es = earlier ++ later ∧
      rewritten t pos earlier = left ++ t.trace.drop first ∧
      rewritten t pos es = left ++ (t.trace.take last).drop first ++ rewritten t last later := by
  induction es generalizing pos with
  | nil =>
    refine ⟨[], [], (t.trace.take first).drop pos, rfl, drop_split _ hpos, ?_⟩
    rw [rewritten, rewritten, List.append_assoc, ← drop_split _ hle, ← drop_split _ hpos]
  | cons e es ih =>
    obtain ⟨h1, h2, h3, hrest⟩ := h
    by_cases hbefore : e.stop ≤ first
    · obtain ⟨earlier, later, left, hes, hfront, hall⟩ :=
        ih hrest hbefore fun x hx => hclear x (by simp [hx])
      refine ⟨e :: earlier, later, (t.trace.take e.start).drop pos ++
        e.rule.replacement.map (fun c => (c, (t.map.originAt? e.start).map Origin.replaced)) ++
        left, ?_, ?_, ?_⟩
      · rw [hes, List.cons_append]
      · rw [rewritten, hfront, List.append_assoc _ left]
      · rw [rewritten, hall]
        simp only [List.append_assoc]
    · have hbehind : last ≤ e.start := (hclear e (by simp)).resolve_left hbefore
      refine ⟨[], e :: es, (t.trace.take first).drop pos, rfl, drop_split _ hpos, ?_⟩
      rw [rewritten, rewritten, drop_take_split t.trace hpos (show first ≤ e.start by omega),
        drop_take_split t.trace hle hbehind]
      simp only [List.append_assoc]

lemma keptPositions_replacement (text : List Char) (o : Option Origin) :
    keptPositions (text.map fun c => (c, o.map Origin.replaced)) = [] := by
  rw [keptPositions, List.filterMap_map, List.filterMap_eq_nil_iff]
  intro c _
  cases o <;> rfl

/-- Edits leave no more than the characters that are there. -/
lemma keptPositions_rewritten (h : Ordered t.text.length pos es) :
    (keptPositions (rewritten t pos es)).Sublist (mainPositions (t.trace.drop pos)) := by
  induction es generalizing pos with
  | nil => exact keptPositions_sublist _
  | cons e es ih =>
    obtain ⟨h1, h2, -, hrest⟩ := h
    rw [rewritten, keptPositions_append, keptPositions_append, keptPositions_replacement,
      List.append_nil, drop_split t.trace h1, mainPositions_append]
    apply List.Sublist.append (keptPositions_sublist _)
    exact (ih hrest).trans ((List.drop_sublist_drop_left _ h2).filterMap _)

/-- Edits leave nothing of a character that one of them exchanges. -/
lemma keptPositions_rewritten_of_mem {i : Nat} (h : Ordered t.text.length pos es) {e : Edit}
    (he : e ∈ es) (hstart : e.start ≤ i) (hstop : i < e.stop) :
    (keptPositions (rewritten t pos es)).Sublist
      (mainPositions ((t.trace.take i).drop pos) ++ mainPositions (t.trace.drop (i + 1))) := by
  induction es generalizing pos with
  | nil => simp at he
  | cons x es ih =>
    obtain ⟨h1, h2, -, hrest⟩ := h
    rw [rewritten, keptPositions_append, keptPositions_append, keptPositions_replacement,
      List.append_nil]
    rcases List.mem_cons.mp he with rfl | he
    · apply List.Sublist.append
      · refine (keptPositions_sublist _).trans (List.Sublist.filterMap _ ?_)
        exact (List.take_sublist_take_left hstart).drop pos
      · refine (keptPositions_rewritten hrest).trans (List.Sublist.filterMap _ ?_)
        exact List.drop_sublist_drop_left _ hstop
    · have hbounds := hrest.bounds e he
      rw [drop_take_split t.trace h1 (show x.start ≤ i by omega), mainPositions_append,
        List.append_assoc]
      apply List.Sublist.append (keptPositions_sublist _)
      refine (ih hrest he).trans (List.Sublist.append ?_ (List.Sublist.refl _))
      exact (List.drop_sublist_drop_left _ h2).filterMap _

end Edit

namespace Passage

/-- Where reading goes well, the first passage is text that is kept, up to where reading stands or
further. -/
lemma exists_kept_first {d : Dialect} {text : List Char} {options : Bool} {start pos : Nat}
    {steps : List Item.Step} (h : Item.Reads d text options pos steps)
    (hok : ∀ keyword defect, malformed keyword defect ∉ ofSteps start pos steps) :
    ∃ last, pos ≤ last ∧ kept start last ∈ ofSteps start pos steps := by
  induction h with
  | done => exact ⟨_, Nat.le_refl _, by simp [ofSteps]⟩
  | @step options pos stop t steps next goesOn rest ih =>
    have hfound := (Token.foundIn_of_next? next).1
    have hstart := (Token.next?_eq_some next).1
    have hstop := Item.stop_bounds hfound goesOn
    have hbounds := hfound.bounds
    simp only [ofSteps] at hok ⊢
    generalize Item.readToken d text options t (text.drop t.stop) = reading at goesOn hok ⊢
    cases reading with
    | keep last later =>
      obtain rfl := Option.some.inj goesOn
      obtain ⟨reached, hle, hmem⟩ := ih hok
      exact ⟨reached, by omega, hmem⟩
    | malformed defect => simp [Item.Reading.stop?] at goesOn
    | _ => exact ⟨t.start, by omega, by simp⟩
  | @stuck options pos t defect next hmalformed =>
    exact absurd (malformed_mem_ofSteps start pos t options defect) (hok t defect)

/-- Where reading goes well, what a step keeps lies in one passage. -/
lemma exists_kept {d : Dialect} {text : List Char} {options : Bool} {start pos : Nat}
    {steps : List Item.Step} (h : Item.Reads d text options pos steps) (hle : start ≤ pos)
    (hok : ∀ keyword defect, malformed keyword defect ∉ ofSteps start pos steps) {s : Item.Step}
    (hs : s ∈ steps) {stop : Nat} {later : Bool} (hkeep : s.reading = .keep stop later) :
    ∃ first last, kept first last ∈ ofSteps start pos steps ∧ first ≤ s.token.start ∧
      stop ≤ last := by
  induction h generalizing start with
  | done => simp at hs
  | @step options pos next' t steps next goesOn rest ih =>
    have hstart := (Token.next?_eq_some next).1
    have hfound := (Token.foundIn_of_next? next).1
    have hstop := Item.stop_bounds hfound goesOn
    have hbounds := hfound.bounds
    simp only [ofSteps] at hok ⊢
    generalize Item.readToken d text options t (text.drop t.stop) = reading
      at goesOn hok hs rest ih ⊢
    rcases List.mem_cons.mp hs with rfl | hlater
    · simp only at hkeep
      subst hkeep
      obtain rfl := Option.some.inj goesOn
      obtain ⟨last, hlast, hmem⟩ := exists_kept_first rest hok
      exact ⟨start, last, hmem, by simp only; omega, hlast⟩
    · cases reading with
      | keep last after =>
        obtain rfl := Option.some.inj goesOn
        exact ih (by omega) hok hlater
      | malformed defect => simp [Item.Reading.stop?] at goesOn
      | _ =>
        obtain rfl := Option.some.inj goesOn
        obtain ⟨first, last, hmem, hfirst, hlast⟩ := ih (Nat.le_refl _)
          (fun keyword defect hbad => hok keyword defect (by simp [hbad])) hlater
        exact ⟨first, last, by simp [hmem], hfirst, hlast⟩
  | @stuck options pos t defect next hmalformed =>
    rw [List.mem_singleton.mp hs] at hkeep
    simp at hkeep

end Passage

/-- Whether reading a document takes the text from `start` to `stop` as an `EXEC` block, from the
keyword through its `END-EXEC`. -/
def Item.IsExecBlock (d : Dialect) (options : Bool) (text : List Char) (start stop : Nat) : Prop :=
  ∃ s ∈ Item.steps d options text, Item.keyword? d text s.options s.token = some .exec ∧
    s.token.start = start ∧ Item.endOfExec? s.token.stop (text.drop s.token.stop) = some stop

/-- A block lies in the text, and in one passage of the document if that can be read. -/
lemma Item.IsExecBlock.exists_kept {d : Dialect} {options : Bool} {text : List Char}
    {start stop : Nat} (h : IsExecBlock d options text start stop)
    (hok : ∀ keyword defect, .malformed keyword defect ∉ Passage.ofText d options text) :
    start ≤ stop ∧ ∃ first last, Passage.kept first last ∈ Passage.ofText d options text ∧
      first ≤ start ∧ stop ≤ last := by
  obtain ⟨s, hs, hkeyword, rfl, hstop⟩ := h
  have hreads := Item.reads_stepsFrom d text options (Nat.zero_le _)
  rw [List.drop_zero, ← Item.steps] at hreads
  obtain ⟨hnext, hreading⟩ := hreads.next_of_mem s hs
  have hfound := (Token.foundIn_of_next? hnext).1
  rw [readToken_eq, hkeyword] at hreading
  simp only [readStatement, hstop] at hreading
  have hbounds := hfound.bounds
  have hexec := endOfExec?_bounds hstop
  refine ⟨by omega, ?_⟩
  exact Passage.exists_kept hreads (Nat.le_refl _) hok hs hreading

namespace Expansion

variable {σ : Type} {files : FileAccess (StateM σ)} {r : RunRules}
  {expand : Option (Expander (StateM σ))} {stack : List Inclusion} {t : TracedText}
  {w w' : World σ} {ps : List Passage} {ss : List (List Fragment)}

/-- Text that is kept lies in one stretch. -/
lemma Stretches.exists_of_kept (h : Stretches files r expand stack t w ps ss w')
    {start stop : Nat} (hmem : .kept start stop ∈ ps) :
    ∃ before front back after, ss = before ++ (front ++ t.cut start stop [] :: back) :: after := by
  induction h with
  | done => simp at hmem
  | @kept first last w w' ps fs ss rest ih =>
    rcases List.mem_cons.mp hmem with heq | hmem
    · cases heq
      exact ⟨[], [], fs, ss, rfl⟩
    · obtain ⟨before, front, back, after, hss⟩ := ih hmem
      cases before with
      | nil =>
        obtain ⟨rfl, rfl⟩ := List.cons.inj hss
        exact ⟨[], t.cut first last [] :: front, back, ss, rfl⟩
      | cons head before =>
        obtain ⟨rfl, rfl⟩ := List.cons.inj hss
        exact ⟨(t.cut first last [] :: fs) :: before, front, back, after, rfl⟩
  | removed rest ih => exact ih (by simpa using hmem)
  | @copy last keyword clause w w₁ w' book ps fs ss included rest ih =>
    obtain ⟨before, front, back, after, hss⟩ := ih (by simpa using hmem)
    cases before with
    | nil =>
      obtain ⟨rfl, rfl⟩ := List.cons.inj hss
      exact ⟨[], splice t.text last clause.name book ++ front, back, ss, by simp⟩
    | cons head before =>
      obtain ⟨rfl, rfl⟩ := List.cons.inj hss
      exact ⟨(splice t.text last clause.name book ++ fs) :: before, front, back, after, rfl⟩
  | @change last keyword effect w w' ps ss rest ih =>
    obtain ⟨before, front, back, after, hss⟩ := ih (by simpa using hmem)
    exact ⟨[] :: before, front, back, after, by rw [hss, List.cons_append]⟩

lemma Stretches.proper (h : Stretches files r expand stack t w ps ss w')
    (hstop : ∀ start stop, .kept start stop ∈ ps → stop ≤ t.text.length) :
    ∀ fs ∈ ss, ∀ f ∈ fs, f.Proper := by
  induction h with
  | done => simp
  | @kept first last w w' ps fs ss rest ih =>
    have hrest := ih fun start stop hmem => hstop start stop (by simp [hmem])
    have hcut := t.proper_cut first (hstop first last (by simp)) []
    rw [List.forall_mem_cons] at hrest ⊢
    exact ⟨List.forall_mem_cons.mpr ⟨hcut, hrest.1⟩, hrest.2⟩
  | removed rest ih => exact ih fun start stop hmem => hstop start stop (by simp [hmem])
  | @copy last keyword clause w w₁ w' book ps fs ss included rest ih =>
    have hrest := ih fun start stop hmem => hstop start stop (by simp [hmem])
    rw [List.forall_mem_cons] at hrest ⊢
    refine ⟨fun f hf => ?_, hrest.2⟩
    rcases List.mem_append.mp hf with hf | hf
    · exact proper_splice _ _ _ _ f hf
    · exact hrest.1 f hf
  | change rest ih =>
    have hrest := ih fun start stop hmem => hstop start stop (by simp [hmem])
    exact List.forall_mem_cons.mpr ⟨by simp, hrest⟩

/-- The stretches of a document use its own characters in their order. -/
lemma Stretches.mainPositions_sublist (h : Stretches files r expand stack t w ps ss w')
    (ht : t.WellFormed) {first last : Nat} (htile : Passage.Tile first ps last)
    (hlast : last ≤ t.text.length) :
    (mainPositions (ss.flatMap fun fs => fs.flatMap Fragment.trace)).Sublist
      (mainPositions (t.trace.drop first)) := by
  induction h generalizing first with
  | done => exact List.nil_sublist _
  | @kept start stop w w' ps fs ss rest ih =>
    have hstop : stop ≤ last := htile.stop_le (List.mem_cons_self ..)
    obtain ⟨rfl, hle, hrest⟩ := htile
    have htrace : (t.cut start stop []).trace = (t.trace.take stop).drop start := by
      rw [t.trace_cut ht.nonempty start (Nat.le_trans hstop hlast), TracedChar.within_nil,
        List.map_id]
    have hsplit := drop_split t.trace (show start ≤ stop from hle)
    have hrest := ih hrest
    rw [List.flatMap_cons] at hrest
    rw [List.flatMap_cons, List.flatMap_cons, htrace, List.append_assoc,
      mainPositions_append ((t.trace.take stop).drop start), Passage.start, hsplit,
      mainPositions_append ((t.trace.take stop).drop start)]
    exact List.Sublist.append (List.Sublist.refl _) hrest
  | removed rest ih =>
    obtain ⟨rfl, hle, hrest⟩ := htile
    exact (ih hrest).trans ((List.drop_sublist_drop_left _ hle).filterMap _)
  | copy included rest ih =>
    obtain ⟨rfl, hle, hrest⟩ := htile
    have hrest := ih hrest
    rw [List.flatMap_cons] at hrest
    rw [List.flatMap_cons, List.flatMap_append, List.append_assoc, mainPositions_append,
      mainPositions_splice, List.nil_append]
    exact hrest.trans ((List.drop_sublist_drop_left _ hle).filterMap _)
  | change rest ih =>
    obtain ⟨rfl, hle, hrest⟩ := htile
    rw [List.flatMap_cons, List.flatMap_nil, List.nil_append]
    exact (ih hrest).trans ((List.drop_sublist_drop_left _ hle).filterMap _)

/-- What rules leave of some stretches are characters of these stretches. -/
lemma keptPositions_rendered (hproper : ∀ fs ∈ ss, ∀ f ∈ fs, f.Proper)
    (rs : List (List ReplacementRule)) :
    (keptPositions (List.zipWith rendered ss rs).flatten).Sublist
      (mainPositions (ss.flatMap fun fs => fs.flatMap Fragment.trace)) := by
  induction ss generalizing rs with
  | nil => exact List.nil_sublist _
  | cons fs ss ih =>
    cases rs with
    | nil => exact List.nil_sublist _
    | cons rules rs =>
      have hfs := hproper fs (by simp)
      rw [List.zipWith_cons_cons, List.flatten_cons, List.flatMap_cons, keptPositions_append,
        mainPositions_append]
      apply List.Sublist.append
      · rw [rendered, (TracedText.proper_assemble hfs).trace_replace,
          ← TracedText.trace_assemble hfs]
        have hkept := Edit.keptPositions_rewritten ((TracedText.assemble fs).ordered_edits rules)
        rwa [List.drop_zero] at hkept
      · exact ih (fun u hu => hproper u (by simp [hu])) rs

end Expansion

/-- How a block of a document comes out: it stands in a stretch, between `front` and `back`, the
rules in force make their edits in the stretch, and `left` and `right` is what the other stretches
come to. -/
structure PassedThrough (block : List TracedChar) (stretch : TracedText)
    (rules : List ReplacementRule) (front back left right out : List TracedChar) : Prop where
  stands : stretch.trace = front ++ (block ++ back)
  output : out = left ++ (Edit.rewritten stretch 0 (stretch.edits rules) ++ right)
  /-- If no edit meets the block, it comes out as it is, behind what the edits in front of it make
  of the text there. -/
  unchanged : (∀ e ∈ stretch.edits rules,
      e.stop ≤ front.length ∨ front.length + block.length ≤ e.start) →
    ∃ earlier later before, stretch.edits rules = earlier ++ later ∧
      Edit.rewritten stretch 0 earlier = before ++ (block ++ back) ∧
      out = left ++ (before ++ block ++
        Edit.rewritten stretch (front.length + block.length) later ++ right)
  /-- A character with an origin comes out with this origin just if no edit exchanges it. -/
  character : ∀ i c o, block[i]? = some (c, some o) → ((c, some o) ∈ out ↔
    ∀ e ∈ stretch.edits rules, ¬(e.start ≤ front.length + i ∧ front.length + i < e.stop))

/-- If the characters of the other stretches have other positions, a block comes out in this
way. -/
lemma passedThrough_of_nodup {block front back left right main₁ main₂ : List TracedChar}
    {stretch : TracedText} (hstands : stretch.trace = front ++ (block ++ back))
    (hplain : ∀ c o, (c, some o) ∈ block → o.marks.replaced = false ∧ o.marks.inclusions = [])
    (hleft : (keptPositions left).Sublist (mainPositions main₁))
    (hright : (keptPositions right).Sublist (mainPositions main₂))
    (hnodup : (mainPositions (main₁ ++ (stretch.trace ++ main₂))).Nodup)
    (rules : List ReplacementRule) :
    PassedThrough block stretch rules front back left right
      (left ++ (Edit.rewritten stretch 0 (stretch.edits rules) ++ right)) := by
  have hordered := stretch.ordered_edits rules
  have hat : ∀ {i : Nat} {x : TracedChar}, block[i]? = some x →
      stretch.trace[front.length + i]? = some x := by
    intro i x hx
    have hlt := (List.getElem?_eq_some_iff.mp hx).1
    rw [hstands, List.getElem?_append_right (Nat.le_add_right _ _), Nat.add_sub_cancel_left,
      List.getElem?_append_left hlt]
    exact hx
  refine ⟨hstands, rfl, fun hclear => ?_, fun i c o hx => ⟨fun hmem e he hcovers => ?_, ?_⟩⟩
  · obtain ⟨earlier, later, before, hes, hfront, hall⟩ := Edit.rewritten_of_clear hordered
      (Nat.zero_le _) (Nat.le_add_right _ block.length) hclear
    have hblock : (stretch.trace.take (front.length + block.length)).drop front.length = block := by
      rw [hstands, List.take_length_add_append, List.drop_left, List.take_left]
    have hback : stretch.trace.drop front.length = block ++ back := by
      rw [hstands, List.drop_left]
    rw [hback] at hfront
    rw [hblock] at hall
    exact ⟨earlier, later, before, hes, hfront, by rw [hall]⟩
  · -- An exchanged character could only come out in the place of one with the same position.
    obtain ⟨hreplaced, hmain⟩ := hplain c o (List.mem_of_getElem? hx)
    have hkept : TracedChar.kept? (c, some o) = some o.position := by
      simp [TracedChar.kept?, Origin.main?, hreplaced, hmain]
    have hposition : o.position ∈ keptPositions
        (left ++ (Edit.rewritten stretch 0 (stretch.edits rules) ++ right)) :=
      List.mem_filterMap.mpr ⟨_, hmem, hkept⟩
    have hrewritten := Edit.keptPositions_rewritten_of_mem hordered he hcovers.1 hcovers.2
    rw [List.drop_zero] at hrewritten
    rw [keptPositions_append, keptPositions_append] at hposition
    have hothers := (hleft.append (hrewritten.append hright)).subset hposition
    have hsplit : stretch.trace = stretch.trace.take (front.length + i) ++
        ([(c, some o)] ++ stretch.trace.drop (front.length + i + 1)) := by
      rw [← Option.toList_some, ← hat hx, ← List.drop_eq_getElem?_toList_append,
        List.take_append_drop]
    rw [hsplit] at hnodup
    simp only [mainPositions_append, mainPositions_singleton, Option.bind_some, Origin.main?,
      hmain, if_true, Option.toList_some, List.append_assoc] at hnodup
    rw [← List.append_assoc, List.singleton_append, List.nodup_middle, List.nodup_cons] at hnodup
    simp only [List.mem_append] at hothers hnodup
    tauto
  · intro hclear
    apply List.mem_append_right
    apply List.mem_append_left
    exact Edit.mem_rewritten_of_clear (Nat.zero_le _) (hat hx) hclear

lemma SourceUnit.nodup_written {r : LineRules} {name : String} {text : List Char}
    {unit : SourceUnit} (h : SourceUnit.read r name text = .ok unit) :
    (mainPositions unit.written.trace).Nodup := by
  apply (SourceUnit.pairwise_written h).imp
  rintro p q hbefore rfl
  rcases hbefore with hline | ⟨-, hcolumn⟩
  · exact absurd hline (Int.lt_irrefl _)
  · exact absurd hcolumn (Int.lt_irrefl _)

namespace Expansion

/-- A block inside text that is kept stands in the stretch of that text. -/
lemma trace_stretch {t : TracedText} (ht : t.WellFormed) {first start stop last : Nat}
    (hfirst : first ≤ start) (hle : start ≤ stop) (hstop : stop ≤ last)
    (hlast : last ≤ t.text.length) {front back : List Fragment}
    (hproper : ∀ f ∈ front ++ t.cut first last [] :: back, f.Proper) :
    (TracedText.assemble (front ++ t.cut first last [] :: back)).trace =
      (front.flatMap Fragment.trace ++ (t.trace.take start).drop first) ++
        ((t.trace.take stop).drop start ++
          ((t.trace.take last).drop stop ++ back.flatMap Fragment.trace)) := by
  have hcut : (t.cut first last []).trace = (t.trace.take start).drop first ++
      ((t.trace.take stop).drop start ++ (t.trace.take last).drop stop) := by
    rw [t.trace_cut ht.nonempty first hlast, TracedChar.within_nil, List.map_id,
      ← drop_take_split _ hle hstop, ← drop_take_split _ hfirst (by omega)]
  rw [TracedText.trace_assemble hproper, List.flatMap_append, List.flatMap_cons, hcut]
  simp only [List.append_assoc]

/-- Every stretch has its rules, and comes out between those before it and those behind. -/
lemma exists_rules {before after : List (List Fragment)} {fs : List Fragment}
    {rs : List (List ReplacementRule)} (h : (before ++ fs :: after).length = rs.length) :
    ∃ rulesBefore rules rulesAfter, rs = rulesBefore ++ rules :: rulesAfter ∧
      rulesBefore.length = before.length ∧
      (List.zipWith rendered (before ++ fs :: after) rs).flatten =
        (List.zipWith rendered before rulesBefore).flatten ++
          (rendered fs rules ++ (List.zipWith rendered after rulesAfter).flatten) := by
  induction before generalizing rs with
  | nil =>
    cases rs with
    | nil => simp at h
    | cons rules rs => exact ⟨[], rules, rs, rfl, rfl, rfl⟩
  | cons u before ih =>
    cases rs with
    | nil => simp at h
    | cons rules rs =>
      obtain ⟨rulesBefore, ruling, rulesAfter, rfl, hlength, hflatten⟩ :=
        ih (Nat.succ.inj h)
      refine ⟨rules :: rulesBefore, ruling, rulesAfter, rfl, congrArg (· + 1) hlength, ?_⟩
      simp only [List.cons_append, List.zipWith_cons_cons, List.flatten_cons, hflatten,
        List.append_assoc]

/-- `EXEC` blocks and the rules in force.  A block that reading recognizes stands in one stretch of
the document.  It comes out unchanged and in its place if no edit of the rules in force meets it;
and of its characters those are lost that an edit exchanges. -/
theorem exec_blocks_passed {σ : Type} (files : FileAccess (StateM σ)) (r : RunRules)
    (expand : Option (Expander (StateM σ))) (stack : List Inclusion) (name : String)
    (text : List Char) (unit : SourceUnit) (w w' : World σ) (out : TracedText) (copies : Nat)
    (hread : SourceUnit.read r.toLineRules name text = .ok unit)
    (h : Returns (expandDocument files r expand stack unit.written) w (out, copies) w')
    (start stop : Nat)
    (hblock : Item.IsExecBlock r.dialect (stack.length ≤ 1) unit.written.text start stop) :
    ∃ before fs after rulesBefore rules rulesAfter front back,
      Stretches files r expand stack unit.written w (passages r stack unit.written)
        (before ++ fs :: after) w' ∧
      Passage.rulesInForce [] (passages r stack unit.written) =
        rulesBefore ++ rules :: rulesAfter ∧
      rulesBefore.length = before.length ∧
      PassedThrough ((unit.written.trace.take stop).drop start) (TracedText.assemble fs) rules
        front back (List.zipWith rendered before rulesBefore).flatten
        (List.zipWith rendered after rulesAfter).flatten out.trace := by
  obtain ⟨ht, hstands⟩ := SourceUnit.standsIn_written hread
  obtain ⟨p, hfold, hresult⟩ := expandDocument_returns h
  have htile : Passage.Tile 0 (passages r stack unit.written) unit.written.text.length :=
    tile_of_returns hfold
  have hstop : ∀ start stop, .kept start stop ∈ passages r stack unit.written →
      stop ≤ unit.written.text.length := fun start stop hmem => htile.stop_le hmem
  rw [Passage.items_eq] at hfold
  have hok : ∀ keyword defect, .malformed keyword defect ∉ passages r stack unit.written := by
    intro keyword defect hmem
    exact not_malformed_of_returns hfold keyword defect (List.mem_filterMap.mpr ⟨_, hmem, rfl⟩)
  obtain ⟨hle, first, last, hkept, hfirst, hlast⟩ := hblock.exists_kept hok
  obtain ⟨head, rest, hstretches, htrace⟩ :=
    stretches_of_returns ⟨by simp [Progress.initial], by simp [Progress.initial]⟩ hstop hfold
  have hout : out.trace = (List.zipWith rendered (head :: rest)
      (Passage.rulesInForce [] (passages r stack unit.written))).flatten := by
    simp only [Prod.mk.injEq] at hresult
    rw [hresult.1]
    exact htrace
  have hproper := hstretches.proper hstop
  have hmain := hstretches.mainPositions_sublist ht htile (Nat.le_refl _)
  have hlength := hstretches.length_eq []
  obtain ⟨before, front, back, after, hss⟩ := hstretches.exists_of_kept hkept
  rw [hss] at hstretches hproper hmain hlength hout
  have hfs := hproper (front ++ unit.written.cut first last [] :: back) (by simp)
  have hstretch := trace_stretch ht hfirst hle hlast (hstop first last hkept) hfs
  obtain ⟨rulesBefore, rules, rulesAfter, hrules, hbefore, hflatten⟩ := exists_rules hlength
  refine ⟨before, front ++ unit.written.cut first last [] :: back, after, rulesBefore, rules,
    rulesAfter, front.flatMap Fragment.trace ++ (unit.written.trace.take start).drop first,
    (unit.written.trace.take last).drop stop ++ back.flatMap Fragment.trace, hstretches, hrules,
    hbefore, ?_⟩
  rw [hout, hflatten, rendered, (TracedText.proper_assemble hfs).trace_replace]
  apply passedThrough_of_nodup hstretch
  · intro c o hx
    have hmem := List.mem_of_mem_take (List.mem_of_mem_drop hx)
    exact (hstands c o hmem).2
  · exact keptPositions_rendered (fun fs hmem => hproper fs (by simp [hmem])) _
  · exact keptPositions_rendered (fun fs hmem => hproper fs (by simp [hmem])) _
  · rw [List.drop_zero, List.flatMap_append, List.flatMap_cons] at hmain
    rw [TracedText.trace_assemble hfs]
    exact (SourceUnit.nodup_written hread).sublist hmain

/-- A block under a rule that exchanges a word of it. -/
def sampleBlock : List Char :=
  ['R', 'E', 'P', 'L', 'A', 'C', 'E', ' ', '1', ' ', 'B', 'Y', ' ', '2', '.', '\n',
    'E', 'X', 'E', 'C', ' ', '1', ' ', 'E', 'N', 'D', '-', 'E', 'X', 'E', 'C', '\n']

/-- The lines of the block. -/
def sampleBlockLines : List LogicalLine :=
  [LogicalLine.sampleCode "main" 1
      ['R', 'E', 'P', 'L', 'A', 'C', 'E', ' ', '1', ' ', 'B', 'Y', ' ', '2', '.'],
    LogicalLine.sampleCode "main" 2
      ['E', 'X', 'E', 'C', ' ', '1', ' ', 'E', 'N', 'D', '-', 'E', 'X', 'E', 'C']]

set_option maxRecDepth 20000 in
lemma read_sampleBlock :
    ∃ unit, SourceUnit.read sampleRules.toLineRules "main" sampleBlock = .ok unit ∧
      unit.written = LogicalLine.write .ansi85 .free sampleBlockLines := by
  have hlogical : SourceUnit.logicalLines sampleRules.toLineRules "main" sampleBlock =
      sampleBlockLines := by
    cbv
  have hkeyword : ∀ l ∈ sampleBlockLines,
      CommentEntry.proseStart? sampleRules.dialect l.content = none := by
    simp only [sampleBlockLines, List.forall_mem_cons]
    exact ⟨by cbv, by cbv, by simp⟩
  exact SourceUnit.exists_read_of_no_keyword hlogical (by simp [sampleBlockLines]) hkeyword

set_option maxRecDepth 20000 in
lemma expandDocument_sampleBlock :
    (LogicalLine.write .ansi85 .free sampleBlockLines).text = sampleBlock ∧
      (Run.outcome (expandDocument sampleFiles sampleRules none []
        (LogicalLine.write .ansi85 .free sampleBlockLines))
        (⟨BookCache.empty, []⟩, ())).1.1.toOption.map (fun o => o.1.text) =
      some ('\n' :: ['E', 'X', 'E', 'C', ' ', '2', ' ', 'E', 'N', 'D', '-', 'E', 'X', 'E', 'C',
        '\n']) := by
  constructor
  · cbv
  · cbv

set_option maxRecDepth 20000 in
lemma isExecBlock_sampleBlock : Item.IsExecBlock .ansi85 true sampleBlock 16 31 := by
  have hblock : (Item.steps .ansi85 true sampleBlock).any (fun s =>
      Item.keyword? .ansi85 sampleBlock s.options s.token == some .exec && s.token.start == 16 &&
        Item.endOfExec? s.token.stop (sampleBlock.drop s.token.stop) == some 31) = true := by
    cbv
  simp only [List.any_eq_true, Bool.and_eq_true, beq_iff_eq] at hblock
  obtain ⟨s, hs, ⟨hkeyword, hstart⟩, hstop⟩ := hblock
  exact ⟨s, hs, hkeyword, hstart, hstop⟩

/-- The word comes out exchanged. -/
theorem exec_blocks_passed_sample :
    ∃ (unit : SourceUnit) (out : TracedText) (stretch : TracedText)
      (rules : List ReplacementRule) (front back left right : List TracedChar),
      unit.written.text = sampleBlock ∧
      Item.IsExecBlock .ansi85 true unit.written.text 16 31 ∧
      out.text = '\n' :: ['E', 'X', 'E', 'C', ' ', '2', ' ', 'E', 'N', 'D', '-', 'E', 'X', 'E', 'C',
        '\n'] ∧
      PassedThrough ((unit.written.trace.take 31).drop 16) stretch rules front back left right
        out.trace := by
  obtain ⟨unit, hread, hwritten⟩ := read_sampleBlock
  obtain ⟨htext, hout⟩ := expandDocument_sampleBlock
  rw [← hwritten] at htext hout
  have hexec : Item.IsExecBlock .ansi85 true unit.written.text 16 31 := by
    rw [htext]
    exact isExecBlock_sampleBlock
  rcases hrun : Run.outcome (expandDocument sampleFiles sampleRules none [] unit.written)
      (⟨BookCache.empty, []⟩, ()) with ⟨⟨⟨e⟩ | ⟨out, copies⟩, state⟩, fs⟩
  · rw [hrun] at hout
    exact absurd hout (by simp [Except.toOption])
  · rw [hrun] at hout
    obtain ⟨before, fs, after, rulesBefore, rules, rulesAfter, front, back, -, -, -, hpassed⟩ :=
      exec_blocks_passed sampleFiles sampleRules none [] "main" sampleBlock unit
        (⟨BookCache.empty, []⟩, ()) (state, fs) out copies hread hrun 16 31 hexec
    exact ⟨unit, out, _, rules, front, back, _, _, htext, hexec, Option.some.inj hout, hpassed⟩

end Expansion

end CobolText
