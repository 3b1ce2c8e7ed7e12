import CobolText.Proofs.BuiltMaps
import CobolText.Proofs.LineOrder

/-!
# The order of the main source in the output

Output text that came through no copybook stands in the order of the main source, and no character
of the source is used twice.  An extent of the output stands for all its positions, or, if a rule
wrote it, for the one position of the first character exchanged.  These positions, over all extents
of the output, are some of the positions of the main source, in the order of the source: text is cut
out from left to right, waits, and goes through the rules, which exchange text from left to right.
-/

namespace CobolText

namespace Extent

/-- The places of the main source that an extent stands for. -/
def anchors (e : Extent) : List Position :=
  if e.marks.inclusions = [] then
    if e.marks.replaced then [e.position]
    else (List.range (e.stop - e.start).toNat).map fun i : Nat => e.positionAt (e.start + i)
  else []

lemma positionAt_mem_anchors {e : Extent} (hmain : e.marks.inclusions = []) {offset : Int}
    (h : e.covers offset = true) : e.positionAt offset ∈ e.anchors := by
  obtain ⟨h1, h2⟩ := covers_iff.mp h
  rw [anchors, if_pos hmain]
  split
  · rename_i hreplaced
    rw [positionAt, if_pos hreplaced]
    exact List.mem_singleton_self _
  · rw [List.mem_map]
    refine ⟨(offset - e.start).toNat, List.mem_range.mpr (by omega), ?_⟩
    congr 1
    omega

lemma anchors_shift (e : Extent) (delta : Int) : (e.shift delta).anchors = e.anchors := by
  have hlength : (e.shift delta).stop - (e.shift delta).start = e.stop - e.start := by
    simp only [shift]
    omega
  have hposition : ∀ i : Nat, (e.shift delta).positionAt ((e.shift delta).start + i) =
      e.positionAt (e.start + i) := by
    intro i
    rw [← positionAt_shift e delta, show (e.shift delta).start = e.start + delta from rfl]
    congr 1
    omega
  unfold anchors
  rw [hlength]
  simp only [hposition]
  rfl

/-- A cut keeps some of the places of an extent, in their order. -/
lemma anchors_piece? {e p : Extent} {start stop : Int} (h : e.piece? start stop [] = some p) :
    p.anchors.Sublist e.anchors := by
  obtain ⟨hlt, hstart, hstop, horigin⟩ := piece?_eq_some h
  have hmarks : p.marks = e.marks := congrArg Origin.marks (horigin 0)
  have hposition : ∀ offset, p.positionAt offset = e.positionAt (offset + start) :=
    fun offset => congrArg Origin.position (horigin offset)
  unfold anchors
  rw [hmarks]
  split
  · split
    · rename_i hreplaced
      have hplace := hposition 0
      rw [positionAt, positionAt, hmarks, if_pos hreplaced, if_pos hreplaced] at hplace
      rw [hplace]
    · -- The places that are kept start `k` behind the first one of the extent.
      obtain ⟨k, hk⟩ := Int.eq_ofNat_of_zero_le (show 0 ≤ max e.start start - e.start by omega)
      have hpiece : (List.range (p.stop - p.start).toNat).map
          (fun i : Nat => p.positionAt (p.start + i)) =
          ((List.range (p.stop - p.start).toNat).map (fun i => k + i)).map
            fun i : Nat => e.positionAt (e.start + i) := by
        rw [List.map_map]
        congr 1
        funext i
        simp only [Function.comp, hposition]
        congr 1
        omega
      rw [hpiece]
      apply List.Sublist.map
      have hkept : ((List.range (p.stop - p.start).toNat).map (fun i => k + i)).Sublist
          (List.range (k + (p.stop - p.start).toNat)) := by
        rw [List.range_add]
        exact List.sublist_append_right _ _
      exact hkept.trans (List.range_sublist.mpr (by omega))
  · exact List.Sublist.refl _

/-- The places that an extent of text that is not replaced stands for, character by character. -/
lemma anchors_eq_filterMap {e : Extent}
    (hplain : e.marks.inclusions = [] → e.marks.replaced = false) {first last : Nat}
    (hfirst : e.start = first) (hlast : e.stop = last) :
    e.anchors = (List.range' first (last - first)).filterMap
      fun i : Nat => (e.originAt i).main? := by
  unfold anchors
  by_cases hmain : e.marks.inclusions = []
  · have hpoint : (fun i : Nat => (e.originAt i).main?) = some ∘ fun i : Nat => e.positionAt i :=
      funext fun i => if_pos hmain
    have hlength : ((last : Int) - first).toNat = last - first := by omega
    rw [if_pos hmain, hplain hmain, if_neg (by simp), hpoint, List.filterMap_eq_map,
      List.range'_eq_map_range, List.map_map, hfirst, hlast, hlength]
    rfl
  · have hpoint : ∀ i : Nat, (e.originAt i).main? = none := fun i => if_neg hmain
    rw [if_neg hmain]
    simp [hpoint]

/-- Extents of text that is not replaced stand for the characters they hold. -/
lemma flatMap_anchors {es : List Extent} {first last : Nat}
    (hbounds : ∀ e ∈ es, (first : Int) ≤ e.start ∧ e.start < e.stop ∧ e.stop ≤ last)
    (hapart : Apart es)
    (hplain : ∀ e ∈ es, e.marks.inclusions = [] → e.marks.replaced = false) :
    es.flatMap anchors = (List.range' first (last - first)).filterMap fun i : Nat =>
      (originIn es i).bind Origin.main? := by
  induction es generalizing first with
  | nil => simp [originIn, at?]
  | cons e es ih =>
    obtain ⟨hfirst, hlt, hlast⟩ := hbounds e (by simp)
    obtain ⟨hahead, hrest⟩ := List.pairwise_cons.mp hapart
    obtain ⟨a, ha⟩ := Int.eq_ofNat_of_zero_le (show 0 ≤ e.start by omega)
    obtain ⟨b, hb⟩ := Int.eq_ofNat_of_zero_le (show 0 ≤ e.stop by omega)
    -- Nothing stands before the first extent, it holds what comes next, and the others the rest.
    have hsplit : List.range' first (last - first) =
        List.range' first (a - first) ++ (List.range' a (b - a) ++ List.range' b (last - b)) := by
      have h1 := List.range'_append_1 (s := a) (m := b - a) (n := last - b)
      have h2 := List.range'_append_1 (s := first) (m := a - first) (n := last - a)
      rw [show a + (b - a) = b by omega, show b - a + (last - b) = last - a by omega] at h1
      rw [show first + (a - first) = a by omega,
        show a - first + (last - a) = last - first by omega] at h2
      rw [h1, h2]
    have hbefore : (List.range' first (a - first)).filterMap (fun i : Nat =>
        (originIn (e :: es) i).bind Origin.main?) = [] := by
      rw [List.filterMap_eq_nil_iff]
      intro i hi
      have hia := (List.mem_range'_1.mp hi).2
      cases hat : at? (e :: es) i with
      | none => simp [originIn, hat]
      | some x =>
        obtain ⟨hx, hstart, -⟩ := covers_of_at? hat
        rcases List.mem_cons.mp hx with rfl | hx
        · omega
        · have := hahead x hx
          omega
    have hinside : (List.range' a (b - a)).filterMap (fun i : Nat =>
        (originIn (e :: es) i).bind Origin.main?) = e.anchors := by
      rw [anchors_eq_filterMap (hplain e (by simp)) ha hb]
      apply List.filterMap_congr
      intro i hi
      have hia := List.mem_range'_1.mp hi
      have hat : at? ([e] ++ es) i = some e := by
        have hcovers : e.covers i = true := covers_iff.mpr (by omega)
        have hlater : ∀ x ∈ es, (i : Int) < x.start := by
          intro x hx
          have := hahead x hx
          omega
        rw [at?_append_left hlater]
        simp [at?, show e.start ≤ i by omega, Option.filter, hcovers]
      rw [originIn, show e :: es = [e] ++ es from rfl, hat]
      rfl
    have hbehind : (List.range' b (last - b)).filterMap (fun i : Nat =>
        (originIn (e :: es) i).bind Origin.main?) = es.flatMap anchors := by
      have hlater : ∀ x ∈ es, (b : Int) ≤ x.start ∧ x.start < x.stop ∧ x.stop ≤ last := by
        intro x hx
        have := hahead x hx
        exact ⟨by omega, (hbounds x (by simp [hx])).2⟩
      rw [ih hlater hrest fun x hx => hplain x (by simp [hx])]
      apply List.filterMap_congr
      intro i hi
      have hia := List.mem_range'_1.mp hi
      have hat : at? ([e] ++ es) i = at? es i := by
        apply at?_append_right
        intro x hx
        rw [List.mem_singleton.mp hx]
        omega
      rw [originIn, show e :: es = [e] ++ es from rfl, hat]
      rfl
    rw [hsplit, List.filterMap_append, List.filterMap_append, hbefore, hinside, hbehind]
    rfl

end Extent

/-- Whether no character of the main source was exchanged yet. -/
def Plain (xs : List TracedChar) : Prop :=
  ∀ c o, (c, some o) ∈ xs → o.marks.inclusions = [] → o.marks.replaced = false

lemma Plain.sublist {xs ys : List TracedChar} (h : Plain ys) (hsub : xs.Sublist ys) : Plain xs :=
  fun c o hx => h c o (hsub.subset hx)

lemma mainPositions_mapIdx (text : List Char) (f : Nat → Option Origin) :
    mainPositions (text.mapIdx fun i c => (c, f i)) =
      (List.range' 0 text.length).filterMap fun i => (f i).bind Origin.main? := by
  have hindices : text.mapIdx (fun i c => (c, f i)) =
      text.zipIdx.map fun x : Char × Nat => (x.1, f x.2) := List.mapIdx_eq_zipIdx_map
  have hnumbers : List.range' 0 text.length = text.zipIdx.map Prod.snd :=
    (List.zipIdx_map_snd 0 text).symm
  rw [hindices, hnumbers, mainPositions, List.filterMap_map, List.filterMap_map]
  rfl

lemma mainPositions_singleton (c : Char) (o : Option Origin) :
    mainPositions [(c, o)] = (o.bind Origin.main?).toList := by
  cases h : o.bind Origin.main? <;> simp [mainPositions, h]

lemma drop_split {α : Type} (xs : List α) {first last : Nat} (h : first ≤ last) :
    xs.drop first = (xs.take last).drop first ++ xs.drop last := by
  have hsplit := List.drop_take_append_drop xs first (last - first)
  rw [Nat.add_sub_cancel' h] at hsplit
  rw [List.drop_take, hsplit]

namespace Fragment

/-- The places of the main source that a fragment stands for. -/
def anchors (f : Fragment) : List Position :=
  f.extents.flatMap Extent.anchors

lemma anchors_append (a b : Fragment) : (a.append b).anchors = a.anchors ++ b.anchors := by
  simp only [anchors, append, List.flatMap_append, List.flatMap_map, Extent.anchors_shift]

lemma anchors_join (fs : List Fragment) : (join fs).anchors = fs.flatMap anchors := by
  induction fs with
  | nil => rfl
  | cons f fs ih => rw [join_cons, anchors_append, ih, List.flatMap_cons]

lemma WellFormed.anchors_eq {f : Fragment} (hf : f.WellFormed) (hplain : Plain f.trace) :
    f.anchors = mainPositions f.trace := by
  have hmarks : ∀ e ∈ f.extents, e.marks.inclusions = [] → e.marks.replaced = false := by
    intro e he
    obtain ⟨hstart, hlt, hstop⟩ := hf.proper.bounds e he
    obtain ⟨i, hi⟩ := Int.eq_ofNat_of_zero_le hstart
    have hlen : i < f.text.length := by omega
    have hlast := getLast?_filter_of_apart hf.apart he (Int.le_refl e.start) hlt
    have hat : Extent.at? f.extents e.start = some e := by
      rw [Extent.at?, hlast]
      simp [Option.filter, Extent.covers, hlt]
    have htrace : f.trace[i]? = some (f.text[i], some (e.originAt i)) := by
      rw [getElem?_trace, List.getElem?_eq_getElem hlen, Extent.originIn, ← hi, hat]
      rfl
    exact hplain _ _ (List.mem_of_getElem? htrace)
  have hplaces := Extent.flatMap_anchors hf.proper.bounds hf.apart hmarks
  rw [anchors, hplaces, trace, mainPositions_mapIdx, Nat.sub_zero]

end Fragment

namespace TracedText

/-- The places of the main source that a text stands for. -/
def anchors (t : TracedText) : List Position :=
  t.extents.flatMap Extent.anchors

lemma anchors_assemble {fs : List Fragment} (h : ∀ f ∈ fs, f.Proper) :
    (assemble fs).anchors = fs.flatMap Fragment.anchors := by
  rw [anchors, extents_assemble h]
  exact Fragment.anchors_join fs

lemma WellFormed.anchors_eq {t : TracedText} (ht : t.WellFormed) (hplain : Plain t.trace) :
    t.anchors = mainPositions t.trace := by
  have hfragment : Fragment.WellFormed ⟨t.text, t.extents⟩ :=
    ⟨⟨ht.proper, t.map.ascending⟩, ht.apart⟩
  have htrace : Fragment.trace ⟨t.text, t.extents⟩ = t.trace := by
    simp only [Fragment.trace, trace, OriginMap.originAt?_eq]
    rfl
  rw [← htrace] at hplain ⊢
  exact hfragment.anchors_eq hplain

lemma anchors_whole (t : TracedText) : (t.whole []).anchors.Sublist t.anchors := by
  unfold whole
  by_cases hlt : (0 : Int) < t.text.length
  · rw [Fragment.anchors, extents_cut t hlt]
    have hpieces : ∀ es : List Extent,
        ((es.filterMap (Extent.piece? 0 t.text.length [])).flatMap Extent.anchors).Sublist
          (es.flatMap Extent.anchors) := by
      intro es
      induction es with
      | nil => exact List.Sublist.refl _
      | cons e es ih =>
        rw [List.filterMap_cons, List.flatMap_cons]
        split
        · exact ih.trans (List.sublist_append_right _ _)
        · rename_i p hp
          rw [List.flatMap_cons]
          exact (Extent.anchors_piece? hp).append ih
    exact (hpieces _).trans ((t.crossed_sublist 0 t.text.length).flatMap Extent.anchors)
  · rw [cut, if_neg hlt]
    exact List.nil_sublist _

/-- A cut of text that is not replaced stands for the characters it holds. -/
lemma WellFormed.anchors_cut {t : TracedText} (ht : t.WellFormed) (hplain : Plain t.trace)
    (start : Nat) {stop : Nat} (hstop : stop ≤ t.text.length) :
    (t.cut start stop []).anchors = mainPositions ((t.trace.take stop).drop start) := by
  have htrace : (t.cut start stop []).trace = (t.trace.take stop).drop start := by
    rw [t.trace_cut ht.nonempty start hstop, TracedChar.within_nil, List.map_id]
  have hpart : ((t.trace.take stop).drop start).Sublist t.trace :=
    (List.drop_sublist _ _).trans (List.take_sublist _ _)
  rw [(ht.cut start hstop []).anchors_eq, htrace]
  rw [htrace]
  exact hplain.sublist hpart

end TracedText

/-- What a rule writes stands for no more than the first character it exchanges. -/
lemma Fragment.anchors_replacement (text : List Char) (m : OriginMap) (offset : Int) :
    (replacement text (m.extentAt? offset) (m.positionAt? offset)).anchors.Sublist
      ((m.originAt? offset).bind Origin.main?).toList := by
  rw [OriginMap.positionAt?, OriginMap.originAt?]
  cases m.extentAt? offset with
  | none => exact List.nil_sublist _
  | some e =>
    simp only [Option.map_some, replacement, copied, Option.bind_some]
    split
    · exact List.nil_sublist _
    · by_cases hmain : e.marks.inclusions = []
      · simp [anchors, Extent.anchors, Origin.main?, Extent.originAt, hmain]
      · simp [anchors, Extent.anchors, hmain]

namespace Edit

/-- An edit lies in the text and exchanges at least one character. -/
lemma IsFirst.bounds {t : TracedText} {rules : List ReplacementRule} {e : Edit}
    (h : IsFirst t rules e) : e.start < e.stop ∧ e.stop ≤ t.text.length := by
  obtain ⟨-, -, -, ⟨hlt, hmatch, -⟩, -⟩ := h
  have hle := WordPattern.matchLength?_le hmatch
  rw [List.length_drop] at hle
  exact ⟨hlt, by omega⟩

/-- Edits from left to right use the characters of the main source in their order. -/
lemma anchors_fragmentsFrom {t : TracedText} (ht : t.WellFormed) (hplain : Plain t.trace)
    {rules : List ReplacementRule} {pos : Nat} {es : List Edit} (h : Leftmost t rules pos es) :
    ((fragmentsFrom t pos es).flatMap Fragment.anchors).Sublist
      (mainPositions (t.trace.drop pos)) := by
  induction h with
  | done none =>
    rw [fragmentsFrom, List.flatMap_singleton, ht.anchors_cut hplain _ (Nat.le_refl _),
      List.take_of_length_le (by simp)]
  | @edit pos e es le none first rest ih =>
    obtain ⟨hlt, hstop⟩ := first.bounds
    have hfirst : t.trace[e.start]?.toList = [(t.text[e.start], t.map.originAt? e.start)] := by
      rw [t.getElem?_trace, List.getElem?_eq_getElem (by omega)]
      rfl
    -- The text divides into what is kept, the first character exchanged, the others, and the rest.
    have hsplit : t.trace.drop pos = (t.trace.take e.start).drop pos ++
        ([(t.text[e.start], t.map.originAt? e.start)] ++
          ((t.trace.take e.stop).drop (e.start + 1) ++ t.trace.drop e.stop)) := by
      rw [← drop_split _ (show e.start + 1 ≤ e.stop by omega), ← hfirst,
        ← List.drop_eq_getElem?_toList_append, ← drop_split _ le]
    rw [fragmentsFrom, List.flatMap_cons, List.flatMap_cons, hsplit,
      ht.anchors_cut hplain pos (by omega)]
    simp only [mainPositions_append]
    apply List.Sublist.append (List.Sublist.refl _)
    apply List.Sublist.append
    · rw [mainPositions_singleton]
      exact Fragment.anchors_replacement e.rule.replacement t.map e.start
    · exact ih.trans (List.sublist_append_right _ _)

end Edit

/-- A text after replacement uses the characters of the main source in their order. -/
lemma TracedText.anchors_replace {t : TracedText} (ht : t.WellFormed) (hplain : Plain t.trace)
    (rules : List ReplacementRule) :
    (t.replace rules).anchors.Sublist (mainPositions t.trace) := by
  have hedits := Edit.anchors_fragmentsFrom ht hplain (leftmost_edits ht rules)
  unfold replace
  split
  · rw [ht.anchors_eq hplain]
  · rw [anchors_assemble (t.proper_fragments_edits rules)]
    exact hedits

namespace Progress

/-- Output that stands for characters of the main source in their order, and waiting text that holds
later ones as they are, where `xs` is what was read so far. -/
structure InOrder (xs : List TracedChar) (p : Progress) : Prop where
  carries : p.Carries fun _ => True
  plain : ∀ f ∈ p.pending, Plain f.trace
  sublist : (p.output.reverse.flatMap Fragment.anchors ++
    mainPositions (p.pending.reverse.flatMap Fragment.trace)).Sublist (mainPositions xs)

variable {p : Progress} {xs ys : List TracedChar}

lemma inOrder_initial : initial.InOrder [] :=
  ⟨carries_initial, by simp [initial], by simp [initial, mainPositions]⟩

lemma InOrder.sublist_read (hp : p.InOrder xs) (h : xs.Sublist ys) : p.InOrder ys :=
  ⟨hp.carries, hp.plain, hp.sublist.trans (h.filterMap _)⟩

lemma InOrder.push (hp : p.InOrder xs) {fs : List Fragment} (hwell : ∀ f ∈ fs, f.WellFormed)
    (hplain : ∀ f ∈ fs, Plain f.trace)
    (hfs : (mainPositions (fs.flatMap Fragment.trace)).Sublist (mainPositions ys)) :
    (p.push fs).InOrder (xs ++ ys) := by
  refine ⟨hp.carries.push hwell fun _ _ _ _ => trivial, ?_, ?_⟩
  · intro f hf
    rcases List.mem_append.mp hf with hf | hf
    · exact hplain f (List.mem_reverse.mp hf)
    · exact hp.plain f hf
  · rw [pending_push, List.flatMap_append, mainPositions_append, mainPositions_append,
      ← List.append_assoc]
    exact hp.sublist.append hfs

lemma InOrder.flush (hp : p.InOrder xs) : p.flush.InOrder xs := by
  have hcarries := hp.carries.flush ⟨fun _ => trivial, fun _ _ => trivial⟩
  have hwell := hp.carries.waiting.1
  have hproper : ∀ f ∈ p.pending.reverse, f.Proper := by
    intro f hf
    exact (hp.carries.wellFormed f (List.mem_append_right _ (List.mem_reverse.mp hf))).proper
  have hplain : Plain (TracedText.assemble p.pending.reverse).trace := by
    intro c o hx
    rw [TracedText.trace_assemble hproper] at hx
    obtain ⟨f, hf, hx⟩ := List.mem_flatMap.mp hx
    exact hp.plain f (List.mem_reverse.mp hf) c o hx
  have hwhole := (TracedText.anchors_whole _).trans
    (TracedText.anchors_replace hwell hplain p.levels.flatten)
  rw [TracedText.trace_assemble hproper] at hwhole
  refine ⟨hcarries, ?_, ?_⟩
  · unfold Progress.flush
    simp only
    split
    · exact hp.plain
    · simp
  · unfold Progress.flush
    simp only
    split
    · exact hp.sublist
    · simp only [List.reverse_cons, List.flatMap_append, List.flatMap_singleton, List.reverse_nil,
        List.flatMap_nil]
      rw [show mainPositions [] = [] from rfl, List.append_nil]
      exact (List.Sublist.append (List.Sublist.refl _) hwhole).trans hp.sublist

lemma InOrder.finish (hp : p.InOrder xs) :
    p.finish.WellFormed ∧ p.finish.anchors.Sublist (mainPositions xs) := by
  have hflush := hp.flush
  have hwell : ∀ f ∈ p.flush.output.reverse, f.WellFormed := by
    intro f hf
    exact hflush.carries.wellFormed f (List.mem_append_left _ (List.mem_reverse.mp hf))
  refine ⟨TracedText.wellFormed_assemble hwell, ?_⟩
  rw [Progress.finish, TracedText.anchors_assemble fun f hf => (hwell f hf).proper]
  exact (List.sublist_append_left _ _).trans hflush.sublist

end Progress

/-- Nothing that is put behind a copybook belongs to the main source. -/
lemma TracedText.main?_cut (t : TracedText) (start stop : Int) (name : String) :
    ∀ x ∈ (t.cut start stop [name]).trace, x.2.bind Origin.main? = none := by
  intro x hx
  obtain ⟨i, -, rfl⟩ := List.mem_mapIdx.mp hx
  cases hat : Extent.at? (t.cut start stop [name]).extents i with
  | none => simp [Extent.originIn, hat]
  | some e =>
    have hmem := (Extent.covers_of_at? hat).1
    have hinclusions : e.marks.inclusions ≠ [] := by
      unfold cut at hmem
      split at hmem
      · obtain ⟨u, -, hu⟩ := List.mem_filterMap.mp hmem
        obtain ⟨c, -, rfl⟩ := Option.map_eq_some_iff.mp hu
        simp [Extent.within]
      · simp [Fragment.empty] at hmem
    simp [Extent.originIn, hat, Origin.main?, Extent.originAt, hinclusions]

/-- Nothing of a copybook belongs to the main source of the unit that includes it. -/
lemma Expansion.main?_splice (book : TracedText) (text : List Char) (stop : Nat) (name : String) :
    ∀ f ∈ splice text stop name book, ∀ x ∈ f.trace, x.2.bind Origin.main? = none := by
  apply forall_splice
  · intro last _
    exact book.main?_cut 0 last name
  · intro made x hx
    rw [Fragment.trace_synthetic] at hx
    obtain ⟨c, -, rfl⟩ := List.mem_map.mp hx
    rfl

lemma Expansion.mainPositions_splice (book : TracedText) (text : List Char) (stop : Nat)
    (name : String) : mainPositions ((splice text stop name book).flatMap Fragment.trace) = [] := by
  rw [mainPositions, List.filterMap_eq_nil_iff]
  intro x hx
  obtain ⟨f, hf, hx⟩ := List.mem_flatMap.mp hx
  exact main?_splice book text stop name f hf x hx

namespace Progress

variable {p : Progress}

/-- Text that is kept follows what was read before it. -/
lemma InOrder.keep {t : TracedText} (ht : t.WellFormed) (hplain : Plain t.trace) {start stop : Nat}
    (hp : p.InOrder (t.trace.take start)) (hle : start ≤ stop) (hstop : stop ≤ t.text.length) :
    (p.push [t.cut start stop []]).InOrder (t.trace.take stop) := by
  have htrace : (t.cut start stop []).trace = (t.trace.take stop).drop start := by
    rw [t.trace_cut ht.nonempty start hstop, TracedChar.within_nil, List.map_id]
  have hread : t.trace.take start ++ (t.trace.take stop).drop start = t.trace.take stop := by
    have hsplit := List.take_append_drop start (t.trace.take stop)
    rwa [List.take_take, Nat.min_eq_left hle] at hsplit
  rw [← hread]
  apply hp.push
  · exact List.forall_mem_singleton.mpr (ht.cut start hstop [])
  · intro f hf
    rw [List.mem_singleton.mp hf, htrace]
    exact hplain.sublist ((List.drop_sublist _ _).trans (List.take_sublist _ _))
  · rw [List.flatMap_singleton, htrace]

/-- A copybook adds nothing of the main source. -/
lemma InOrder.splice {xs : List TracedChar} (hp : p.InOrder xs) {book : TracedText}
    (hbook : book.WellFormed) (text : List Char) (stop : Nat) (name : String) :
    (p.push (Expansion.splice text stop name book)).InOrder xs := by
  rw [← List.append_nil xs]
  apply hp.push
  · exact Expansion.forall_splice (fun _ hlast => hbook.cut 0 hlast _) Fragment.wellFormed_synthetic
  · intro f hf c o hx hinclusions
    have hnone := Expansion.main?_splice book text stop name f hf (c, some o) hx
    simp [Origin.main?, hinclusions] at hnone
  · rw [Expansion.mainPositions_splice]
    exact List.nil_sublist _

end Progress

namespace Expansion

variable {σ : Type} {files : FileAccess (StateM σ)} {r : RunRules}

/-- Passages that are carried out one after the other keep the order of the main source. -/
lemma foldlM_inOrder {levels : Nat} {stack : List Inclusion} {unit : SourceUnit} {p q : Progress}
    {ps : List Passage} {first last : Nat} {w w' : World σ} (ht : unit.written.WellFormed)
    (hplain : Plain unit.written.trace) (htile : Passage.Tile first ps last)
    (hlast : last ≤ unit.written.text.length) (hp : p.InOrder (unit.written.trace.take first))
    (h : Returns ((ps.filterMap Passage.item?).foldlM
      (carryOut files r (below files r levels) stack unit.written) p) w q w') :
    q.InOrder (unit.written.trace.take last) := by
  induction ps generalizing p w first with
  | nil =>
    obtain ⟨rfl, rfl⟩ := Returns.pure_iff.mp h
    rw [← show first = last from htile]
    exact hp
  | cons passage ps ih =>
    have hstop : passage.stop ≤ last := htile.stop_le (List.mem_cons_self ..)
    obtain ⟨hfirst, hle, hrest⟩ := htile
    -- What is read without being kept only makes the text that was read longer.
    have hskip : ∀ {p' : Progress}, p'.InOrder (unit.written.trace.take first) →
        p'.InOrder (unit.written.trace.take passage.stop) := by
      intro p' hp'
      exact hp'.sublist_read (List.take_sublist_take_left (by omega))
    cases passage with
    | kept start stop =>
      obtain ⟨p₁, w₁, hstep, h⟩ := Returns.bind_iff.mp h
      obtain ⟨rfl, rfl⟩ := Returns.pure_iff.mp hstep
      obtain rfl : start = first := hfirst
      exact ih hrest (hp.keep ht hplain hle (Nat.le_trans hstop hlast)) h
    | removed keyword stop => exact ih hrest (hskip hp) h
    | copy keyword clause stop =>
      obtain ⟨p₁, w₁, hstep, h⟩ := Returns.bind_iff.mp h
      obtain ⟨book, hbook, rfl⟩ := copy_returns_iff.mp hstep
      have hwell := includeBook_wellFormed hbook
      have hsplice := hp.splice hwell unit.written.text stop clause.name
      refine ih hrest (hskip ?_) h
      exact ⟨⟨hsplice.carries.wellFormed, hsplice.carries.holds⟩, hsplice.plain, hsplice.sublist⟩
    | change keyword effect stop =>
      obtain ⟨p₁, w₁, hstep, h⟩ := Returns.bind_iff.mp h
      obtain ⟨rfl, rfl⟩ := Returns.pure_iff.mp hstep
      have hflush := hp.flush
      refine ih (p := p.change effect) hrest (hskip ?_) h
      exact ⟨⟨hflush.carries.wellFormed, hflush.carries.holds⟩, hflush.plain, hflush.sublist⟩
    | malformed keyword defect =>
      obtain ⟨p₁, w₁, hstep, h⟩ := Returns.bind_iff.mp h
      exact absurd hstep Returns.not_throw

/-- What a unit expands to stands for characters of the unit in their order. -/
lemma expandUnit_inOrder {levels : Nat} {stack : List Inclusion} {unit : SourceUnit}
    {text : List Char} {out : TracedText} {w w' : World σ}
    (hread : SourceUnit.read r.toLineRules unit.name text = .ok unit)
    (h : Returns (expandUnit files r levels stack unit) w out w') :
    out.WellFormed ∧ out.anchors.Sublist (mainPositions unit.written.trace) := by
  obtain ⟨ht, hstands⟩ := SourceUnit.standsIn_written hread
  have hplain : Plain unit.written.trace := fun c o hx _ => (hstands c o hx).2.1
  obtain ⟨copies, h⟩ := expandUnit_returns h
  obtain ⟨p, hfold, hresult⟩ := expandDocument_returns h
  have htile := tile_of_returns hfold
  rw [Passage.items_eq] at hfold
  have hp := foldlM_inOrder ht hplain htile (Nat.le_refl _) Progress.inOrder_initial hfold
  rw [List.take_of_length_le (by simp)] at hp
  simp only [Prod.mk.injEq] at hresult
  rw [hresult.1]
  exact hp.finish

end Expansion

/-- Whether output that came through no copybook stands in the order of the source: of two such
characters the first one has the earlier position, except that all of what a rule writes at one
place has the same position. -/
def TracedText.InSourceOrder (t : TracedText) : Prop :=
  ∀ (o₁ o₂ : Int) (e₁ e₂ : Extent), o₁ < o₂ → t.map.extentAt? o₁ = some e₁ →
    t.map.extentAt? o₂ = some e₂ → e₁.marks.inclusions = [] → e₂.marks.inclusions = [] →
    ∃ p₁ p₂, t.map.positionAt? o₁ = some p₁ ∧ t.map.positionAt? o₂ = some p₂ ∧
      if e₁ = e₂ ∧ e₁.marks.replaced = true then p₁ = p₂ else p₁.Before p₂

/-- If the places that the extents stand for ascend, so do the positions of the characters. -/
lemma TracedText.WellFormed.inSourceOrder {t : TracedText} (ht : t.WellFormed)
    (h : t.anchors.Pairwise Position.Before) : t.InSourceOrder := by
  intro o₁ o₂ e₁ e₂ hlt h₁ h₂ hmain₁ hmain₂
  refine ⟨e₁.positionAt o₁, e₂.positionAt o₂, by simp [OriginMap.positionAt?, h₁],
    by simp [OriginMap.positionAt?, h₂], ?_⟩
  rw [OriginMap.extentAt?_eq_at?] at h₁ h₂
  obtain ⟨hmem₁, hstart₁, hstop₁⟩ := Extent.covers_of_at? h₁
  obtain ⟨hmem₂, hstart₂, hstop₂⟩ := Extent.covers_of_at? h₂
  by_cases heq : e₁ = e₂
  · subst heq
    by_cases hreplaced : e₁.marks.replaced = true
    · rw [if_pos ⟨rfl, hreplaced⟩]
      simp [Extent.positionAt, hreplaced]
    · rw [if_neg fun hboth => hreplaced hboth.2]
      right
      simp only [Extent.positionAt, hreplaced, Bool.false_eq_true, if_false, true_and]
      omega
  · rw [if_neg fun hboth => heq hboth.1]
    -- The extent of the first character comes first, because the extents do not overlap.
    have hplaces := (List.pairwise_flatMap.mp h).2
    have hpair := ht.apart.and hplaces
    obtain ⟨before, after, hsplit⟩ := List.append_of_mem hmem₁
    change e₂ ∈ t.extents at hmem₂
    rw [show t.extents = _ from hsplit] at hpair hmem₂
    obtain ⟨-, hfrom, hacross⟩ := List.pairwise_append.mp hpair
    rcases List.mem_append.mp hmem₂ with hbefore | hafter
    · have hoverlap := (hacross e₂ hbefore e₁ (by simp)).1
      omega
    · rcases List.mem_cons.mp hafter with hsame | hafter
      · exact absurd hsame.symm heq
      · have hbehind := ((List.pairwise_cons.mp hfrom).1 e₂ hafter).2
        apply hbehind
        · exact Extent.positionAt_mem_anchors hmain₁ (Extent.covers_iff.mpr ⟨hstart₁, hstop₁⟩)
        · exact Extent.positionAt_mem_anchors hmain₂ (Extent.covers_iff.mpr ⟨hstart₂, hstop₂⟩)

namespace Session

variable {σ : Type}

lemma run_inSourceOrder {files : FileAccess (StateM σ)} {s s' : Session} {name : String}
    {path : Option Path} {text : List Char} {fs fs' : σ} {outcome : Outcome}
    {result : Preprocessed} (h : (s.run files name path text).run fs = ((outcome, s'), fs'))
    (hok : outcome.result = .ok result) : result.output.InSourceOrder := by
  obtain ⟨unit, state, hunit, hreturns, -⟩ := run_ok h hok
  have hread := SourceUnit.read_name hunit
  obtain ⟨hwell, hanchors⟩ := Expansion.expandUnit_inOrder hread hreturns
  exact hwell.inSourceOrder ((SourceUnit.pairwise_written hunit).sublist hanchors)

/-- No character of the main source is used twice or out of order, whatever is preprocessed with a
result. -/
theorem main_source_in_order {σ : Type} (files : FileAccess (StateM σ)) (s s' : Session)
    (fs fs' : σ) (outcome : Outcome) (result : Preprocessed) (hok : outcome.result = .ok result) :
    (∀ name text, (s.processText files name text).run fs = ((outcome, s'), fs') →
      result.output.InSourceOrder) ∧
    ∀ path, (s.processFile files path).run fs = ((outcome, s'), fs') →
      result.output.InSourceOrder := by
  constructor
  · intro name text h
    exact run_inSourceOrder h hok
  · intro path h
    obtain ⟨text, fs₁, -, hrun⟩ := processFile_ok h hok
    exact run_inSourceOrder hrun hok

/-- The word that goes on in the next line has its characters in the order of the lines. -/
theorem main_source_in_order_sample :
    ∃ result : Preprocessed,
      result.output.text = [' ', ' ', ' ', ' ', ' ', ' ', ' ', '1', '2', '3', '\n'] ∧
      result.output.InSourceOrder := by
  obtain ⟨outcome, s', result, hrun, hok, htext⟩ := sampleLines_run
  exact ⟨result, htext, (main_source_in_order Expansion.sampleFiles sampleSession s' () () outcome
    result hok).1 "main" sampleLines hrun⟩

end Session

end CobolText
