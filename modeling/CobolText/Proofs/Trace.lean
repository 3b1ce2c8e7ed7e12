import CobolText.Origin.TracedText
import CobolText.Proofs.Bisection

/-!
# Text character by character

The trace of a text lists its characters in order, each with its origin: the source position that
a lookup gives and how the character came into the output.  Two texts with the same trace answer
every lookup alike, however their extents are divided.  Joining fragments joins their traces, and
cutting a text cuts its trace.
-/

namespace CobolText

/-- Where an output character came from, and how. -/
structure Origin where
  position : Position
  marks : Marks
deriving DecidableEq, Repr

/-- An output character and its origin, if it has one. -/
abbrev TracedChar := Char × Option Origin

namespace Origin

/-- The origin as seen through further copybooks around it. -/
def within (o : Origin) (inclusions : List String) : Origin :=
  { o with marks := { o.marks with inclusions := inclusions ++ o.marks.inclusions } }

/-- Whether the character belongs to a comment or a comment entry. -/
def isComment (o : Origin) : Bool :=
  o.marks.comment || o.marks.commentEntry

/-- The origin of what a rule writes in the place of a character with origin `o`. -/
def replaced (o : Origin) : Origin :=
  ⟨o.position, { replaced := true, inclusions := o.marks.inclusions }⟩

@[simp] lemma within_nil (o : Origin) : o.within [] = o := rfl

end Origin

/-- A character as seen through further copybooks around it. -/
def TracedChar.within (inclusions : List String) (x : TracedChar) : TracedChar :=
  (x.1, x.2.map fun o => o.within inclusions)

@[simp] lemma TracedChar.within_nil : TracedChar.within [] = id := by
  funext x
  obtain ⟨c, o⟩ := x
  cases o <;> rfl

namespace Extent

/-- The origin of the output character at `offset`. -/
def originAt (e : Extent) (offset : Int) : Origin :=
  ⟨e.positionAt offset, e.marks⟩

/-- The origin that some extents give to the character at `offset`. -/
def originIn (es : List Extent) (offset : Int) : Option Origin :=
  (at? es offset).map fun e => e.originAt offset

lemma originAt_shift (e : Extent) (delta offset : Int) :
    (e.shift delta).originAt (offset + delta) = e.originAt offset := by
  rw [originAt, originAt, positionAt_shift]
  rfl

lemma originAt_within (e : Extent) (inclusions : List String) (offset : Int) :
    (e.within inclusions).originAt offset = (e.originAt offset).within inclusions := rfl

lemma originAt_clip? {e c : Extent} {start stop : Int} (h : e.clip? start stop = some c)
    (offset : Int) : c.originAt offset = e.originAt offset := by
  have hmarks : c.marks = e.marks := by
    simp only [clip?] at h
    split at h
    · rw [← Option.some.inj h]
    · simp at h
  simp only [originAt, positionAt_clip? h, hmarks]

lemma clip?_eq_some_iff {e c : Extent} {start stop : Int} :
    e.clip? start stop = some c ↔ max e.start start < min e.stop stop ∧
      c = ⟨max e.start start, min e.stop stop, e.positionAt (max e.start start), e.marks⟩ := by
  simp only [clip?]
  split
  · rename_i h
    simp only [Option.some.injEq, h, true_and]
    exact eq_comm
  · rename_i h
    simp [h]

/-- What a cut from `start` to `stop` keeps of an extent. -/
def piece? (start stop : Int) (inclusions : List String) (e : Extent) : Option Extent :=
  (e.clip? start stop).map fun c => (c.shift (-start)).within inclusions

lemma piece?_eq_some {e p : Extent} {start stop : Int} {inclusions : List String}
    (h : e.piece? start stop inclusions = some p) :
    max e.start start < min e.stop stop ∧ p.start = max e.start start - start ∧
      p.stop = min e.stop stop - start ∧
      ∀ offset, p.originAt offset = (e.originAt (offset + start)).within inclusions := by
  obtain ⟨c, hc, rfl⟩ := Option.map_eq_some_iff.mp h
  obtain ⟨hlt, hceq⟩ := clip?_eq_some_iff.mp hc
  refine ⟨hlt, ?_, ?_, ?_⟩
  · simp only [within, shift, hceq]
    omega
  · simp only [within, shift, hceq]
    omega
  · intro offset
    have hoffset : offset = (offset + start) + -start := by omega
    rw [originAt_within, ← originAt_clip? hc, hoffset, originAt_shift]
    congr 2
    omega

lemma piece?_eq_none {e : Extent} {start stop : Int} {inclusions : List String}
    (h : e.piece? start stop inclusions = none) : min e.stop stop ≤ max e.start start := by
  by_contra hlt
  have hc := clip?_eq_some_iff.mpr ⟨Int.not_le.mp hlt, rfl⟩
  simp [piece?, hc] at h

lemma at?_append_left {as bs : List Extent} {offset : Int} (hb : ∀ e ∈ bs, offset < e.start) :
    at? (as ++ bs) offset = at? as offset := by
  have hnone : bs.filter (fun e => e.start ≤ offset) = [] := by
    rw [List.filter_eq_nil_iff]
    intro e he
    have := hb e he
    simp only [decide_eq_true_eq]
    omega
  simp only [at?, List.filter_append, hnone, List.append_nil]

lemma at?_append_right {as bs : List Extent} {offset : Int} (ha : ∀ e ∈ as, e.stop ≤ offset) :
    at? (as ++ bs) offset = at? bs offset := by
  simp only [at?, List.filter_append, List.getLast?_append]
  cases hbs : (bs.filter fun e => e.start ≤ offset).getLast? with
  | some e => rfl
  | none =>
    -- The last extent of the first part may be the last to start, but it ends too early.
    cases has : (as.filter fun e => e.start ≤ offset).getLast? with
    | none => rfl
    | some e =>
      have he := ha e (List.mem_filter.mp (List.mem_of_getLast? has)).1
      have hc : ¬e.covers offset = true := by
        rw [covers_iff]
        omega
      simp [hc]

lemma at?_map_shift (es : List Extent) (delta offset : Int) :
    at? (es.map fun e => e.shift delta) (offset + delta) =
      (at? es offset).map fun e => e.shift delta := by
  have hfilter : (es.map fun e => e.shift delta).filter (fun e => e.start ≤ offset + delta) =
      (es.filter fun e => e.start ≤ offset).map fun e => e.shift delta := by
    rw [List.filter_map]
    congr 1
    apply List.filter_congr
    intro e _
    exact decide_eq_decide.mpr (by simp only [shift]; omega)
  have hcovers : ∀ e : Extent, (e.shift delta).covers (offset + delta) = e.covers offset := by
    intro e
    rw [Bool.eq_iff_iff, covers_iff, covers_iff]
    simp only [shift]
    omega
  simp only [at?, hfilter, List.getLast?_map]
  cases (es.filter fun e => e.start ≤ offset).getLast? with
  | none => rfl
  | some e =>
    by_cases hc : e.covers offset = true
    · simp [Option.filter, hcovers, hc]
    · simp [Option.filter, hcovers, hc]

lemma originIn_map_shift (es : List Extent) (delta offset : Int) :
    originIn (es.map fun e => e.shift delta) (offset + delta) = originIn es offset := by
  simp only [originIn, at?_map_shift, Option.map_map]
  congr 1
  funext e
  exact originAt_shift e delta offset

end Extent

/-- The origin of the character at `offset` that a lookup in the map gives. -/
def OriginMap.originAt? (m : OriginMap) (offset : Int) : Option Origin :=
  (m.extentAt? offset).map fun e => e.originAt offset

lemma OriginMap.originAt?_eq (m : OriginMap) (offset : Int) :
    m.originAt? offset = Extent.originIn m.toList offset := by
  simp only [originAt?, Extent.originIn, extentAt?_eq_at?]

namespace Fragment

/-- The characters of a fragment with their origins. -/
def trace (f : Fragment) : List TracedChar :=
  f.text.mapIdx fun i c => (c, Extent.originIn f.extents i)

/-- Extents that hold at least one character each, all of them in the text, in ascending order. -/
structure Proper (f : Fragment) : Prop where
  bounds : ∀ e ∈ f.extents, 0 ≤ e.start ∧ e.start < e.stop ∧ e.stop ≤ f.text.length
  ascending : f.extents.Pairwise fun a b => a.start ≤ b.start

@[simp] lemma length_trace (f : Fragment) : f.trace.length = f.text.length := by
  simp [trace]

lemma getElem?_trace (f : Fragment) (i : Nat) :
    f.trace[i]? = f.text[i]?.map fun c => (c, Extent.originIn f.extents i) := by
  simp [trace]

@[simp] lemma map_fst_trace (f : Fragment) : f.trace.map (·.1) = f.text := by
  apply List.ext_getElem?
  intro i
  simp only [List.getElem?_map, getElem?_trace, Option.map_map]
  exact Option.map_id' 

lemma proper_empty : empty.Proper :=
  ⟨by simp [empty], by simp [empty]⟩

lemma proper_synthetic (text : List Char) : (synthetic text).Proper :=
  ⟨by simp [synthetic], by simp [synthetic]⟩

lemma proper_copied (text : List Char) (position : Position) (marks : Marks) :
    (copied text position marks).Proper := by
  unfold copied
  split
  · exact proper_empty
  · rename_i h
    have hlen : 0 < text.length := by
      rw [List.length_pos_iff]
      simpa using h
    refine ⟨?_, by simp⟩
    intro e he
    rw [List.mem_singleton.mp he]
    simp only
    omega

lemma proper_replacement (text : List Char) (replaced : Option Extent)
    (position : Option Position) : (replacement text replaced position).Proper := by
  unfold replacement
  split
  · exact proper_copied _ _ _
  · exact proper_synthetic _

/-- Fragments side by side: the extents of the second come behind those of the first. -/
lemma Proper.append {a b : Fragment} (ha : a.Proper) (hb : b.Proper) : (a.append b).Proper := by
  constructor
  · intro e he
    simp only [Fragment.append, List.mem_append, List.mem_map] at he
    simp only [text_append, List.length_append]
    rcases he with he | ⟨e', he', rfl⟩
    · have := ha.bounds e he
      omega
    · have := hb.bounds e' he'
      simp only [Extent.shift]
      omega
  · simp only [Fragment.append]
    rw [List.pairwise_append]
    refine ⟨ha.ascending, ?_, ?_⟩
    · rw [List.pairwise_map]
      exact hb.ascending.imp fun h => by simp only [Extent.shift]; omega
    · intro e he e' he'
      obtain ⟨e'', he'', rfl⟩ := List.mem_map.mp he'
      have h1 := ha.bounds e he
      have h2 := hb.bounds e'' he''
      simp only [Extent.shift]
      omega

lemma proper_join {fs : List Fragment} (h : ∀ f ∈ fs, f.Proper) : (join fs).Proper := by
  induction fs with
  | nil => exact proper_empty
  | cons f fs ih =>
    rw [join_cons]
    exact (h f (by simp)).append (ih fun g hg => h g (by simp [hg]))

lemma trace_append {a b : Fragment} (ha : a.Proper) (hb : b.Proper) :
    (a.append b).trace = a.trace ++ b.trace := by
  simp only [trace, text_append, List.mapIdx_append]
  congr 1
  · apply List.ext_getElem?
    intro i
    simp only [List.getElem?_mapIdx]
    cases hi : a.text[i]? with
    | none => rfl
    | some c =>
      have hlt : i < a.text.length := (List.getElem?_eq_some_iff.mp hi).1
      simp only [Option.map_some, Extent.originIn, append]
      rw [Extent.at?_append_left]
      intro e he
      obtain ⟨e', he', rfl⟩ := List.mem_map.mp he
      have := hb.bounds e' he'
      simp only [Extent.shift]
      omega
  · congr 1
    funext i c
    have hcast : ((i + a.text.length : Nat) : Int) = (i : Int) + a.text.length := by omega
    simp only [append, hcast, Prod.mk.injEq, true_and]
    rw [← Extent.originIn_map_shift b.extents a.text.length i]
    simp only [Extent.originIn]
    rw [Extent.at?_append_right]
    intro e he
    have := ha.bounds e he
    omega

lemma trace_join {fs : List Fragment} (h : ∀ f ∈ fs, f.Proper) :
    (join fs).trace = fs.flatMap trace := by
  induction fs with
  | nil => rfl
  | cons f fs ih =>
    have hfs : ∀ g ∈ fs, g.Proper := fun g hg => h g (by simp [hg])
    rw [join_cons, trace_append (h f (by simp)) (proper_join hfs), ih hfs, List.flatMap_cons]

lemma trace_synthetic (text : List Char) :
    (synthetic text).trace = text.map fun c => (c, none) := by
  apply List.ext_getElem?
  intro i
  rw [getElem?_trace, List.getElem?_map]
  rfl

/-- Text read from a position advances column by column. -/
lemma trace_copied (text : List Char) (position : Position) {marks : Marks}
    (h : marks.replaced = false) :
    (copied text position marks).trace = text.mapIdx fun i c =>
      (c, some ⟨{ position with column := position.column + i }, marks⟩) := by
  apply List.ext_getElem?
  intro i
  rw [getElem?_trace, List.getElem?_mapIdx]
  unfold copied
  split
  · rename_i hnil
    simp [List.isEmpty_iff.mp hnil, empty]
  · cases hi : text[i]? with
    | none => rfl
    | some c =>
      have hlt : i < text.length := (List.getElem?_eq_some_iff.mp hi).1
      simp [Extent.originIn, Extent.at?, Option.filter, Extent.covers, hlt, Extent.originAt,
        Extent.positionAt, h]

/-- What a rule writes stands for the first character it replaced. -/
lemma trace_replacement (text : List Char) (m : OriginMap) (offset : Int) :
    (replacement text (m.extentAt? offset) (m.positionAt? offset)).trace =
      text.map fun c => (c, (m.originAt? offset).map Origin.replaced) := by
  rw [OriginMap.positionAt?, OriginMap.originAt?]
  cases m.extentAt? offset with
  | none => exact trace_synthetic text
  | some e =>
    simp only [Option.map_some, replacement]
    apply List.ext_getElem?
    intro i
    rw [getElem?_trace, List.getElem?_map]
    unfold copied
    split
    · rename_i hnil
      simp [List.isEmpty_iff.mp hnil, empty]
    · cases hi : text[i]? with
      | none => rfl
      | some c =>
        have hlt : i < text.length := (List.getElem?_eq_some_iff.mp hi).1
        simp [Extent.originIn, Extent.at?, Option.filter, Extent.covers, hlt, Extent.originAt,
          Extent.positionAt, Origin.replaced]

end Fragment

namespace TracedText

/-- The characters of a text with their origins. -/
def trace (t : TracedText) : List TracedChar :=
  t.text.mapIdx fun i c => (c, t.map.originAt? i)

/-- Extents that hold at least one character each, all of them in the text. -/
def Proper (t : TracedText) : Prop :=
  ∀ e ∈ t.extents, 0 ≤ e.start ∧ e.start < e.stop ∧ e.stop ≤ t.text.length

@[simp] lemma length_trace (t : TracedText) : t.trace.length = t.text.length := by
  simp [trace]

lemma getElem?_trace (t : TracedText) (i : Nat) :
    t.trace[i]? = t.text[i]?.map fun c => (c, t.map.originAt? i) := by
  simp [trace]

@[simp] lemma map_fst_trace (t : TracedText) : t.trace.map (·.1) = t.text := by
  apply List.ext_getElem?
  intro i
  simp only [List.getElem?_map, getElem?_trace, Option.map_map]
  exact Option.map_id'

/-- Extents that ascend are kept in their order. -/
lemma toList_ofList {es : List Extent} (h : es.Pairwise fun a b => a.start ≤ b.start) :
    (OriginMap.ofList es).toList = es := by
  simp only [OriginMap.ofList, OriginMap.toList]
  exact List.mergeSort_of_pairwise (h.imp fun h => by simpa using h)

lemma extents_assemble {fs : List Fragment} (h : ∀ f ∈ fs, f.Proper) :
    (assemble fs).extents = (Fragment.join fs).extents :=
  toList_ofList (Fragment.proper_join h).ascending

lemma proper_assemble {fs : List Fragment} (h : ∀ f ∈ fs, f.Proper) : (assemble fs).Proper := by
  intro e he
  rw [extents_assemble h] at he
  exact (Fragment.proper_join h).bounds e he

/-- The trace of a text is made up of the traces of its fragments. -/
theorem trace_assemble {fs : List Fragment} (h : ∀ f ∈ fs, f.Proper) :
    (assemble fs).trace = fs.flatMap Fragment.trace := by
  rw [← Fragment.trace_join h]
  simp only [trace, Fragment.trace, OriginMap.originAt?_eq]
  rw [show (assemble fs).map.toList = _ from extents_assemble h]
  rfl

/-- The extents that a cut goes through: the last one to start at or before its beginning, and
those that start inside it. -/
def crossed (t : TracedText) (start stop : Int) : List Extent :=
  (t.extents.filter fun e => e.start ≤ start).getLast?.toList ++
    t.extents.filter fun e => start < e.start ∧ e.start < stop

lemma extents_cut (t : TracedText) {start stop : Int} (h : start < stop)
    (inclusions : List String) :
    (t.cut start stop inclusions).extents =
      (t.crossed start stop).filterMap (Extent.piece? start stop inclusions) := by
  have hpiece : ∀ e : Extent, (if start < e.stop then e.piece? start stop inclusions else none) =
      e.piece? start stop inclusions := by
    intro e
    split
    · rfl
    · cases hp : e.piece? start stop inclusions with
      | none => rfl
      | some p =>
        have := (Extent.piece?_eq_some hp).1
        omega
  simp only [cut, h, if_true]
  rw [OriginMap.between_eq t.map h, List.filterMap_filter]
  simp only [decide_eq_true_eq]
  exact congrArg (fun f => (t.crossed start stop).filterMap f) (funext hpiece)

/-- Among the extents that a cut goes through, the last one to start at or before a character of
the cut is the last one of the whole text to do so. -/
lemma getLast?_crossed (t : TracedText) {start stop offset : Int} (h1 : start ≤ offset)
    (h2 : offset < stop) :
    ((t.crossed start stop).filter fun e => e.start ≤ offset).getLast? =
      (t.extents.filter fun e => e.start ≤ offset).getLast? := by
  have hsplit : t.extents.filter (fun e => e.start ≤ start) ++
      t.extents.filter (fun e => start < e.start) = t.extents :=
    filter_append_filter_of_ascending start t.map.ascending
  have hys : ∀ ys : List Extent, (∀ e ∈ ys, e.start ≤ start) →
      ys.filter (fun e => e.start ≤ offset) = ys := by
    intro ys hys
    rw [List.filter_eq_self]
    intro e he
    have := hys e he
    simp only [decide_eq_true_eq]
    omega
  have hmem : ∀ e ∈ t.extents.filter (fun e => e.start ≤ start), e.start ≤ start := by
    intro e he
    simpa using (List.mem_filter.mp he).2
  have hinside : (t.extents.filter fun e => start < e.start ∧ e.start < stop).filter
      (fun e => e.start ≤ offset) =
      (t.extents.filter fun e => start < e.start).filter fun e => e.start ≤ offset := by
    rw [List.filter_filter, List.filter_filter]
    apply List.filter_congr
    intro e _
    rw [Bool.eq_iff_iff]
    simp only [Bool.and_eq_true, decide_eq_true_eq]
    omega
  conv_rhs => rw [← hsplit]
  rw [crossed, List.filter_append, List.filter_append, hinside, hys _ hmem, hys]
  · rw [List.getLast?_append, List.getLast?_append]
    cases (t.extents.filter fun e => e.start ≤ start).getLast? <;> rfl
  · intro e he
    have hlast := Option.mem_toList.mp he
    exact hmem e (List.mem_of_getLast? hlast)

lemma crossed_sublist (t : TracedText) (start stop : Int) :
    (t.crossed start stop).Sublist t.extents := by
  have hsplit : t.extents.filter (fun e => e.start ≤ start) ++
      t.extents.filter (fun e => start < e.start) = t.extents :=
    filter_append_filter_of_ascending start t.map.ascending
  conv_rhs => rw [← hsplit]
  apply List.Sublist.append
  · cases hlast : (t.extents.filter fun e => e.start ≤ start).getLast? with
    | none => exact List.nil_sublist _
    | some e => exact List.singleton_sublist.mpr (List.mem_of_getLast? hlast)
  · apply List.monotone_filter_right
    intro e he
    simp only [decide_eq_true_eq] at he ⊢
    exact he.1

/-- Only the first extent that a cut goes through may start before the cut. -/
lemma pairwise_crossed (t : TracedText) (start stop : Int) :
    (t.crossed start stop).Pairwise fun _ e => start < e.start := by
  have hinside : ∀ e ∈ t.extents.filter (fun e => start < e.start ∧ e.start < stop),
      start < e.start := by
    intro e he
    have := (List.mem_filter.mp he).2
    simp only [decide_eq_true_eq] at this
    exact this.1
  rw [crossed, List.pairwise_append]
  refine ⟨?_, ?_, fun _ _ e he => hinside e he⟩
  · cases (t.extents.filter fun e => e.start ≤ start).getLast? <;> simp
  · exact List.Pairwise.imp_of_mem (fun _ he _ => hinside _ he)
      (List.pairwise_of_forall fun _ _ => trivial)

lemma filter_pieces (es : List Extent) {start stop : Int} (inclusions : List String) (i : Nat) :
    (es.filterMap (Extent.piece? start stop inclusions)).filter (fun e => e.start ≤ (i : Int)) =
      (es.filter fun e => e.start ≤ start + i).filterMap (Extent.piece? start stop inclusions) := by
  rw [List.filter_filterMap, List.filterMap_filter]
  refine congrArg (fun f => es.filterMap f) (funext fun e => ?_)
  cases hp : e.piece? start stop inclusions with
  | none => simp
  | some p =>
    have hstart := (Extent.piece?_eq_some hp).2.1
    by_cases hle : e.start ≤ start + i
    · have : p.start ≤ (i : Int) := by omega
      simp [Option.filter, this, hle]
    · have : ¬p.start ≤ (i : Int) := by omega
      simp [Option.filter, this, hle]

/-- A cut gives every character the extent that the text gave it, as far as it is kept. -/
lemma at?_cut (t : TracedText) (ht : ∀ e ∈ t.extents, e.start < e.stop) {start stop : Int}
    (inclusions : List String) {i : Nat} (hi : start + i < stop) :
    Extent.at? (t.cut start stop inclusions).extents i =
      (Extent.at? t.extents (start + i)).bind (Extent.piece? start stop inclusions) := by
  have hlast := t.getLast?_crossed (show start ≤ start + i by omega) hi
  have hpair := (t.pairwise_crossed start stop).filter fun e => e.start ≤ start + i
  rw [extents_cut t (by omega), Extent.at?, Extent.at?, filter_pieces, ← hlast]
  generalize hK : (t.crossed start stop).filter (fun e => e.start ≤ start + i) = K at hpair
  cases List.eq_nil_or_concat K with
  | inl hnil => simp [hnil]
  | inr hconcat =>
    obtain ⟨init, e, rfl⟩ := hconcat
    have he : e ∈ t.crossed start stop ∧ e.start ≤ start + i := by
      have : e ∈ (t.crossed start stop).filter fun e => e.start ≤ start + i := by simp [hK]
      simpa using List.mem_filter.mp this
    have hnonempty := ht e ((t.crossed_sublist start stop).subset he.1)
    cases hp : e.piece? start stop inclusions with
    | some p =>
      obtain ⟨hlt, hstart, hstop, -⟩ := Extent.piece?_eq_some hp
      have hcov : p.covers i = e.covers (start + i) := by
        rw [Bool.eq_iff_iff, Extent.covers_iff, Extent.covers_iff]
        omega
      by_cases hc : e.covers (start + i) = true
      · simp [List.filterMap_append, hp, Option.filter, hcov, hc]
      · simp [List.filterMap_append, hp, Option.filter, hcov, hc]
    | none =>
      -- The extent ends before the cut, so it is the one that may start before it, and the only
      -- one that starts early enough.
      have hstop := Extent.piece?_eq_none hp
      have hinit : init = [] := by
        cases init with
        | nil => rfl
        | cons a init =>
          have := (List.pairwise_cons.mp hpair).1 e (by simp)
          omega
      have hc : ¬e.covers (start + i) = true := by
        rw [Extent.covers_iff]
        omega
      simp [hinit, hp, Option.filter, hc]

lemma text_cut (t : TracedText) (start : Nat) {stop : Nat} (h : stop ≤ t.text.length)
    (inclusions : List String) :
    (t.cut start stop inclusions).text = (t.text.take stop).drop start := by
  by_cases hlt : start < stop
  · have hlt' : (start : Int) < stop := by omega
    simp only [cut, hlt', if_true, Text.slice, Text.place_natCast]
    rw [Nat.min_eq_left h, Nat.min_eq_left (by omega), List.drop_take]
  · have hlt' : ¬(start : Int) < stop := by omega
    simp only [cut, hlt', if_false, Fragment.empty]
    rw [eq_comm, List.drop_eq_nil_iff, List.length_take]
    omega

lemma proper_cut (t : TracedText) (start : Nat) {stop : Nat} (h : stop ≤ t.text.length)
    (inclusions : List String) : (t.cut start stop inclusions).Proper := by
  by_cases hlt : start < stop
  · have hlt' : (start : Int) < stop := by omega
    constructor
    · intro e he
      rw [extents_cut t hlt'] at he
      obtain ⟨x, -, hx⟩ := List.mem_filterMap.mp he
      obtain ⟨hne, hstart, hstop, -⟩ := Extent.piece?_eq_some hx
      rw [text_cut t start h, List.length_drop, List.length_take]
      omega
    · rw [extents_cut t hlt', List.pairwise_filterMap]
      have hasc := t.map.ascending.sublist (t.crossed_sublist start stop)
      apply (hasc.and (t.pairwise_crossed start stop)).imp
      rintro a b ⟨hab, hb⟩ p hp q hq
      have := (Extent.piece?_eq_some hp).2.1
      have := (Extent.piece?_eq_some hq).2.1
      omega
  · have hlt' : ¬(start : Int) < stop := by omega
    simp only [cut, hlt', if_false]
    exact Fragment.proper_empty

/-- Cutting a text cuts its trace. -/
theorem trace_cut (t : TracedText) (ht : ∀ e ∈ t.extents, e.start < e.stop) (start : Nat)
    {stop : Nat} (h : stop ≤ t.text.length) (inclusions : List String) :
    (t.cut start stop inclusions).trace =
      ((t.trace.take stop).drop start).map (TracedChar.within inclusions) := by
  apply List.ext_getElem?
  intro i
  rw [Fragment.getElem?_trace, text_cut t start h, List.getElem?_map, List.getElem?_drop,
    List.getElem?_drop]
  by_cases hi : start + i < stop
  · rw [List.getElem?_take_of_lt hi, List.getElem?_take_of_lt hi, getElem?_trace, Option.map_map]
    congr 1
    funext c
    have hi' : (start : Int) + i < stop := by omega
    have hcast : ((start + i : Nat) : Int) = (start : Int) + i := by omega
    simp only [Function.comp, TracedChar.within, Prod.mk.injEq, true_and]
    rw [OriginMap.originAt?_eq, hcast, Extent.originIn, Extent.originIn,
      at?_cut t ht inclusions hi']
    change _ = ((Extent.at? t.extents (start + i)).map _).map _
    cases he : Extent.at? t.extents (start + i) with
    | none => rfl
    | some e =>
      obtain ⟨-, h1, h2⟩ := Extent.covers_of_at? he
      cases hp : e.piece? start stop inclusions with
      | none =>
        have := Extent.piece?_eq_none hp
        omega
      | some p =>
        have horigin := (Extent.piece?_eq_some hp).2.2.2 i
        simp only [Option.bind_some, hp, Option.map_some, horigin, Int.add_comm]
  · rw [List.getElem?_take_eq_none (by omega), List.getElem?_take_eq_none (by omega)]
    rfl

lemma proper_whole (t : TracedText) (inclusions : List String) : (t.whole inclusions).Proper :=
  t.proper_cut 0 (Nat.le_refl _) inclusions

lemma trace_whole (t : TracedText) (ht : ∀ e ∈ t.extents, e.start < e.stop) :
    (t.whole []).trace = t.trace := by
  have h := t.trace_cut ht 0 (Nat.le_refl _) []
  have hall : t.trace.take t.text.length = t.trace := List.take_of_length_le (by simp)
  rw [hall, List.drop_zero, TracedChar.within_nil, List.map_id] at h
  exact h

end TracedText

end CobolText
