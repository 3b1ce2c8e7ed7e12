import CobolText.Replacement.Shield
import CobolText.Proofs.Tiling
import CobolText.Proofs.WellFormed

/-!
# What the shield of a text protects

A replacement spares an interval if it does not meet it, or if the interval is a literal that lies
wholly inside the replaced text.  Joining overlapping intervals loses nothing: a replacement
spares the joined intervals exactly if it spares each literal and each comment of the text.  The
two tests made during the scan, at the start of a match and over its length, decide this.
-/

namespace CobolText

namespace ShieldRegion

/-- Whether the text from `start` to `stop` has a character of the interval. -/
def Meets (r : ShieldRegion) (start stop : Int) : Prop :=
  r.start < stop ∧ start < r.stop

/-- Whether replacing the text from `start` to `stop` leaves the interval alone: no character of a
comment is touched, and a literal is replaced as a whole or not at all. -/
def Spares (r : ShieldRegion) (start stop : Int) : Prop :=
  r.Meets start stop → r.isComment = false ∧ start ≤ r.start ∧ r.stop ≤ stop

/-- Literals that do not overlap. -/
def LiteralsApart (a b : ShieldRegion) : Prop :=
  a.isComment = false → b.isComment = false → a.stop ≤ b.start ∨ b.stop ≤ a.start

/-- A comment and an interval that overlaps it are spared together with what they make up. -/
lemma spares_join {c r : ShieldRegion} (hr : r.start < r.stop)
    (h1 : c.start ≤ r.start) (h2 : r.start < c.stop) (hlit : LiteralsApart c r)
    {start stop : Int} (hlt : start < stop) :
    (⟨c.start, max c.stop r.stop, c.isComment || r.isComment⟩ : ShieldRegion).Spares start stop ↔
      c.Spares start stop ∧ r.Spares start stop := by
  have hsome : c.isComment = true ∨ r.isComment = true := by
    cases hcc : c.isComment with
    | true => exact .inl rfl
    | false =>
      cases hrc : r.isComment with
      | true => exact .inr rfl
      | false =>
        have := hlit hcc hrc
        omega
  have hjoined : (c.isComment || r.isComment) = true := by simpa using hsome
  simp only [Spares, Meets, hjoined]
  constructor
  · intro h
    constructor
    · intro hm
      exact absurd (h ⟨hm.1, by omega⟩).1 (by simp)
    · intro hm
      exact absurd (h ⟨by omega, by omega⟩).1 (by simp)
  · rintro ⟨h3, h4⟩ hm
    -- Whichever of the two is met, the other one is met as well, and one of them is a comment.
    have hcm : c.start < stop ∧ start < c.stop := by
      by_contra hcm
      have := h4 ⟨by omega, by omega⟩
      omega
    have hci := h3 hcm
    have hri := h4 ⟨by omega, by omega⟩
    rcases hsome with hs | hs
    · rw [hs] at hci
      exact absurd hci.1 (by simp)
    · rw [hs] at hri
      exact absurd hri.1 (by simp)

lemma mergeInto_bounds (c : ShieldRegion) (rs : List ShieldRegion) (hc : c.start < c.stop)
    (hrs : ∀ r ∈ rs, r.start < r.stop ∧ c.start ≤ r.start)
    (hasc : rs.Pairwise fun a b => a.start ≤ b.start) :
    (∀ r ∈ mergeInto c rs, r.start < r.stop ∧ c.start ≤ r.start) ∧
      (mergeInto c rs).Pairwise fun a b => a.stop ≤ b.start := by
  induction rs generalizing c with
  | nil =>
    simp only [mergeInto, List.mem_singleton, forall_eq, List.pairwise_singleton, and_true]
    omega
  | cons r rs ih =>
    obtain ⟨hr, hasc'⟩ := List.pairwise_cons.mp hasc
    have hr0 := hrs r (by simp)
    rw [mergeInto]
    split
    · refine ih _ ?_ ?_ hasc'
      · simp only
        omega
      · intro x hx
        exact hrs x (by simp [hx])
    · rename_i hge
      obtain ⟨hb, hp⟩ := ih r hr0.1 (fun x hx => ⟨(hrs x (by simp [hx])).1, hr x hx⟩) hasc'
      constructor
      · intro x hx
        rcases List.mem_cons.mp hx with rfl | hx
        · omega
        · have := hb x hx
          omega
      · rw [List.pairwise_cons]
        refine ⟨fun x hx => ?_, hp⟩
        have := hb x hx
        omega

/-- Joining intervals that overlap changes nothing about which replacements spare them. -/
lemma spares_mergeInto (c : ShieldRegion) (rs : List ShieldRegion) (hc : c.start < c.stop)
    (hrs : ∀ r ∈ rs, r.start < r.stop ∧ c.start ≤ r.start)
    (hasc : rs.Pairwise fun a b => a.start ≤ b.start)
    (hlit : (c :: rs).Pairwise LiteralsApart) {start stop : Int} (hss : start < stop) :
    (∀ r ∈ mergeInto c rs, r.Spares start stop) ↔ ∀ r ∈ c :: rs, r.Spares start stop := by
  induction rs generalizing c with
  | nil => rfl
  | cons r rs ih =>
    obtain ⟨hr, hasc'⟩ := List.pairwise_cons.mp hasc
    obtain ⟨hclit, hlit'⟩ := List.pairwise_cons.mp hlit
    have hr0 := hrs r (by simp)
    rw [mergeInto]
    split
    · rename_i hlt
      have hjoin := spares_join hr0.1 hr0.2 hlt (hclit r (by simp)) hss
      rw [ih]
      · simp only [List.forall_mem_cons, hjoin, and_assoc]
      · simp only
        omega
      · exact fun x hx => hrs x (by simp [hx])
      · exact hasc'
      · rw [List.pairwise_cons]
        refine ⟨fun x hx h => ?_, (List.pairwise_cons.mp hlit').2⟩
        -- What is joined is a comment, since literals do not overlap.
        simp only [Bool.or_eq_false_iff] at h
        have := hclit r (by simp) h.1 h.2
        omega
    · have hrest := ih r hr0.1 (fun x hx => ⟨(hrs x (by simp [hx])).1, hr x hx⟩) hasc' hlit'
      rw [List.forall_mem_cons, List.forall_mem_cons, hrest]

lemma merge_bounds {rs : List ShieldRegion} (hrs : ∀ r ∈ rs, r.start < r.stop)
    (hasc : rs.Pairwise fun a b => a.start ≤ b.start) :
    (∀ r ∈ merge rs, r.start < r.stop) ∧ (merge rs).Pairwise fun a b => a.stop ≤ b.start := by
  cases rs with
  | nil => exact ⟨by simp [merge], List.Pairwise.nil⟩
  | cons c rs =>
    obtain ⟨hc, hasc'⟩ := List.pairwise_cons.mp hasc
    obtain ⟨hb, hp⟩ := mergeInto_bounds c rs (hrs c (by simp))
      (fun r hr => ⟨hrs r (by simp [hr]), hc r hr⟩) hasc'
    exact ⟨fun r hr => (hb r hr).1, hp⟩

lemma spares_merge {rs : List ShieldRegion} (hrs : ∀ r ∈ rs, r.start < r.stop)
    (hasc : rs.Pairwise fun a b => a.start ≤ b.start) (hlit : rs.Pairwise LiteralsApart)
    {start stop : Int} (h : start < stop) :
    (∀ r ∈ merge rs, r.Spares start stop) ↔ ∀ r ∈ rs, r.Spares start stop := by
  cases rs with
  | nil => rfl
  | cons c rs =>
    obtain ⟨hc, hasc'⟩ := List.pairwise_cons.mp hasc
    exact spares_mergeInto c rs (hrs c (by simp))
      (fun r hr => ⟨hrs r (by simp [hr]), hc r hr⟩) hasc' hlit h

lemma le_start {a b : ShieldRegion} (h : le a b = true) : a.start ≤ b.start := by
  simp only [le, Bool.or_eq_true, decide_eq_true_eq, Bool.and_eq_true, beq_iff_eq] at h
  omega

lemma pairwise_mergeSort_le (rs : List ShieldRegion) :
    (rs.mergeSort le).Pairwise fun a b => a.start ≤ b.start := by
  have htrans : ∀ a b c : ShieldRegion, le a b = true → le b c = true → le a c = true := by
    intro a b c
    simp only [le, Bool.or_eq_true, decide_eq_true_eq, Bool.and_eq_true, beq_iff_eq,
      Bool.not_eq_true']
    grind
  have htotal : ∀ a b : ShieldRegion, (le a b || le b a) = true := by
    intro a b
    simp only [le, Bool.or_eq_true, decide_eq_true_eq, Bool.and_eq_true, beq_iff_eq,
      Bool.not_eq_true']
    grind
  exact (List.pairwise_mergeSort htrans htotal rs).imp fun h => le_start h

end ShieldRegion

namespace Shield

/-- The literals and comments of a text, one by one: those its tokens show, and those its origins
tell. -/
def parts (t : TracedText) : List ShieldRegion :=
  (Token.tokens false 0 t.text).filterMap ShieldRegion.ofToken? ++
    t.comments.map fun (start, stop) => ⟨start, stop, true⟩

lemma ofToken?_eq_some {t : Token} {r : ShieldRegion} (h : ShieldRegion.ofToken? t = some r) :
    r.start = t.start ∧ r.stop = t.stop ∧
      (r.isComment = false ∧ t.kind = .literal ∨ r.isComment = true ∧ t.kind = .comment) := by
  unfold ShieldRegion.ofToken? at h
  split at h
  · rename_i hk
    rw [← Option.some.inj h]
    exact ⟨rfl, rfl, .inl ⟨rfl, hk⟩⟩
  · rename_i hk
    rw [← Option.some.inj h]
    exact ⟨rfl, rfl, .inr ⟨rfl, hk⟩⟩
  · simp at h

lemma mem_comments {t : TracedText} {p : Int × Int} :
    p ∈ t.comments ↔ ∃ e ∈ t.extents, e.isComment = true ∧ p = (e.start, e.stop) := by
  simp only [TracedText.comments, List.mem_map, List.mem_filter, and_assoc]
  constructor
  · rintro ⟨e, he, hc, rfl⟩
    exact ⟨e, he, hc, rfl⟩
  · rintro ⟨e, he, hc, rfl⟩
    exact ⟨e, he, hc, rfl⟩

lemma start_lt_stop_of_mem_parts {t : TracedText} (ht : t.WellFormed) {r : ShieldRegion}
    (h : r ∈ parts t) : r.start < r.stop := by
  rcases List.mem_append.mp h with h | h
  · obtain ⟨u, hu, hr⟩ := List.mem_filterMap.mp h
    obtain ⟨h1, h2, -⟩ := ofToken?_eq_some hr
    have := Token.bounds_of_mem_tokens hu
    omega
  · obtain ⟨p, hp, rfl⟩ := List.mem_map.mp h
    obtain ⟨e, he, -, rfl⟩ := mem_comments.mp hp
    exact ht.nonempty e he

/-- The literals among the parts are tokens, and tokens do not overlap. -/
lemma literalsApart_parts (t : TracedText) :
    (parts t).Pairwise ShieldRegion.LiteralsApart := by
  rw [parts, List.pairwise_append]
  refine ⟨?_, ?_, ?_⟩
  · rw [List.pairwise_filterMap]
    apply (Token.pairwise_tokens false 0 t.text).imp
    intro a b hab r hr q hq _ _
    have h1 := (ofToken?_eq_some hr).2.1
    have h2 := (ofToken?_eq_some hq).1
    omega
  · rw [List.pairwise_map]
    exact List.pairwise_of_forall fun _ _ h => absurd h (by simp)
  · intro r _ q hq _ h
    obtain ⟨p, -, rfl⟩ := List.mem_map.mp hq
    simp at h

lemma literalsApart_symm {a b : ShieldRegion} (h : a.LiteralsApart b) : b.LiteralsApart a :=
  fun hb ha => (h ha hb).symm

/-- The regions of a shield are not empty, and come one behind the other. -/
lemma regions_bounds {t : TracedText} (ht : t.WellFormed) :
    (∀ r ∈ (ofText t).regions.toList, r.start < r.stop) ∧
      (ofText t).regions.toList.Pairwise fun a b => a.stop ≤ b.start := by
  have hmem : ∀ r ∈ (parts t).mergeSort ShieldRegion.le, r.start < r.stop :=
    fun r hr => start_lt_stop_of_mem_parts ht (List.mem_mergeSort.mp hr)
  exact ShieldRegion.merge_bounds hmem (ShieldRegion.pairwise_mergeSort_le (parts t))

/-- A replacement spares the joined regions exactly if it spares every literal and comment. -/
theorem spares_regions_iff {t : TracedText} (ht : t.WellFormed) {start stop : Int}
    (h : start < stop) :
    (∀ r ∈ (ofText t).regions.toList, r.Spares start stop) ↔
      ∀ r ∈ parts t, r.Spares start stop := by
  have hmem : ∀ r ∈ (parts t).mergeSort ShieldRegion.le, r.start < r.stop :=
    fun r hr => start_lt_stop_of_mem_parts ht (List.mem_mergeSort.mp hr)
  have hperm := List.mergeSort_perm (parts t) ShieldRegion.le
  have hlit := (hperm.pairwise_iff literalsApart_symm).mpr (literalsApart_parts t)
  have hmerge :=
    ShieldRegion.spares_merge hmem (ShieldRegion.pairwise_mergeSort_le (parts t)) hlit h
  simp only [List.mem_mergeSort] at hmerge
  exact hmerge

/-- Where a match may start: outside every region, or at the start of a literal. -/
def mayStart (s : Shield) (pos : Int) : Bool :=
  match s.regionAt? pos with
  | some r => !(r.isComment || r.start != pos)
  | none => true

section Tests

variable {s : Shield} (hne : ∀ r ∈ s.regions.toList, r.start < r.stop)
  (hapart : s.regions.toList.Pairwise fun a b => a.stop ≤ b.start)
include hne hapart

lemma regions_ascending : s.regions.toList.Pairwise fun a b => a.start ≤ b.start := by
  apply hapart.imp_of_mem
  intro a b ha _ hab
  have := hne a ha
  omega

/-- The region at an offset is the one that holds it. -/
lemma regionAt?_eq_some_iff {offset : Int} {r : ShieldRegion} :
    s.regionAt? offset = some r ↔
      r ∈ s.regions.toList ∧ r.start ≤ offset ∧ offset < r.stop := by
  have heq : s.regionAt? offset =
      (s.regions.toList.filter fun a => a.start ≤ offset).getLast?.filter
        fun r => offset < r.stop :=
    match_firstAbove offset (fun r : ShieldRegion => decide (offset < r.stop))
      (regions_ascending hne hapart)
  rw [heq]
  constructor
  · intro h
    obtain ⟨hlast, hstop⟩ := Option.filter_eq_some_iff.mp h
    obtain ⟨hmem, hstart⟩ := List.mem_filter.mp (List.mem_of_getLast? hlast)
    exact ⟨hmem, by simpa using hstart, by simpa using hstop⟩
  · rintro ⟨hmem, h1, h2⟩
    rw [getLast?_filter_of_apart hapart hmem h1 h2]
    simp [Option.filter, h2]

lemma mem_regions_between {start stop : Int} (h : start < stop) {r : ShieldRegion} :
    r ∈ (s.regions.toList.take (firstAbove s.regions ShieldRegion.start (stop - 1))).drop
        (firstAbove s.regions ShieldRegion.start start) ↔
      r ∈ s.regions.toList ∧ start < r.start ∧ r.start < stop := by
  have hasc := regions_ascending hne hapart
  rw [take_firstAbove (stop - 1) hasc, firstAbove_eq_length_filter start hasc]
  have hsplit := filter_append_filter_of_ascending start
    (hasc.filter fun r => decide (r.start ≤ stop - 1))
  have hlow : (s.regions.toList.filter fun r => r.start ≤ stop - 1).filter
      (fun r => r.start ≤ start) = s.regions.toList.filter fun r => r.start ≤ start := by
    rw [List.filter_filter]
    apply List.filter_congr
    intro r _
    rw [Bool.eq_iff_iff]
    simp only [Bool.and_eq_true, decide_eq_true_eq]
    omega
  rw [hlow] at hsplit
  rw [← hsplit, List.drop_left, List.mem_filter, List.mem_filter]
  simp only [decide_eq_true_eq]
  constructor
  · rintro ⟨⟨h1, h2⟩, h3⟩
    exact ⟨h1, h3, by omega⟩
  · rintro ⟨h1, h2, h3⟩
    exact ⟨⟨h1, by omega⟩, h2⟩

/-- A match spares all regions exactly if it may start where it does and is allowed. -/
theorem mayStart_and_allows_iff {start stop : Int} (h : start < stop) :
    (s.mayStart start && s.allows start stop) = true ↔
      ∀ r ∈ s.regions.toList, r.Spares start stop := by
  have hat := @regionAt?_eq_some_iff s hne hapart
  simp only [Bool.and_eq_true, mayStart, allows, Bool.not_eq_true', Option.any_eq_false,
    List.any_eq_false, decide_eq_false_iff_not, mem_regions_between hne hapart h]
  constructor
  · rintro ⟨hstart, hend, hinner⟩ r hr ⟨h1, h2⟩
    have hstop : r.stop ≤ stop := by
      by_contra hlt
      exact hend r (hat.mpr ⟨hr, by omega, by omega⟩) (by omega)
    by_cases hle : r.start ≤ start
    · rw [hat.mpr ⟨hr, hle, h2⟩] at hstart
      simp only [Bool.not_eq_true', Bool.or_eq_false_iff, bne_eq_false_iff_eq] at hstart
      exact ⟨hstart.1, by omega, hstop⟩
    · refine ⟨?_, by omega, hstop⟩
      simpa using hinner r ⟨hr, by omega, h1⟩
  · intro hall
    refine ⟨?_, ?_, ?_⟩
    · cases hr : s.regionAt? start with
      | none => rfl
      | some r =>
        obtain ⟨hmem, h1, h2⟩ := hat.mp hr
        obtain ⟨hc, h3, -⟩ := hall r hmem ⟨by omega, h2⟩
        have : r.start = start := by omega
        simp [hc, this]
    · intro r hr hlt
      obtain ⟨hmem, h1, h2⟩ := hat.mp hr
      have := hall r hmem ⟨by omega, by omega⟩
      omega
    · rintro r ⟨hmem, h1, h2⟩
      have := hne r hmem
      simp [(hall r hmem ⟨h2, by omega⟩).1]

end Tests

end Shield

end CobolText
