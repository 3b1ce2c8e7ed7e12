import CobolText.Replacement.Apply
import CobolText.Proofs.ShieldedText
import Mathlib

/-!
# Replacement from left to right

The edits of a rule list are told without the scan: each starts at the least offset behind the one
before it at which some rule fits, the first such rule makes it, and behind the last edit no rule
fits any more.  A rule fits where its pattern matches at least one character and the match neither
touches a comment nor cuts a literal.  The new text is the old one with the matched text exchanged;
everything outside the edits is copied with its origin.
-/

namespace CobolText

namespace WordPattern

lemma lengthAt?_le {parts : List PatternPart} {s : List Char} {n : Nat}
    (h : lengthAt? parts s = some n) : n ≤ s.length := by
  fun_induction lengthAt? parts s generalizing n with
  | case1 =>
    have := Option.some.inj h
    omega
  | case2 text parts s hpre ih =>
    obtain ⟨m, hm, rfl⟩ := Option.map_eq_some_iff.mp h
    have hle := ih hm
    have hlen := (List.isPrefixOf_iff_prefix.mp hpre).length_le
    rw [List.length_drop] at hle
    omega
  | case3 => simp at h
  | case4 text parts s rest hrest ih =>
    obtain ⟨m, hm, rfl⟩ := Option.map_eq_some_iff.mp h
    have hle := ih hm
    have hlen := Text.length_dropWord hrest
    omega
  | case5 => simp at h
  | case6 parts s k =>
    rename_i ih
    obtain ⟨i, hi, hfound⟩ := List.exists_of_findSome?_eq_some h
    obtain ⟨m, hm, rfl⟩ := Option.map_eq_some_iff.mp hfound
    have hle := ih i hm
    have hlt : i < k := by simpa using hi
    have htake : k ≤ s.length := (List.takeWhile_sublist isGapChar).length_le
    rw [List.length_drop] at hle
    omega

lemma matchLength?_le {p : WordPattern} {before : Option Char} {s : List Char} {n : Nat}
    (h : p.matchLength? before s = some n) : n ≤ s.length := by
  unfold matchLength? at h
  split at h
  · simp at h
  · exact lengthAt?_le h

end WordPattern

namespace Edit

/-- The character in front of an offset. -/
def charBefore (text : List Char) (pos : Nat) : Option Char :=
  if pos = 0 then none else text[pos - 1]?

/-- Whether the text from `start` to `stop` may be exchanged: it has no character of a comment, be
it one that the tokens show or one that the origins tell, and every literal lies wholly inside it
or wholly outside. -/
structure Admissible (t : TracedText) (start stop : Nat) : Prop where
  comments : ∀ u ∈ Token.tokens false 0 t.text, u.kind = .comment →
    stop ≤ u.start ∨ u.stop ≤ start
  origins : ∀ e ∈ t.extents, e.isComment = true → (stop : Int) ≤ e.start ∨ e.stop ≤ start
  literals : ∀ u ∈ Token.tokens false 0 t.text, u.kind = .literal →
    (start ≤ u.start ∧ u.stop ≤ stop) ∨ stop ≤ u.start ∨ u.stop ≤ start

/-- Whether a rule can exchange the text from `start` to `stop`: its pattern matches just this
text, which is not empty and may be exchanged. -/
def Fits (t : TracedText) (rule : ReplacementRule) (start stop : Nat) : Prop :=
  start < stop ∧
    rule.words.matchLength? (charBefore t.text start) (t.text.drop start) = some (stop - start) ∧
    Admissible t start stop

/-- Whether no rule fits at an offset. -/
def NoneFits (t : TracedText) (rules : List ReplacementRule) (start : Nat) : Prop :=
  ∀ rule ∈ rules, ∀ stop, ¬Fits t rule start stop

/-- Whether an edit is made by the first rule that fits where it starts. -/
def IsFirst (t : TracedText) (rules : List ReplacementRule) (e : Edit) : Prop :=
  ∃ earlier later, rules = earlier ++ e.rule :: later ∧ Fits t e.rule e.start e.stop ∧
    NoneFits t earlier e.start

/-- The edits to make from `pos` on: each at the least offset at which a rule fits, by the first
rule that does, until no rule fits any more. -/
inductive Leftmost (t : TracedText) (rules : List ReplacementRule) : Nat → List Edit → Prop
  | done {pos : Nat} (none : ∀ p, pos ≤ p → NoneFits t rules p) : Leftmost t rules pos []
  | edit {pos : Nat} {e : Edit} {es : List Edit} (le : pos ≤ e.start)
      (none : ∀ p, pos ≤ p → p < e.start → NoneFits t rules p) (first : IsFirst t rules e)
      (rest : Leftmost t rules e.stop es) : Leftmost t rules pos (e :: es)

/-- The characters of a text from `pos` on after the edits: what is exchanged becomes the text of
the rule as it is, which stands for the first character exchanged; all else is kept. -/
def rewritten (t : TracedText) (pos : Nat) : List Edit → List TracedChar
  | [] => t.trace.drop pos
  | e :: es => (t.trace.take e.start).drop pos ++
      e.rule.replacement.map (fun c => (c, (t.map.originAt? e.start).map Origin.replaced)) ++
      rewritten t e.stop es

/-- A character that no edit exchanges is still there. -/
lemma mem_rewritten_of_clear {t : TracedText} {pos : Nat} {es : List Edit} {i : Nat}
    {x : TracedChar} (hpos : pos ≤ i) (hx : t.trace[i]? = some x)
    (hclear : ∀ e ∈ es, ¬(e.start ≤ i ∧ i < e.stop)) :
    x ∈ rewritten t pos es := by
  induction es generalizing pos with
  | nil =>
    rw [rewritten]
    apply List.mem_of_getElem? (i := i - pos)
    rw [List.getElem?_drop, Nat.add_sub_cancel' hpos]
    exact hx
  | cons e es ih =>
    have hhead := hclear e (by simp)
    rw [rewritten, List.mem_append, List.mem_append]
    by_cases hlt : i < e.start
    · left
      left
      apply List.mem_of_getElem? (i := i - pos)
      rw [List.getElem?_drop, Nat.add_sub_cancel' hpos, List.getElem?_take_of_lt hlt]
      exact hx
    · right
      exact ih (by omega) fun u hu => hclear u (by simp [hu])

lemma Leftmost.isFirst {t : TracedText} {rules : List ReplacementRule} {pos : Nat}
    {es : List Edit} (h : Leftmost t rules pos es) : ∀ e ∈ es, IsFirst t rules e := by
  induction h with
  | done => simp
  | edit le none first rest ih => exact List.forall_mem_cons.mpr ⟨first, ih⟩

lemma Leftmost.of_noneFits {t : TracedText} {rules : List ReplacementRule} {pos next : Nat}
    {es : List Edit} (h : Leftmost t rules next es) (hle : pos ≤ next)
    (hnone : ∀ p, pos ≤ p → p < next → NoneFits t rules p) : Leftmost t rules pos es := by
  cases h with
  | done none =>
    refine .done fun p hp => ?_
    by_cases hlt : p < next
    · exact hnone p hp hlt
    · exact none p (by omega)
  | edit le none first rest =>
    refine .edit (by omega) (fun p hp hpe => ?_) first rest
    by_cases hlt : p < next
    · exact hnone p hp hlt
    · exact none p (by omega) hpe

/-- What may be exchanged is what spares all literals and comments. -/
lemma admissible_iff (t : TracedText) (start stop : Nat) :
    Admissible t start stop ↔ ∀ r ∈ Shield.parts t, r.Spares start stop := by
  constructor
  · rintro ⟨hcomments, horigins, hliterals⟩ r hr ⟨h1, h2⟩
    rcases List.mem_append.mp hr with hr | hr
    · obtain ⟨u, hu, hur⟩ := List.mem_filterMap.mp hr
      obtain ⟨hstart, hstop, ⟨hc, hk⟩ | ⟨hc, hk⟩⟩ := Shield.ofToken?_eq_some hur
      · have := hliterals u hu hk
        exact ⟨hc, by omega, by omega⟩
      · have := hcomments u hu hk
        omega
    · obtain ⟨p, hp, rfl⟩ := List.mem_map.mp hr
      obtain ⟨e, he, hc, rfl⟩ := Shield.mem_comments.mp hp
      have := horigins e he hc
      simp only at h1 h2
      omega
  · intro h
    have htoken : ∀ u ∈ Token.tokens false 0 t.text, ∀ r, ShieldRegion.ofToken? u = some r →
        r.Spares start stop := fun u hu r hr =>
      h r (List.mem_append_left _ (List.mem_filterMap.mpr ⟨u, hu, hr⟩))
    refine ⟨?_, ?_, ?_⟩
    · intro u hu hk
      have hs := htoken u hu ⟨u.start, u.stop, true⟩ (by simp [ShieldRegion.ofToken?, hk])
      by_contra hmeets
      exact absurd (hs ⟨by simp only; omega, by simp only; omega⟩).1 (by simp)
    · intro e he hc
      have hs := h ⟨e.start, e.stop, true⟩ (List.mem_append_right _ (List.mem_map.mpr
        ⟨(e.start, e.stop), Shield.mem_comments.mpr ⟨e, he, hc, rfl⟩, rfl⟩))
      by_contra hmeets
      exact absurd (hs ⟨by simp only; omega, by simp only; omega⟩).1 (by simp)
    · intro u hu hk
      have hs := htoken u hu ⟨u.start, u.stop, false⟩ (by simp [ShieldRegion.ofToken?, hk])
      by_contra hmeets
      have := hs ⟨by simp only; omega, by simp only; omega⟩
      simp only at this
      omega

/-- What one rule can do at an offset. -/
def attempt? (shield : Shield) (pos : Nat) (before : Option Char) (s : List Char)
    (rule : ReplacementRule) : Option Edit :=
  match rule.words.matchLength? before s with
  | some n => if 0 < n && shield.allows pos (pos + n) then some ⟨pos, pos + n, rule⟩ else none
  | none => none

lemma at?_eq (shield : Shield) (rules : List ReplacementRule) (pos : Nat) (before : Option Char)
    (s : List Char) :
    at? shield rules pos before s =
      if shield.mayStart pos then rules.findSome? (attempt? shield pos before s) else none := by
  unfold at? Shield.mayStart
  cases shield.regionAt? pos with
  | none => rfl
  | some r =>
    cases h : (r.isComment || r.start != pos) with
    | true => simp [h]
    | false =>
      simp only [h, Bool.false_eq_true, if_false, Bool.not_false, if_true]
      rfl

/-- What the scan hands on to the offset at which it goes on. -/
lemma drop_and_charBefore {text cs : List Char} {c : Char} {pos next : Nat}
    (hs : text.drop pos = c :: cs) (hlt : pos < next) :
    text.drop next = cs.drop (next - pos - 1) ∧
      charBefore text next = (c :: cs)[next - pos - 1]? := by
  constructor
  · rw [show next = pos + (next - pos - 1 + 1) by omega, ← List.drop_drop, hs, List.drop_succ_cons]
    congr 1
    omega
  · rw [charBefore, if_neg (by omega), ← hs, List.getElem?_drop]
    congr 1
    omega

section Scan

variable {t : TracedText} (ht : t.WellFormed) (rules : List ReplacementRule)
include ht

lemma fits_iff {rule : ReplacementRule} {start stop : Nat} :
    Fits t rule start stop ↔ start < stop ∧
      rule.words.matchLength? (charBefore t.text start) (t.text.drop start) = some (stop - start) ∧
      (Shield.ofText t).mayStart start = true ∧ (Shield.ofText t).allows start stop = true := by
  obtain ⟨hne, hapart⟩ := Shield.regions_bounds ht
  constructor
  · rintro ⟨hlt, hmatch, hadm⟩
    have hlt' : (start : Int) < stop := by omega
    have htests := (Shield.mayStart_and_allows_iff hne hapart hlt').mpr
      ((Shield.spares_regions_iff ht hlt').mpr ((admissible_iff t start stop).mp hadm))
    rw [Bool.and_eq_true] at htests
    exact ⟨hlt, hmatch, htests.1, htests.2⟩
  · rintro ⟨hlt, hmatch, h1, h2⟩
    have hlt' : (start : Int) < stop := by omega
    refine ⟨hlt, hmatch, (admissible_iff t start stop).mpr ?_⟩
    apply (Shield.spares_regions_iff ht hlt').mp
    apply (Shield.mayStart_and_allows_iff hne hapart hlt').mp
    rw [h1, h2]
    rfl

lemma not_fits_of_attempt? {rule : ReplacementRule} {pos : Nat}
    (h : attempt? (Shield.ofText t) pos (charBefore t.text pos) (t.text.drop pos) rule = none)
    (stop : Nat) : ¬Fits t rule pos stop := by
  intro hfits
  obtain ⟨hlt, hmatch, -, hallows⟩ := (fits_iff ht).mp hfits
  have hcast : (pos : Int) + (stop - pos : Nat) = stop := by omega
  have hpos : 0 < stop - pos := by omega
  simp [attempt?, hmatch, hpos, hcast, hallows] at h

lemma fits_of_attempt? {rule : ReplacementRule} {pos : Nat} {e : Edit}
    (hstart : (Shield.ofText t).mayStart pos = true)
    (h : attempt? (Shield.ofText t) pos (charBefore t.text pos) (t.text.drop pos) rule = some e) :
    e.start = pos ∧ e.rule = rule ∧ Fits t rule pos e.stop := by
  unfold attempt? at h
  split at h
  · rename_i n hn
    split at h
    · rename_i hok
      simp only [Bool.and_eq_true, decide_eq_true_eq] at hok
      rw [← Option.some.inj h]
      refine ⟨rfl, rfl, (fits_iff ht).mpr ⟨by simp only; omega, ?_, hstart, hok.2⟩⟩
      rw [hn]
      congr 1
      simp only
      omega
    · simp at h
  · simp at h

/-- The edit that the scan makes at an offset is that of the first rule that fits there. -/
lemma isFirst_of_at? {pos : Nat} {e : Edit}
    (h : at? (Shield.ofText t) rules pos (charBefore t.text pos) (t.text.drop pos) = some e) :
    e.start = pos ∧ IsFirst t rules e := by
  rw [at?_eq] at h
  split at h
  · rename_i hstart
    obtain ⟨earlier, rule, later, hrules, hrule, hearlier⟩ := List.findSome?_eq_some_iff.mp h
    obtain ⟨h1, h2, h3⟩ := fits_of_attempt? ht hstart hrule
    rw [← h2] at hrules h3
    rw [← h1] at h3 hearlier
    exact ⟨h1, earlier, later, hrules, h3, fun r hr => not_fits_of_attempt? ht (hearlier r hr)⟩
  · simp at h

/-- Where the scan makes no edit, no rule fits up to the offset at which it goes on. -/
lemma noneFits_of_at? {pos : Nat}
    (h : at? (Shield.ofText t) rules pos (charBefore t.text pos) (t.text.drop pos) = none) :
    pos < past pos ((Shield.ofText t).regionAt? pos) ∧
      ∀ p, pos ≤ p → p < past pos ((Shield.ofText t).regionAt? pos) → NoneFits t rules p := by
  obtain ⟨hne, hapart⟩ := Shield.regions_bounds ht
  -- At `pos` itself, the match must not start there or every rule was tried in vain.
  have hhere : NoneFits t rules pos := by
    intro rule hrule stop hfits
    rw [at?_eq, if_pos ((fits_iff ht).mp hfits).2.2.1] at h
    exact not_fits_of_attempt? ht (List.findSome?_eq_none_iff.mp h rule hrule) stop hfits
  cases hr : (Shield.ofText t).regionAt? pos with
  | none =>
    simp only [past]
    refine ⟨by omega, fun p h1 h2 => ?_⟩
    rw [show p = pos by omega]
    exact hhere
  | some r =>
    obtain ⟨hmem, h1, h2⟩ := (Shield.regionAt?_eq_some_iff hne hapart).mp hr
    simp only [past]
    refine ⟨by omega, fun p hp1 hp2 => ?_⟩
    by_cases heq : p = pos
    · rw [heq]
      exact hhere
    · -- Further inside the region, a match would cut it.
      intro rule _ stop hfits
      have hlt : (p : Int) < stop := by
        have := hfits.1
        omega
      have hspares := (Shield.spares_regions_iff ht hlt).mpr
        ((admissible_iff t p stop).mp hfits.2.2) r hmem
      have := hspares ⟨by omega, by omega⟩
      omega

/-- The scan makes the leftmost edits. -/
lemma leftmost_scan (pos : Nat) :
    Leftmost t rules pos
      (scan (Shield.ofText t) rules pos (charBefore t.text pos) (t.text.drop pos)) := by
  generalize hs : t.text.drop pos = s
  generalize hb : charBefore t.text pos = before
  fun_induction scan (Shield.ofText t) rules pos before s with
  | case1 pos before =>
    refine .done fun p hp rule _ stop hfits => ?_
    have hle := WordPattern.matchLength?_le hfits.2.1
    have hlen := congrArg List.length hs
    rw [List.length_drop] at hlen hle
    have := hfits.1
    simp only [List.length_nil] at hlen
    omega
  | case2 pos before c cs e he n ih =>
    rw [← hs, ← hb] at he
    obtain ⟨hstart, hfirst⟩ := isFirst_of_at? ht rules he
    have hlt : pos < e.stop := by
      obtain ⟨-, -, -, hfits, -⟩ := hfirst
      have := hfits.1
      omega
    obtain ⟨h1, h2⟩ := drop_and_charBefore hs hlt
    exact .edit (by omega) (fun p hp hpe => by omega) hfirst (ih h1 h2)
  | case3 pos before c cs he next n ih =>
    rw [← hs, ← hb] at he
    obtain ⟨hlt, hnone⟩ := noneFits_of_at? ht rules he
    obtain ⟨h1, h2⟩ := drop_and_charBefore hs hlt
    exact (ih h1 h2).of_noneFits (Nat.le_of_lt hlt) hnone

end Scan

/-- Edits one behind the other, all of them in a text of `length` characters. -/
def Ordered (length : Nat) (pos : Nat) : List Edit → Prop
  | [] => True
  | e :: es => pos ≤ e.start ∧ e.start ≤ e.stop ∧ e.stop ≤ length ∧ Ordered length e.stop es

lemma Ordered.of_le {length pos next : Nat} {es : List Edit} (h : Ordered length next es)
    (hle : pos ≤ next) : Ordered length pos es := by
  cases es with
  | nil => trivial
  | cons e es => exact ⟨Nat.le_trans hle h.1, h.2⟩

lemma bounds_of_first? {shield : Shield} {rules : List ReplacementRule} {pos : Nat}
    {before : Option Char} {s : List Char} {e : Edit}
    (h : first? shield rules pos before s = some e) :
    e.start = pos ∧ pos < e.stop ∧ e.stop ≤ pos + s.length := by
  obtain ⟨rule, -, hrule⟩ := List.exists_of_findSome?_eq_some h
  split at hrule
  · rename_i n hn
    have hle := WordPattern.matchLength?_le hn
    split at hrule
    · rename_i hok
      simp only [Bool.and_eq_true, decide_eq_true_eq] at hok
      rw [← Option.some.inj hrule]
      exact ⟨rfl, Nat.lt_add_of_pos_right hok.1, Nat.add_le_add_left hle pos⟩
    · simp at hrule
  · simp at hrule

lemma bounds_of_at? {shield : Shield} {rules : List ReplacementRule} {pos : Nat}
    {before : Option Char} {s : List Char} {e : Edit}
    (h : at? shield rules pos before s = some e) :
    e.start = pos ∧ pos < e.stop ∧ e.stop ≤ pos + s.length := by
  unfold at? at h
  split at h
  · split at h
    · simp at h
    · exact bounds_of_first? h
  · exact bounds_of_first? h

lemma le_past (shield : Shield) (pos : Nat) : pos ≤ past pos (shield.regionAt? pos) := by
  unfold past
  split
  · rename_i r hr
    unfold Shield.regionAt? at hr
    split at hr
    · simp at hr
    · have hlt := (Option.filter_eq_some_iff.mp hr).2
      simp only [decide_eq_true_eq] at hlt
      omega
  · omega

/-- Whatever the shield of a text is, the scan makes its edits one behind the other. -/
lemma ordered_scan (shield : Shield) (rules : List ReplacementRule) (pos : Nat)
    (before : Option Char) (s : List Char) {length : Nat} (hlen : s.length ≤ length - pos) :
    Ordered length pos (scan shield rules pos before s) := by
  fun_induction scan shield rules pos before s with
  | case1 => trivial
  | case2 pos before c cs e he n ih =>
    obtain ⟨h1, h2, h3⟩ := bounds_of_at? he
    simp only [List.length_cons] at h3 hlen
    refine ⟨by omega, by omega, by omega, ih ?_⟩
    rw [List.length_drop]
    omega
  | case3 pos before c cs he next n ih =>
    have hle : pos ≤ next := le_past shield pos
    refine (ih ?_).of_le hle
    rw [List.length_drop]
    simp only [List.length_cons] at hlen
    omega

/-- What holds of every cut and of every replacement holds of all that edits leave. -/
lemma forall_fragmentsFrom {t : TracedText} {P : Fragment → Prop}
    (hcut : ∀ start stop : Nat, stop ≤ t.text.length → P (t.cut start stop []))
    (hreplacement : ∀ text replaced position, P (Fragment.replacement text replaced position))
    {pos : Nat} {es : List Edit} (h : Ordered t.text.length pos es) :
    ∀ f ∈ fragmentsFrom t pos es, P f := by
  induction es generalizing pos with
  | nil =>
    intro f hf
    rw [List.mem_singleton.mp hf]
    exact hcut pos _ (Nat.le_refl _)
  | cons e es ih =>
    obtain ⟨h1, h2, h3, hrest⟩ := h
    intro f hf
    simp only [fragmentsFrom, List.mem_cons] at hf
    rcases hf with rfl | rfl | hf
    · exact hcut pos _ (by omega)
    · exact hreplacement _ _ _
    · exact ih hrest f hf

lemma trace_fragmentsFrom {t : TracedText} (ht : ∀ e ∈ t.extents, e.start < e.stop)
    {pos : Nat} {es : List Edit} (h : Ordered t.text.length pos es) :
    (fragmentsFrom t pos es).flatMap Fragment.trace = rewritten t pos es := by
  induction es generalizing pos with
  | nil =>
    simp only [fragmentsFrom, rewritten, List.flatMap_cons, List.flatMap_nil, List.append_nil]
    rw [t.trace_cut ht pos (Nat.le_refl _), TracedChar.within_nil, List.map_id,
      List.take_of_length_le (by simp)]
  | cons e es ih =>
    obtain ⟨h1, h2, h3, hrest⟩ := h
    simp only [fragmentsFrom, rewritten, List.flatMap_cons, List.append_assoc]
    rw [t.trace_cut ht pos (show e.start ≤ t.text.length by omega), TracedChar.within_nil,
      List.map_id, Fragment.trace_replacement, ih hrest]

end Edit

namespace TracedText

lemma leftmost_edits {t : TracedText} (ht : t.WellFormed) (rules : List ReplacementRule) :
    Edit.Leftmost t rules 0 (t.edits rules) :=
  Edit.leftmost_scan ht rules 0

/-- Without rules no edit is made, whatever the map says. -/
lemma edits_nil (t : TracedText) : t.edits [] = [] := by
  have hnone : ∀ (shield : Shield) (pos : Nat) (before : Option Char) (s : List Char),
      Edit.at? shield [] pos before s = none := by
    intro shield pos before s
    unfold Edit.at? Edit.first?
    split
    · split <;> rfl
    · rfl
  have hscan : ∀ (shield : Shield) (pos : Nat) (before : Option Char) (s : List Char),
      Edit.scan shield [] pos before s = [] := by
    intro shield pos before s
    fun_induction Edit.scan shield [] pos before s with
    | case1 => rfl
    | case2 pos before c cs e he n ih => simp [hnone] at he
    | case3 pos before c cs he next n ih => exact ih
  exact hscan _ 0 none t.text

lemma ordered_edits (t : TracedText) (rules : List ReplacementRule) :
    Edit.Ordered t.text.length 0 (t.edits rules) :=
  Edit.ordered_scan _ _ _ _ _ (Nat.le_refl _)

lemma proper_fragments_edits (t : TracedText) (rules : List ReplacementRule) :
    ∀ f ∈ Edit.fragmentsFrom t 0 (t.edits rules), f.Proper :=
  Edit.forall_fragmentsFrom (fun start _ h => t.proper_cut start h [])
    Fragment.proper_replacement (t.ordered_edits rules)

lemma Proper.replace {t : TracedText} (ht : t.Proper) (rules : List ReplacementRule) :
    (t.replace rules).Proper := by
  unfold TracedText.replace
  split
  · exact ht
  · exact proper_assemble (t.proper_fragments_edits rules)

lemma WellFormed.replace {t : TracedText} (ht : t.WellFormed) (rules : List ReplacementRule) :
    (t.replace rules).WellFormed := by
  unfold TracedText.replace
  split
  · exact ht
  · exact wellFormed_assemble (Edit.forall_fragmentsFrom (fun start _ h => ht.cut start h [])
      Fragment.wellFormed_replacement (t.ordered_edits rules))

lemma Proper.trace_replace {t : TracedText} (ht : t.Proper) (rules : List ReplacementRule) :
    (t.replace rules).trace = Edit.rewritten t 0 (t.edits rules) := by
  unfold TracedText.replace
  split
  · rename_i hnil
    rw [List.isEmpty_iff.mp hnil, edits_nil]
    rfl
  · rw [trace_assemble (t.proper_fragments_edits rules),
      Edit.trace_fragmentsFrom (fun e he => (ht e he).2.1) (t.ordered_edits rules)]

lemma trace_replace {t : TracedText} (ht : t.WellFormed) (rules : List ReplacementRule) :
    (t.replace rules).trace = Edit.rewritten t 0 (t.edits rules) :=
  ht.proper.trace_replace rules

/-- Replacement against its specification: the edits of a rule list are the leftmost ones that
spare literals and comments, each made by the first rule that fits, and the new text is the old
one with the edits made and everything else kept character by character. -/
theorem replace_leftmost (t : TracedText) (ht : t.WellFormed) (rules : List ReplacementRule) :
    Edit.Leftmost t rules 0 (t.edits rules) ∧
      (t.replace rules).trace = Edit.rewritten t 0 (t.edits rules) ∧
      (t.replace rules).WellFormed :=
  ⟨leftmost_edits ht rules, trace_replace ht rules, ht.replace rules⟩

/-- A line of code with a literal, and a comment behind it. -/
def sampleLine : TracedText :=
  assemble [
    Fragment.copied ['a', 'b', ' ', '\x27', 'A', 'B', '\x27', ' ', 'A', 'B', ' '] ⟨"main", 1, 8⟩ {},
    Fragment.copied ['*', '>', 'A', 'B'] ⟨"main", 2, 8⟩ { comment := true }]

/-- A rule that exchanges one word. -/
def sampleRule : ReplacementRule :=
  ⟨['A', 'B'], ['X'], false, ⟨[.anyCase ['A', 'B']], true⟩⟩

lemma wellFormed_sampleLine : sampleLine.WellFormed := by
  apply wellFormed_assemble
  intro f hf
  simp only [List.mem_cons, List.not_mem_nil, or_false] at hf
  rcases hf with rfl | rfl <;> exact Fragment.wellFormed_copied _ _ _

/-- Of four places with the word, those in the literal and in the comment are left alone. -/
theorem replace_leftmost_sampleLine :
    sampleLine.edits [sampleRule] = [⟨0, 2, sampleRule⟩, ⟨8, 10, sampleRule⟩] ∧
      Edit.Leftmost sampleLine [sampleRule] 0 (sampleLine.edits [sampleRule]) ∧
      (sampleLine.replace [sampleRule]).trace =
        Edit.rewritten sampleLine 0 [⟨0, 2, sampleRule⟩, ⟨8, 10, sampleRule⟩] := by
  have hedits : sampleLine.edits [sampleRule] = [⟨0, 2, sampleRule⟩, ⟨8, 10, sampleRule⟩] := by
    cbv
  obtain ⟨hleft, htrace, -⟩ := replace_leftmost sampleLine wellFormed_sampleLine [sampleRule]
  rw [hedits] at htrace
  exact ⟨hedits, hleft, htrace⟩

end TracedText

end CobolText
