import CobolText.Origin.Map
import Mathlib.Data.List.Basic
import Mathlib.Tactic.Common

/-!
# What bisection finds

In an array whose keys ascend, `firstAbove` is the length of the part with keys up to the one
looked for.  With it the two ways to ask an origin map are told without an index: `extentAt?` is
the last extent to start at or before an offset, if it reaches so far, and `between` is that
extent followed by all that start inside the interval.
-/

namespace CobolText

/-- Halving ends at the index that divides the keys up to `x` from those above it. -/
lemma bisect_eq {α : Type} (xs : Array α) (key : α → Int) (x : Int) (k : Nat)
    (below : ∀ i (hi : i < xs.size), i < k → key xs[i] ≤ x)
    (above : ∀ i (hi : i < xs.size), k ≤ i → x < key xs[i])
    (lo hi : Nat) (h : hi ≤ xs.size) (hlo : lo ≤ k) (hhi : k ≤ hi) :
    bisect xs key x lo hi h = k := by
  fun_induction bisect xs key x lo hi h with
  | case1 lo hi h lt mid hm hx ih =>
    refine ih hlo (Nat.le_of_not_lt fun hmk => ?_)
    have := below mid hm hmk
    omega
  | case2 lo hi h lt mid hm hx ih =>
    refine ih (Nat.succ_le_of_lt (Nat.lt_of_not_le fun hkm => ?_)) hhi
    exact hx (above mid hm hkm)
  | case3 lo hi h lt => omega

/-- Items with keys up to `x` before items with keys above it: the search finds the border. -/
lemma firstAbove_eq_length {α : Type} {xs : Array α} {key : α → Int} {x : Int} {ys zs : List α}
    (hxs : xs.toList = ys ++ zs) (hy : ∀ a ∈ ys, key a ≤ x) (hz : ∀ a ∈ zs, x < key a) :
    firstAbove xs key x = ys.length := by
  have hsize : xs.size = ys.length + zs.length := by
    rw [← Array.length_toList, hxs, List.length_append]
  refine bisect_eq xs key x ys.length ?_ ?_ 0 xs.size _ (Nat.zero_le _) (by omega)
  · intro i hi hik
    have hget : xs[i] = ys[i] := by
      simp only [← Array.getElem_toList, hxs]
      exact List.getElem_append_left hik
    rw [hget]
    exact hy _ (List.getElem_mem hik)
  · intro i hi hki
    have hget : xs[i] = zs[i - ys.length] := by
      simp only [← Array.getElem_toList, hxs]
      exact List.getElem_append_right hki
    rw [hget]
    exact hz _ (List.getElem_mem (by omega))

/-- A list with ascending keys falls into the part up to `x` and the part above it. -/
lemma filter_append_filter_of_ascending {α : Type} {key : α → Int} {xs : List α} (x : Int)
    (h : xs.Pairwise fun a b => key a ≤ key b) :
    xs.filter (fun a => key a ≤ x) ++ xs.filter (fun a => x < key a) = xs := by
  induction xs with
  | nil => rfl
  | cons a xs ih =>
    obtain ⟨ha, hxs⟩ := List.pairwise_cons.mp h
    by_cases hx : key a ≤ x
    · have hx' : ¬x < key a := by omega
      simp [hx, hx', ih hxs]
    · have hx' : x < key a := by omega
      have hnone : xs.filter (fun a => key a ≤ x) = [] := by
        rw [List.filter_eq_nil_iff]
        intro b hb
        have := ha b hb
        simp only [decide_eq_true_eq]
        omega
      have hall : xs.filter (fun a => x < key a) = xs := by
        rw [List.filter_eq_self]
        intro b hb
        have := ha b hb
        simp only [decide_eq_true_eq]
        omega
      simp [hx, hx', hnone, hall]

lemma firstAbove_eq_length_filter {α : Type} {xs : Array α} {key : α → Int} (x : Int)
    (h : xs.toList.Pairwise fun a b => key a ≤ key b) :
    firstAbove xs key x = (xs.toList.filter fun a => key a ≤ x).length := by
  apply firstAbove_eq_length (filter_append_filter_of_ascending x h).symm
  · intro a ha
    simpa using (List.mem_filter.mp ha).2
  · intro a ha
    simpa using (List.mem_filter.mp ha).2

lemma take_firstAbove {α : Type} {xs : Array α} {key : α → Int} (x : Int)
    (h : xs.toList.Pairwise fun a b => key a ≤ key b) :
    xs.toList.take (firstAbove xs key x) = xs.toList.filter fun a => key a ≤ x := by
  have hsplit := filter_append_filter_of_ascending x h
  rw [firstAbove_eq_length_filter x h]
  generalize xs.toList.filter (fun a => key a ≤ x) = ys at hsplit ⊢
  rw [← hsplit]
  exact List.take_left

/-- The item in front of the place that the search finds is the last one with a key up to `x`. -/
lemma match_firstAbove {α : Type} {xs : Array α} {key : α → Int} (x : Int) (p : α → Bool)
    (h : xs.toList.Pairwise fun a b => key a ≤ key b) :
    (match firstAbove xs key x with
      | 0 => none
      | i + 1 => xs[i]?.filter p) = (xs.toList.filter fun a => key a ≤ x).getLast?.filter p := by
  have htake := take_firstAbove x h
  have hlen := firstAbove_eq_length_filter x h
  cases hn : firstAbove xs key x with
  | zero =>
    rw [hn] at htake
    rw [← htake]
    rfl
  | succ i =>
    rw [hn] at htake hlen
    simp only
    rw [List.getLast?_eq_getElem?, ← hlen, Nat.add_sub_cancel, ← htake,
      List.getElem?_take_of_lt (Nat.lt_succ_self i), Array.getElem?_toList]

/-- Among intervals that come one behind the other, the one that holds `x` is the last to start at
or before it. -/
lemma getLast?_filter_of_apart {α : Type} {start stop : α → Int} {xs : List α} {a : α} {x : Int}
    (h : xs.Pairwise fun a b => stop a ≤ start b) (ha : a ∈ xs) (h1 : start a ≤ x)
    (h2 : x < stop a) : (xs.filter fun b => start b ≤ x).getLast? = some a := by
  obtain ⟨before, after, rfl⟩ := List.append_of_mem ha
  have hafter : after.filter (fun b => start b ≤ x) = [] := by
    rw [List.filter_eq_nil_iff]
    intro b hb
    have := (List.pairwise_cons.mp (List.pairwise_append.mp h).2.1).1 b hb
    simp only [decide_eq_true_eq]
    omega
  simp [h1, hafter]

namespace Extent

/-- The last of some extents to start at or before an offset, if it reaches so far. -/
def at? (es : List Extent) (offset : Int) : Option Extent :=
  (es.filter fun e => e.start ≤ offset).getLast?.filter fun e => e.covers offset

lemma covers_iff {e : Extent} {offset : Int} :
    e.covers offset = true ↔ e.start ≤ offset ∧ offset < e.stop := by
  simp [covers]

lemma covers_of_at? {es : List Extent} {offset : Int} {e : Extent} (h : at? es offset = some e) :
    e ∈ es ∧ e.start ≤ offset ∧ offset < e.stop := by
  obtain ⟨hlast, hcov⟩ := Option.filter_eq_some_iff.mp h
  have hmem := List.mem_of_getLast? hlast
  exact ⟨(List.mem_filter.mp hmem).1, covers_iff.mp hcov⟩

end Extent

namespace OriginMap

/-- Looking up an extent by halving finds the last one to start at or before the offset. -/
theorem extentAt?_eq_at? (m : OriginMap) (offset : Int) :
    m.extentAt? offset = Extent.at? m.toList offset := by
  exact match_firstAbove offset (fun e => e.covers offset) m.ascending

lemma drop_length_sub_one_append {α : Type} (as bs : List α) :
    (as ++ bs).drop (as.length - 1) = as.getLast?.toList ++ bs := by
  cases List.eq_nil_or_concat as with
  | inl h => simp [h]
  | inr h =>
    obtain ⟨init, a, rfl⟩ := h
    simp

/-- The extents that meet an interval are the last one to start at or before its beginning and
those that start inside it, as far as they reach past the beginning. -/
theorem between_eq (m : OriginMap) {start stop : Int} (h : start < stop) :
    m.between start stop =
      ((m.toList.filter fun e => e.start ≤ start).getLast?.toList ++
        m.toList.filter fun e => start < e.start ∧ e.start < stop).filter
          fun e => start < e.stop := by
  have hsplit := filter_append_filter_of_ascending start m.ascending
  have hfirst := firstAbove_eq_length_filter start m.ascending
  -- Those that start before `stop` start up to `start` or inside the interval.
  have hbefore : m.toList.filter (fun e => e.start ≤ stop - 1) =
      m.toList.filter (fun e => e.start ≤ start) ++
        m.toList.filter fun e => start < e.start ∧ e.start < stop := by
    have hys : (m.toList.filter fun e => e.start ≤ start).filter (fun e => e.start ≤ stop - 1) =
        m.toList.filter fun e => e.start ≤ start := by
      rw [List.filter_eq_self]
      intro e he
      have := (List.mem_filter.mp he).2
      simp only [decide_eq_true_eq] at this ⊢
      omega
    conv_lhs => rw [← show _ = m.toList from hsplit, List.filter_append]
    congr 1
    rw [List.filter_filter]
    apply List.filter_congr
    intro e _
    simp only [Bool.decide_and]
    rw [Bool.and_comm]
    congr 1
    exact decide_eq_decide.mpr (by omega)
  unfold between
  dsimp only
  rw [Array.toList_extract, List.extract_eq_take_drop, ← List.drop_take]
  change ((m.toList.take _).drop _).filter _ = _
  rw [show m.toList.take _ = _ from take_firstAbove (stop - 1) m.ascending, hfirst]
  change ((m.toList.filter _).drop _).filter _ = _
  rw [hbefore]
  exact congrArg (List.filter _) (drop_length_sub_one_append _ _)

end OriginMap

end CobolText
