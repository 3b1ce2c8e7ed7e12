import CobolText.LogicalLine.Marking
import Mathlib.Data.List.Basic
import Mathlib.Tactic.Common

/-!
# Comment blocks

The blocks of marked lines are the runs of neighbouring lines of one kind, as long as they can be:
they come one behind the other, hold every line that is a comment or a comment entry under its kind,
and no two of one kind touch.  A line that is marked once more stays as it is.
-/

namespace CobolText

lemma eq_or_rel_of_pairwise {α : Type} {R : α → α → Prop} {xs : List α} (h : xs.Pairwise R)
    {a b : α} (ha : a ∈ xs) (hb : b ∈ xs) : a = b ∨ R a b ∨ R b a := by
  induction xs with
  | nil => cases ha
  | cons x xs ih =>
    obtain ⟨hx, hxs⟩ := List.pairwise_cons.mp h
    rcases List.mem_cons.mp ha with rfl | ha
    · rcases List.mem_cons.mp hb with rfl | hb
      · exact .inl rfl
      · exact .inr (.inl (hx b hb))
    · rcases List.mem_cons.mp hb with hbx | hb
      · exact .inr (.inr (hbx ▸ hx a ha))
      · exact ih hxs ha hb

namespace CommentBlock

@[simp] lemma contains_iff {b : CommentBlock} {i : Int} :
    b.contains i = true ↔ b.first ≤ i ∧ i ≤ b.last := by
  simp [contains]

/-- Whether a block is a run of lines of its kind that is as long as it can be, where `kindAt` tells
the kinds of lines. -/
structure IsRun (kindAt : Int → Option CommentKind) (b : CommentBlock) : Prop where
  nonempty : b.first ≤ b.last
  inside : ∀ i, b.contains i = true → kindAt i = some b.kind
  before : kindAt (b.first - 1) ≠ some b.kind
  behind : kindAt (b.last + 1) ≠ some b.kind

lemma IsRun.eq {kindAt : Int → Option CommentKind} {a b : CommentBlock} (ha : a.IsRun kindAt)
    (hb : b.IsRun kindAt) {i : Int} (hia : a.contains i = true) (hib : b.contains i = true) :
    a = b := by
  have hkind : a.kind = b.kind := Option.some.inj ((ha.inside i hia).symm.trans (hb.inside i hib))
  have hreach : ∀ {c e : CommentBlock}, c.IsRun kindAt → e.IsRun kindAt → c.kind = e.kind →
      c.contains i = true → e.contains i = true → c.first ≤ e.first ∧ e.last ≤ c.last := by
    intro c e hc he hkind hic hie
    rw [contains_iff] at hic hie
    constructor
    · by_contra hlt
      apply hc.before
      rw [hkind]
      exact he.inside _ (contains_iff.mpr (by omega))
    · by_contra hlt
      apply hc.behind
      rw [hkind]
      exact he.inside _ (contains_iff.mpr (by omega))
  obtain ⟨hfirst, hlast⟩ := hreach ha hb hkind hia hib
  obtain ⟨hfirst', hlast'⟩ := hreach hb ha hkind.symm hib hia
  cases a
  cases b
  simp only [CommentBlock.mk.injEq] at *
  exact ⟨by omega, by omega, hkind⟩

/-- Whether blocks come one behind the other, and no two of one kind touch. -/
def Separate (blocks : List CommentBlock) : Prop :=
  blocks.Pairwise fun a b => a.last < b.first ∧ (a.last + 1 = b.first → a.kind ≠ b.kind)

/-- Whether blocks tell the kinds of lines: a line is in a block of a kind if it is of the kind. -/
structure Tells (kindAt : Int → Option CommentKind) (blocks : List CommentBlock) : Prop where
  separate : Separate blocks
  nonempty : ∀ b ∈ blocks, b.first ≤ b.last
  mem_iff : ∀ i kind, (∃ b ∈ blocks, b.kind = kind ∧ b.contains i = true) ↔ kindAt i = some kind

variable {kindAt : Int → Option CommentKind} {blocks : List CommentBlock}

lemma Tells.isRun (h : Tells kindAt blocks) {b : CommentBlock} (hb : b ∈ blocks) :
    b.IsRun kindAt := by
  have hnonempty := h.nonempty b hb
  -- A line right before or behind the block would be in a block of the same kind that touches it.
  have houtside : ∀ i, i + 1 = b.first ∨ b.last + 1 = i → kindAt i ≠ some b.kind := by
    intro i hnext hkind
    obtain ⟨c, hc, hsame, hin⟩ := (h.mem_iff i b.kind).mpr hkind
    rw [contains_iff] at hin
    obtain rfl | ⟨hlt, htouch⟩ | ⟨hlt, htouch⟩ := eq_or_rel_of_pairwise h.separate hb hc
    · omega
    · exact htouch (by omega) hsame.symm
    · exact htouch (by omega) hsame
  refine ⟨hnonempty, fun i hin => (h.mem_iff i b.kind).mp ⟨b, hb, rfl, hin⟩, ?_, ?_⟩
  · exact houtside _ (.inl (by omega))
  · exact houtside _ (.inr rfl)

/-- The blocks that tell the kinds of lines are the runs of lines of one kind. -/
lemma Tells.mem_iff_isRun (h : Tells kindAt blocks) (b : CommentBlock) :
    b ∈ blocks ↔ b.IsRun kindAt := by
  refine ⟨h.isRun, fun hrun => ?_⟩
  have hfirst : b.contains b.first = true := contains_iff.mpr ⟨Int.le_refl _, hrun.nonempty⟩
  obtain ⟨c, hc, -, hin⟩ := (h.mem_iff _ _).mpr (hrun.inside _ hfirst)
  rwa [hrun.eq (h.isRun hc) hfirst hin]

end CommentBlock

namespace LogicalLine

open CommentBlock

/-- The kinds of lines that are numbered from `index` on; lines of no number have none. -/
def kindFrom (index : Nat) (kinds : List (Option CommentKind)) (i : Int) : Option CommentKind :=
  if index ≤ i then kinds[(i - index).toNat]?.join else none

lemma kindFrom_cons (index : Nat) (kind : Option CommentKind) (kinds : List (Option CommentKind))
    (i : Int) :
    kindFrom index (kind :: kinds) i =
      if i = index then kind else kindFrom (index + 1) kinds i := by
  unfold kindFrom
  by_cases hi : i = index
  · simp [hi]
  · rw [if_neg hi]
    by_cases hle : (index : Int) ≤ i
    · obtain ⟨n, hn⟩ : ∃ n, (i - index).toNat = n + 1 := ⟨(i - index).toNat - 1, by omega⟩
      rw [if_pos hle, if_pos (by omega), hn, List.getElem?_cons_succ]
      congr 2
      omega
    · rw [if_neg hle, if_neg (by omega)]

lemma bounds_of_kindFrom {index : Nat} {kinds : List (Option CommentKind)} {i : Int}
    {k : CommentKind} (h : kindFrom index kinds i = some k) :
    index ≤ i ∧ i < index + kinds.length := by
  unfold kindFrom at h
  split at h
  · obtain ⟨hlt, -⟩ := List.getElem?_eq_some_iff.mp (Option.join_eq_some_iff.mp h)
    omega
  · cases h

variable {index : Nat} {kind : CommentKind} {blocks : List CommentBlock}

/-- A line in front of blocks is either joined to the first one or becomes a block. -/
lemma prependBlock_cases (index : Nat) (kind : CommentKind) (blocks : List CommentBlock) :
    (∃ b rest, blocks = b :: rest ∧ b.kind = kind ∧ b.first = index + 1 ∧
      prependBlock index kind blocks = ⟨index, b.last, kind⟩ :: rest) ∨
    ((∀ b ∈ blocks.head?, b.first = index + 1 → b.kind ≠ kind) ∧
      prependBlock index kind blocks = ⟨index, index, kind⟩ :: blocks) := by
  cases blocks with
  | nil => exact .inr ⟨by simp, rfl⟩
  | cons b rest =>
    simp only [prependBlock, Bool.and_eq_true, beq_iff_eq]
    split
    · rename_i hjoins
      exact .inl ⟨b, rest, rfl, hjoins.1, hjoins.2, by rw [hjoins.1]⟩
    · rename_i hapart
      refine .inr ⟨?_, rfl⟩
      simp only [List.head?_cons, Option.mem_def, Option.some.injEq, forall_eq']
      exact fun hfirst hkind => hapart ⟨hkind, hfirst⟩

/-- A line in front of blocks adds itself to what they hold under its kind. -/
lemma mem_prependBlock_iff (hnonempty : ∀ b ∈ blocks, b.first ≤ b.last) (i : Int)
    (k : CommentKind) :
    (∃ b ∈ prependBlock index kind blocks, b.kind = k ∧ b.contains i = true) ↔
      (i = index ∧ kind = k) ∨ ∃ b ∈ blocks, b.kind = k ∧ b.contains i = true := by
  obtain ⟨b, rest, rfl, hkind, hfirst, hjoined⟩ | ⟨-, hapart⟩ :=
    prependBlock_cases index kind blocks
  · have hle := hnonempty b (by simp)
    have hcontains : (⟨index, b.last, kind⟩ : CommentBlock).contains i = true ↔
        i = index ∨ b.contains i = true := by
      simp only [contains_iff]
      omega
    rw [hjoined, List.exists_mem_cons_iff, List.exists_mem_cons_iff, hcontains, hkind, ← or_assoc,
      and_or_left, and_comm (a := i = (index : Int))]
  · have hcontains : (⟨index, index, kind⟩ : CommentBlock).contains i = true ↔ i = index := by
      simp only [contains_iff]
      omega
    rw [hapart, List.exists_mem_cons_iff, hcontains, and_comm]

variable {kindAt : Int → Option CommentKind}

/-- Blocks of lines that are numbered from `index + 1` on tell the kinds of the lines from `index`
on if the first one is no comment. -/
lemma tells_skip (h : Tells kindAt blocks) (hfrom : ∀ i k, kindAt i = some k → index < i) :
    Tells (fun i => if i = index then none else kindAt i) blocks := by
  refine ⟨h.separate, h.nonempty, fun i k => ?_⟩
  rw [h.mem_iff]
  by_cases hi : i = index
  · rw [if_pos hi]
    constructor
    · intro hkind
      have := hfrom i k hkind
      omega
    · intro hkind
      cases hkind
  · rw [if_neg hi]

lemma tells_prependBlock (h : Tells kindAt blocks)
    (hfrom : ∀ i k, kindAt i = some k → index < i) :
    Tells (fun i => if i = index then some kind else kindAt i)
      (prependBlock index kind blocks) := by
  have hbehind : ∀ b ∈ blocks, index < b.first := fun b hb =>
    hfrom b.first b.kind ((h.isRun hb).inside _ (contains_iff.mpr ⟨Int.le_refl _, h.nonempty b hb⟩))
  refine ⟨?_, ?_, fun i k => ?_⟩
  · obtain ⟨b, rest, rfl, hkind, -, hjoined⟩ | ⟨hhead, hapart⟩ :=
      prependBlock_cases index kind blocks
    · obtain ⟨hlater, hrest⟩ := List.pairwise_cons.mp h.separate
      rw [hjoined, ← hkind]
      exact List.pairwise_cons.mpr ⟨hlater, hrest⟩
    · rw [hapart]
      refine List.pairwise_cons.mpr ⟨fun b hb => ⟨hbehind b hb, fun htouch hsame => ?_⟩, h.separate⟩
      -- Only the first block can touch the line.
      cases blocks with
      | nil => cases hb
      | cons c rest =>
        rcases List.mem_cons.mp hb with rfl | hb
        · exact hhead b rfl htouch.symm hsame.symm
        · have hlater := (List.pairwise_cons.mp h.separate).1 b hb
          have hc := hbehind c (by simp)
          have hnonempty := h.nonempty c (by simp)
          simp only at htouch
          omega
  · obtain ⟨b, rest, rfl, -, hfirst, hjoined⟩ | ⟨-, hapart⟩ :=
      prependBlock_cases index kind blocks
    · have hnonempty := h.nonempty b (by simp)
      rw [hjoined]
      refine List.forall_mem_cons.mpr ⟨?_, fun c hc => h.nonempty c (List.mem_cons_of_mem _ hc)⟩
      simp only
      omega
    · rw [hapart]
      exact List.forall_mem_cons.mpr ⟨Int.le_refl _, h.nonempty⟩
  · rw [mem_prependBlock_iff h.nonempty, h.mem_iff]
    by_cases hi : i = index
    · have hnone : kindAt i ≠ some k := by
        intro hkind
        have := hfrom i k hkind
        omega
      simp [hi, hi ▸ hnone]
    · simp [hi]

lemma tells_blocksFrom (index : Nat) (lines : List LogicalLine) :
    Tells (kindFrom index (lines.map commentKind?)) (blocksFrom index lines) := by
  induction lines generalizing index with
  | nil => exact ⟨List.Pairwise.nil, by simp [blocksFrom], by simp [blocksFrom, kindFrom]⟩
  | cons l lines ih =>
    have hfrom : ∀ i k, kindFrom (index + 1) (lines.map commentKind?) i = some k → index < i := by
      intro i k hkind
      have := (bounds_of_kindFrom hkind).1
      omega
    rw [List.map_cons, funext (kindFrom_cons index l.commentKind? _), blocksFrom]
    cases l.commentKind? with
    | none => exact tells_skip (ih (index + 1)) hfrom
    | some kind => exact tells_prependBlock (ih (index + 1)) hfrom

section Marks

variable (debugging : Bool) (l : LogicalLine)

lemma mark_mark : (l.mark debugging).mark debugging = l.mark debugging := by
  unfold mark
  by_cases hentry : l.commentEntry = true
  · rw [if_pos hentry]
    exact if_pos hentry
  · by_cases hout : l.isCommentedOut debugging = true
    · rw [if_neg hentry, if_pos hout, if_neg hentry]
      exact if_pos hout
    · rw [if_neg hentry, if_neg hout, if_neg hentry, if_neg hout]

/-- What a line counts as: an entry if it is flagged as one, and otherwise a comment if it is
written out as one. -/
def kindUnder : Option CommentKind :=
  if l.commentEntry then some .entry
  else if l.isCommentedOut debugging then some .comment else none

lemma commentKind?_mark (h : l.commented = false) :
    (l.mark debugging).commentKind? = l.kindUnder debugging := by
  unfold mark commentKind? kindUnder
  by_cases hentry : l.commentEntry = true
  · simp [hentry]
  · by_cases hout : l.isCommentedOut debugging = true
    · simp [hentry, hout]
    · simp [hentry, hout, h]

/-- What marking leaves alone. -/
lemma mark_keeps :
    ((l.mark debugging).kind, (l.mark debugging).segments, (l.mark debugging).provenance,
      (l.mark debugging).commentEntry) = (l.kind, l.segments, l.provenance, l.commentEntry) := by
  unfold mark
  split
  · rfl
  · split <;> rfl

lemma kindUnder_eq_entry_iff :
    l.kindUnder debugging = some .entry ↔ l.commentEntry = true := by
  unfold kindUnder
  split <;> simp [*]

lemma kindUnder_eq_comment_iff :
    l.kindUnder debugging = some .comment ↔
      l.commentEntry = false ∧
        (l.kind.isCommentLike = true ∨ (l.kind = .debug ∧ debugging = false)) := by
  unfold kindUnder
  cases l.commentEntry <;> simp [isCommentedOut, or_iff_not_imp_left]

end Marks

/-- Lines that are not marked yet keep all but their marks, in their order, and their blocks are the
runs of comment entries and of comments that are as long as they can be.  Marking the marked lines
gives the same lines and blocks. -/
theorem markAll_blocks (debugging : Bool) {lines : List LogicalLine}
    (h : ∀ l ∈ lines, l.commented = false) :
    ∃ marked blocks, markAll debugging lines = (marked, blocks) ∧
      marked.map (fun l => (l.kind, l.segments, l.provenance, l.commentEntry)) =
        lines.map (fun l => (l.kind, l.segments, l.provenance, l.commentEntry)) ∧
      (∀ b ∈ blocks, 0 ≤ b.first ∧ b.first ≤ b.last ∧ b.last < lines.length) ∧
      Separate blocks ∧
      (∀ (i : Nat) (l : LogicalLine), lines[i]? = some l →
        ((∃ b ∈ blocks, b.kind = .entry ∧ b.contains i = true) ↔ l.commentEntry = true) ∧
        ((∃ b ∈ blocks, b.kind = .comment ∧ b.contains i = true) ↔
          l.commentEntry = false ∧
            (l.kind.isCommentLike = true ∨ (l.kind = .debug ∧ debugging = false)))) ∧
      (∀ b, b ∈ blocks ↔ b.IsRun (kindFrom 0 (lines.map (kindUnder debugging)))) ∧
      markAll debugging marked = (marked, blocks) := by
  have hkinds : (lines.map (mark debugging)).map commentKind? =
      lines.map (kindUnder debugging) := by
    rw [List.map_map]
    exact List.map_congr_left fun l hl => commentKind?_mark debugging l (h l hl)
  have htells := tells_blocksFrom 0 (lines.map (mark debugging))
  rw [hkinds] at htells
  refine ⟨_, _, rfl, ?_, fun b hb => ?_, htells.separate, fun i l hl => ?_, htells.mem_iff_isRun,
    ?_⟩
  · rw [List.map_map]
    exact List.map_congr_left fun l _ => mark_keeps debugging l
  · have hrun := htells.isRun hb
    have hfirst := bounds_of_kindFrom
      (hrun.inside b.first (contains_iff.mpr ⟨Int.le_refl _, hrun.nonempty⟩))
    have hlast := bounds_of_kindFrom
      (hrun.inside b.last (contains_iff.mpr ⟨hrun.nonempty, Int.le_refl _⟩))
    rw [List.length_map] at hlast
    exact ⟨by omega, hrun.nonempty, by omega⟩
  · have hkind : kindFrom 0 (lines.map (kindUnder debugging)) i = l.kindUnder debugging := by
      simp [kindFrom, hl]
    rw [htells.mem_iff, htells.mem_iff, hkind]
    exact ⟨kindUnder_eq_entry_iff debugging l, kindUnder_eq_comment_iff debugging l⟩
  · have hmarked : (lines.map (mark debugging)).map (mark debugging) =
        lines.map (mark debugging) := by
      rw [List.map_map]
      exact List.map_congr_left fun l _ => mark_mark debugging l
    rw [markAll, hmarked]

/-- Five lines: a comment, a page eject, a comment entry, a debugging line and a line of code. -/
def sampleMix : List LogicalLine :=
  [(.comment, false), (.pageEject, false), (.normal, true), (.debug, false), (.normal, false)].map
    fun (kind, entry) =>
      { single kind ⟨PhysicalLine.divide .ansi85 .free "main" 1 ['A'], 1, ['A']⟩ with
        commentEntry := entry }

/-- Comments of different kinds share a block, and a comment entry between them starts another one;
the debugging line is a comment outside debugging mode only. -/
theorem markAll_blocks_mixed :
    ∃ marked kept, markAll false sampleMix =
        (marked, [⟨0, 1, .comment⟩, ⟨2, 2, .entry⟩, ⟨3, 3, .comment⟩]) ∧
      markAll false marked = (marked, [⟨0, 1, .comment⟩, ⟨2, 2, .entry⟩, ⟨3, 3, .comment⟩]) ∧
      markAll true sampleMix = (kept, [⟨0, 1, .comment⟩, ⟨2, 2, .entry⟩]) ∧
      markAll true kept = (kept, [⟨0, 1, .comment⟩, ⟨2, 2, .entry⟩]) := by
  have hnew : ∀ l ∈ sampleMix, l.commented = false := by
    decide
  have hclosed : (markAll false sampleMix).2 =
      [⟨0, 1, .comment⟩, ⟨2, 2, .entry⟩, ⟨3, 3, .comment⟩] := by
    decide
  have hopen : (markAll true sampleMix).2 = [⟨0, 1, .comment⟩, ⟨2, 2, .entry⟩] := by
    decide
  obtain ⟨marked, blocks, hmarked, -, -, -, -, -, hagain⟩ := markAll_blocks false hnew
  obtain ⟨kept, fewer, hkept, -, -, -, -, -, hagain'⟩ := markAll_blocks true hnew
  rw [hmarked] at hclosed
  rw [hkept] at hopen
  dsimp only at hclosed hopen
  subst hclosed hopen
  exact ⟨marked, kept, hmarked, hagain, hkept, hagain'⟩

end LogicalLine

end CobolText
