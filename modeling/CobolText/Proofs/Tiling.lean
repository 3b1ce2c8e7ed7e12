import CobolText.Token.Lexer
import Mathlib.Data.List.Basic
import Mathlib.Tactic.Common

/-!
# Tokens side by side

The tokens of a text lie end to end: each starts where the one before it stops, none is empty, and
none reaches past the end of the text.
-/

namespace CobolText.Token

/-- A token starts where it is looked for, is not empty, and the rest follows it. -/
lemma next?_eq_some {pseudo : Bool} {pos : Nat} {s rest : List Char} {t : Token}
    (h : next? pseudo pos s = some (t, rest)) :
    t.start = pos ∧ 0 < t.text.length ∧ t.text ++ rest = s := by
  refine ⟨?_, ?_, text_append_of_next? h⟩
  · cases s with
    | nil => simp [next?] at h
    | cons c cs =>
      simp only [next?, Option.some.injEq, Prod.mk.injEq] at h
      rw [← h.1]
  · have hlt := length_lt_of_next? h
    have hlen := congrArg List.length (text_append_of_next? h)
    rw [List.length_append] at hlen
    omega

lemma next?_isSome (pseudo : Bool) (pos : Nat) {s : List Char} (h : s ≠ []) :
    ∃ t rest, next? pseudo pos s = some (t, rest) := by
  cases s with
  | nil => exact absurd rfl h
  | cons c cs => exact ⟨_, _, rfl⟩

lemma drop_stop_of_next? {pseudo : Bool} {pos : Nat} {text rest : List Char} {t : Token}
    (h : next? pseudo pos (text.drop pos) = some (t, rest)) :
    rest = text.drop t.stop ∧ t.stop ≤ text.length := by
  obtain ⟨hstart, hpos, happ⟩ := next?_eq_some h
  have hrest : rest = (text.drop pos).drop t.text.length := by
    rw [← happ, List.drop_left]
  have hlen := congrArg List.length happ
  rw [List.length_append, List.length_drop] at hlen
  constructor
  · rw [hrest, List.drop_drop, stop, hstart]
  · rw [stop, hstart]
    omega

lemma tokens_eq (pseudo : Bool) (pos : Nat) (s : List Char) :
    tokens pseudo pos s = match next? pseudo pos s with
      | none => []
      | some (t, rest) => t :: tokens pseudo t.stop rest := by
  rw [tokens]
  split <;> rename_i h <;> simp [h]

lemma bounds_of_mem_tokens {pseudo : Bool} {pos : Nat} {s : List Char} {t : Token}
    (h : t ∈ tokens pseudo pos s) :
    pos ≤ t.start ∧ t.start < t.stop ∧ t.stop ≤ pos + s.length := by
  fun_induction tokens pseudo pos s with
  | case1 => simp at h
  | case2 pos s u rest hnext ih =>
    obtain ⟨hstart, hpos, happ⟩ := next?_eq_some hnext
    have hlen := congrArg List.length happ
    rw [List.length_append] at hlen
    have hstop : u.stop = u.start + u.text.length := rfl
    rcases List.mem_cons.mp h with rfl | h
    · omega
    · have := ih h
      omega

lemma pairwise_tokens (pseudo : Bool) (pos : Nat) (s : List Char) :
    (tokens pseudo pos s).Pairwise fun a b => a.stop ≤ b.start := by
  fun_induction tokens pseudo pos s with
  | case1 => exact List.Pairwise.nil
  | case2 pos s u rest hnext ih =>
    exact List.pairwise_cons.mpr ⟨fun t ht => (bounds_of_mem_tokens ht).1, ih⟩

end CobolText.Token
