/-!
# Slices with signed bounds

Column numbers come from settings that may be zero, negative or past the end of a line.  A bound
below zero counts back from the end, and a bound outside the text is moved to its nearest end.
-/

namespace CobolText.Text

/-- The place in a text of `n` characters that the signed bound `i` stands for. -/
def place (n : Nat) (i : Int) : Nat :=
  if i < 0 then (n + i).toNat else min i.toNat n

/-- The part of `s` from bound `start` up to bound `stop`. -/
def slice {α : Type} (s : List α) (start stop : Int) : List α :=
  (s.drop (place s.length start)).take (place s.length stop - place s.length start)

/-- The part of `s` before bound `stop`. -/
def sliceTo {α : Type} (s : List α) (stop : Int) : List α :=
  s.take (place s.length stop)

/-- The part of `s` from bound `start` on. -/
def sliceFrom {α : Type} (s : List α) (start : Int) : List α :=
  s.drop (place s.length start)

theorem place_natCast (n i : Nat) : place n i = min i n := by
  unfold place
  split <;> omega

end CobolText.Text
