/-!
# Bisection

Search by halving in an array whose keys ascend.
-/

namespace CobolText

/-- The index of the first item of `xs` between `lo` and `hi` with a key above `x`, or `hi`. -/
def bisect {α : Type} (xs : Array α) (key : α → Int) (x : Int) (lo hi : Nat) (h : hi ≤ xs.size) :
    Nat :=
  if lt : lo < hi then
    let mid := (lo + hi) / 2
    have hm : mid < xs.size := by omega
    if x < key xs[mid] then bisect xs key x lo mid (by omega)
    else bisect xs key x (mid + 1) hi h
  else lo
termination_by hi - lo

/-- How many items of `xs` come before the first one with a key above `x`. -/
def firstAbove {α : Type} (xs : Array α) (key : α → Int) (x : Int) : Nat :=
  bisect xs key x 0 xs.size (Nat.le_refl _)

end CobolText
