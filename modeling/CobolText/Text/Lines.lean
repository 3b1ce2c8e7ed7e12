/-!
# Line breaks

Text may end its lines with a line feed, a carriage return or both.  `unifyBreaks` turns every
break into a line feed, and `physicalLines` cuts a text into lines at its breaks.
-/

namespace CobolText.Text

/-- One character more in front of text whose breaks are unified; the flag tells whether the text
started with a line feed.  A carriage return before a line feed vanishes, any other becomes one. -/
def unifyStep (c : Char) (rest : Bool × List Char) : Bool × List Char :=
  if c == '\r' then (false, if rest.1 then rest.2 else '\n' :: rest.2)
  else (c == '\n', c :: rest.2)

/-- The text with every carriage return, and every pair of carriage return and line feed, made
into a line feed. -/
def unifyBreaks (s : List Char) : List Char :=
  (s.foldr unifyStep (false, [])).2

/-- One character more in front of a text cut at `sep`. -/
def splitStep (sep c : Char) (pieces : List (List Char)) : List (List Char) :=
  if c == sep then [] :: pieces
  else match pieces with
    | [] => [[c]]
    | p :: ps => (c :: p) :: ps

/-- The pieces of `s` between the characters `sep`; there is one more of them than of `sep`. -/
def splitOn (sep : Char) (s : List Char) : List (List Char) :=
  s.foldr (splitStep sep) [[]]

/-- The physical lines of a text.  A break at the very end closes the last line and starts no
further one. -/
def physicalLines (s : List Char) : List (List Char) :=
  let lines := splitOn '\n' (unifyBreaks s)
  if lines.getLast? == some [] then lines.dropLast else lines

theorem splitOn_cons (sep c : Char) (s : List Char) :
    splitOn sep (c :: s) = splitStep sep c (splitOn sep s) := rfl

theorem splitOn_ne_nil (sep : Char) (s : List Char) : splitOn sep s ≠ [] := by
  cases s with
  | nil => simp [splitOn]
  | cons c s =>
    rw [splitOn_cons]
    unfold splitStep
    split
    · simp
    · split <;> simp

theorem splitOn_of_not_mem {sep : Char} {s : List Char} (h : sep ∉ s) : splitOn sep s = [s] := by
  induction s with
  | nil => rfl
  | cons c s ih =>
    rw [List.mem_cons, not_or] at h
    rw [splitOn_cons, ih h.2]
    simp [splitStep, Ne.symm h.1]

/-- The piece in front of the first separator, and the pieces behind it. -/
theorem splitOn_append_cons {sep : Char} {line : List Char} (h : sep ∉ line) (rest : List Char) :
    splitOn sep (line ++ sep :: rest) = line :: splitOn sep rest := by
  induction line with
  | nil => simp [splitOn_cons, splitStep]
  | cons c line ih =>
    rw [List.mem_cons, not_or] at h
    rw [List.cons_append, splitOn_cons, ih h.2, splitStep, if_neg]
    simpa using Ne.symm h.1

end CobolText.Text
