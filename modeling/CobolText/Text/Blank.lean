/-!
# Blanks

Which characters count as blank, and trimming of text at either end.
-/

namespace CobolText.Text

/-- White space in every script: the controls from tab to carriage return, the four
information separators, and the spaces and line separators of Unicode. -/
def isBlank (c : Char) : Bool :=
  let n := c.toNat
  (0x09 ≤ n && n ≤ 0x0d) || (0x1c ≤ n && n ≤ 0x20) || n == 0x85 || n == 0xa0 || n == 0x1680 ||
    (0x2000 ≤ n && n ≤ 0x200a) || n == 0x2028 || n == 0x2029 || n == 0x202f || n == 0x205f ||
    n == 0x3000

/-- Whether a text has no character other than blanks. -/
def isBlankText (s : List Char) : Bool :=
  s.all isBlank

/-- The text from its first character that is not blank. -/
def trimLeft (s : List Char) : List Char :=
  s.dropWhile isBlank

/-- The text up to its last character that is not blank. -/
def trimRight (s : List Char) : List Char :=
  (s.reverse.dropWhile isBlank).reverse

/-- The text without the blanks at either end. -/
def trim (s : List Char) : List Char :=
  trimRight (trimLeft s)

/-- A string without the blanks at either end. -/
def trimString (s : String) : String :=
  String.ofList (trim s.toList)

/-- `n` spaces. -/
def spaces (n : Nat) : List Char :=
  List.replicate n ' '

@[simp] theorem length_spaces (n : Nat) : (spaces n).length = n := by
  simp [spaces]

theorem isBlankText_iff {s : List Char} : isBlankText s = true ↔ ∀ c ∈ s, isBlank c = true := by
  simp [isBlankText]

/-- Trimming on the left removes a blank beginning and nothing else. -/
theorem takeWhile_append_trimLeft (s : List Char) : s.takeWhile isBlank ++ trimLeft s = s :=
  List.takeWhile_append_dropWhile

end CobolText.Text
