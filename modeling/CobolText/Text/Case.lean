import CobolText.Text.CaseTable

/-!
# Upper case, lower case and letters that differ in case only

Full case mapping works on whole texts, since one letter may become several and a small sigma has
a form of its own at the end of a word.  Comparison without regard to case works letter by letter:
two characters agree when their small forms are equal or listed as equivalent.
-/

namespace CobolText.Text

/-- The image of code point `n` under a run, if the run holds it. -/
def CaseRun.image? (r : CaseRun) (n : Nat) : Option Nat :=
  if r.first ≤ n && n ≤ r.last && (n - r.first) % r.stride == 0 then
    some ((n : Int) + r.shift).toNat
  else none

/-- The image of `c` under a table of expansions and runs; a character in neither is kept. -/
def mapCase (expansions : List (Nat × List Nat)) (runs : List CaseRun) (c : Char) : List Char :=
  match expansions.lookup c.toNat with
  | some codes => codes.map Char.ofNat
  | none =>
    match runs.findSome? fun r => r.image? c.toNat with
    | some n => [Char.ofNat n]
    | none => [c]

/-- The capital form of one character. -/
def upperChar (c : Char) : List Char :=
  if c.toNat < 0x80 then [c.toUpper] else mapCase upperExpansions upperRuns c

/-- The small form of one character, apart from any context. -/
def lowerChar (c : Char) : List Char :=
  if c.toNat < 0x80 then [c.toLower] else mapCase lowerExpansions lowerRuns c

/-- Whether a code point lies in one of the given ranges. -/
def inRanges (ranges : List (Nat × Nat)) (c : Char) : Bool :=
  ranges.any fun r => r.1 ≤ c.toNat && c.toNat ≤ r.2

/-- Whether a letter with case is met first when case-ignorable characters are passed over. -/
def meetsCased (s : List Char) : Bool :=
  match s.dropWhile (inRanges caseIgnorableRanges) with
  | c :: _ => inRanges casedRanges c
  | [] => false

/-- The whole text in capitals. -/
def upper (s : List Char) : List Char :=
  s.flatMap upperChar

/-- Lower case of `s`, where `before` is the text in front of it in reverse.  A capital sigma
with a letter before it and none after it becomes the final form. -/
def lowerAfter (before : List Char) : List Char → List Char
  | [] => []
  | c :: cs =>
    let small :=
      if c.toNat == 0x3a3 then
        [Char.ofNat (if meetsCased before && !meetsCased cs then 0x3c2 else 0x3c3)]
      else lowerChar c
    small ++ lowerAfter (c :: before) cs

/-- The whole text in small letters. -/
def lower (s : List Char) : List Char :=
  lowerAfter [] s

/-- A string in capitals. -/
def upperString (s : String) : String :=
  String.ofList (upper s.toList)

/-- A string in small letters. -/
def lowerString (s : String) : String :=
  String.ofList (lower s.toList)

/-- The first character of the small form. -/
def smallLetter (c : Char) : Char :=
  (lowerChar c).headD c

/-- The first character of the capital form. -/
def capitalLetter (c : Char) : Char :=
  (upperChar c).headD c

/-- Whether `c` changes under one of the case mappings. -/
def hasCase (c : Char) : Bool :=
  smallLetter c != c || capitalLetter c != c

/-- The other small letters that count as the small letter `c`. -/
def equivalents (c : Char) : List Char :=
  match caseEquivalents.lookup c.toNat with
  | some codes => codes.map Char.ofNat
  | none => []

/-- Whether `c` counts as the wanted character when case is disregarded. -/
def sameLetter (wanted c : Char) : Bool :=
  if hasCase wanted then
    smallLetter c == smallLetter wanted || (equivalents (smallLetter wanted)).contains (smallLetter c)
  else c == wanted

/-- Whether `c` counts, in either case, as one of the letters from A to Z. -/
def isLatinLetter (c : Char) : Bool :=
  let small := smallLetter c
  small.isLower || (equivalents small).any Char.isLower

/-- If `s` begins with `word`, case disregarded, the rest of `s`. -/
def dropWord : List Char → List Char → Option (List Char)
  | [], s => some s
  | _ :: _, [] => none
  | w :: ws, c :: cs => if sameLetter w c then dropWord ws cs else none

theorem length_dropWord {word s rest : List Char} (h : dropWord word s = some rest) :
    s.length = word.length + rest.length := by
  induction word generalizing s with
  | nil => simp_all [dropWord]
  | cons w ws ih =>
    cases s with
    | nil => simp [dropWord] at h
    | cons c cs =>
      simp only [dropWord] at h
      split at h
      · have := ih h
        simp only [List.length_cons]
        omega
      · simp at h

end CobolText.Text
