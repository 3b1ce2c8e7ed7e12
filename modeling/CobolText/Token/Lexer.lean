import CobolText.Text.Delimiter
import CobolText.Token.Basic

/-!
# Lexing

The token at the start of a text is found by one small recogniser for each class, tried in a
fixed order.  A recogniser looks at the first character `c` and the rest `cs` of the text, and
gives the number of characters of `cs` that belong to the token.  So a token is never empty, and
tokens laid end to end give back the text.
-/

namespace CobolText

namespace Lexer

/-- The characters that words are made of. -/
def isWordChar (c : Char) : Bool :=
  c.isAlphanum || c == '_' || c == '-' || c == ':' || c == '#' || c == '@' || c == '$'

/-- White space between tokens. -/
def isSpace (c : Char) : Bool :=
  c == ' ' || c == '\t' || c == '\r' || c == '\n' || c == '\x0c'

/-- The letters that may stand in front of a literal. -/
def isLiteralLetter (c : Char) : Bool :=
  ['X', 'x', 'N', 'n', 'G', 'g', 'Z', 'z'].contains c

/-- A comment runs from its mark to the end of the line. -/
def comment? (c : Char) (cs : List Char) : Option Nat :=
  if Text.commentMark.isPrefixOf (c :: cs) then some (cs.takeWhile (· != '\n')).length else none

/-- The length of a literal after its opening quote: a doubled quote stands for one and goes on,
a single one closes it, and the end of the line ends it open. -/
def literalRest (q : Char) : List Char → Nat
  | [] => 0
  | c :: cs =>
    if c == q then
      match cs with
      | [] => 1
      | d :: ds => if d == q then 2 + literalRest q ds else 1
    else if c == '\n' then 0
    else 1 + literalRest q cs

/-- A literal starts with a quote, which may have a letter in front. -/
def literal? (c : Char) (cs : List Char) : Option Nat :=
  if Text.isQuote c then some (literalRest c cs)
  else if isLiteralLetter c then
    match cs with
    | q :: rest => if Text.isQuote q then some (1 + literalRest q rest) else none
    | [] => none
  else none

/-- The length of a word after a character of it.  A period belongs to the word if the word goes
on after it. -/
def wordRest : List Char → Nat
  | [] => 0
  | c :: cs =>
    if isWordChar c then 1 + wordRest cs
    else if c == '.' then
      match cs with
      | [] => 0
      | d :: ds => if isWordChar d then 2 + wordRest ds else 0
    else 0

/-- A word starts with a word character. -/
def word? (c : Char) (cs : List Char) : Option Nat :=
  if isWordChar c then some (wordRest cs) else none

/-- A run of white space. -/
def whitespace? (c : Char) (cs : List Char) : Option Nat :=
  if isSpace c then some (cs.takeWhile isSpace).length else none

/-- A comma or semicolon separates if white space or the end of the text follows. -/
def separator? (c : Char) (cs : List Char) : Option Nat :=
  if c == ',' || c == ';' then
    match cs with
    | [] => some 0
    | d :: _ => if d == ' ' || d == '\t' || d == '\r' || d == '\n' then some 0 else none
  else none

/-- The length of a text up to and with the first pair of equals signs. -/
def throughPair? : List Char → Option Nat
  | a :: b :: rest =>
    if a == '=' && b == '=' then some 2 else (throughPair? (b :: rest)).map (· + 1)
  | _ => none

/-- Pseudo-text stands between two pairs of equals signs. -/
def pseudoText? (c : Char) (cs : List Char) : Option Nat :=
  match cs with
  | d :: rest => if c == '=' && d == '=' then (throughPair? rest).map (· + 1) else none
  | [] => none

/-- The class of the token that starts with `c`, and how many characters of `cs` belong to it.
Pseudo-text is looked for only where it may occur. -/
def measure (pseudo : Bool) (c : Char) (cs : List Char) : TokenKind × Nat :=
  match if pseudo then pseudoText? c cs else none with
  | some n => (.pseudoText, n)
  | none =>
  match comment? c cs with
  | some n => (.comment, n)
  | none =>
  match literal? c cs with
  | some n => (.literal, n)
  | none =>
  match word? c cs with
  | some n => (.word, n)
  | none =>
  match whitespace? c cs with
  | some n => (.whitespace, n)
  | none =>
  match separator? c cs with
  | some n => (.separator, n)
  | none => (if c == '.' then .period else .other, 0)

end Lexer

namespace Token

/-- The first token of a text that starts at `pos`, and the rest of the text. -/
def next? (pseudo : Bool) (pos : Nat) (s : List Char) : Option (Token × List Char) :=
  match s with
  | [] => none
  | c :: cs =>
    let (kind, n) := Lexer.measure pseudo c cs
    some (⟨kind, c :: cs.take n, pos⟩, cs.drop n)

/-- The rest after a token is shorter than the text. -/
theorem length_lt_of_next? {pseudo : Bool} {pos : Nat} {s rest : List Char} {t : Token}
    (h : next? pseudo pos s = some (t, rest)) : rest.length < s.length := by
  cases s with
  | nil => simp [next?] at h
  | cons c cs =>
    simp only [next?, Option.some.injEq, Prod.mk.injEq] at h
    rw [← h.2]
    simp only [List.length_drop, List.length_cons]
    omega

/-- A token followed by the rest is the text. -/
theorem text_append_of_next? {pseudo : Bool} {pos : Nat} {s rest : List Char} {t : Token}
    (h : next? pseudo pos s = some (t, rest)) : t.text ++ rest = s := by
  cases s with
  | nil => simp [next?] at h
  | cons c cs =>
    simp only [next?, Option.some.injEq, Prod.mk.injEq] at h
    rw [← h.1, ← h.2]
    simp

/-- All tokens of a text that starts at `pos`. -/
def tokens (pseudo : Bool) (pos : Nat) (s : List Char) : List Token :=
  match _h : next? pseudo pos s with
  | none => []
  | some (t, rest) => t :: tokens pseudo t.stop rest
termination_by s.length
decreasing_by exact length_lt_of_next? _h

/-- The first token with a meaning in a text that starts at `pos`, and the rest after it. -/
def nextSignificant? (pseudo : Bool) (pos : Nat) (s : List Char) : Option (Token × List Char) :=
  match _h : next? pseudo pos s with
  | none => none
  | some (t, rest) => if t.isBlank then nextSignificant? pseudo t.stop rest else some (t, rest)
termination_by s.length
decreasing_by exact length_lt_of_next? _h

/-- The token of `text` that starts at an offset. -/
def at? (pseudo : Bool) (text : List Char) (pos : Nat) : Option Token :=
  (next? pseudo pos (text.drop pos)).map (·.1)

/-- All tokens of `text` from an offset on, each with the offset it is found at.  From an offset
before its start a text is read from its start, the first token counts as found at the offset, and
it can be pseudo-text only if the delimiter stands also as far from the end as the offset is
negative.  There has to be a first token then. -/
def allFrom? (pseudo : Bool) (text : List Char) (offset : Int) : Option (List (Int × Token)) :=
  let found (t : Token) : Int × Token := (t.start, t)
  if 0 ≤ offset then
    some ((tokens pseudo offset.toNat (text.drop offset.toNat)).map found)
  else
    let place := (text.length + offset).toNat
    let delimited := ['=', '='].isPrefixOf (text.drop place)
    (next? (pseudo && delimited) 0 text).map fun (t, rest) =>
      (offset, t) :: (tokens pseudo t.stop rest).map found

end Token

end CobolText
