/-!
# Characters of documents

The classes of characters that matter for the layout of a document.  Line breaks are taken to be
unified, so that no carriage return is left.
-/

namespace CobolText.Yaml

/-- Whether a document may hold a character. -/
def isReadable (c : Char) : Bool :=
  let n := c.toNat
  n == 0x09 || n == 0x0a || n == 0x0d || (0x20 ≤ n && n ≤ 0x7e) || n == 0x85 ||
    (0xa0 ≤ n && n != 0xfffe && n != 0xffff)

/-- Whether a character ends a line. -/
def isBreak (c : Char) : Bool :=
  c == '\n' || c == '\u0085' || c == '\u2028' || c == '\u2029'

/-- The line break that a scalar holds for one in the document. -/
def keptBreak (c : Char) : Char :=
  if c == '\u0085' then '\n' else c

/-- Whether a character is a space or a tab. -/
def isGap (c : Char) : Bool :=
  c == ' ' || c == '\t'

/-- Whether a name may hold a character. -/
def isNameChar (c : Char) : Bool :=
  c.isAlphanum || c == '-' || c == '_'

/-- Whether a text is over or starts with a line break. -/
def atLineEnd : List Char → Bool
  | [] => true
  | c :: _ => isBreak c

/-- Whether a text is over or starts with a space or a line break. -/
def atSpace : List Char → Bool
  | [] => true
  | c :: _ => c == ' ' || isBreak c

/-- Whether a text is over or starts with white space. -/
def atGap : List Char → Bool
  | [] => true
  | c :: _ => isGap c || isBreak c

/-- Whether a text starts with the mark of a document: three times the same character, then
white space. -/
def startsMark (mark : Char) (s : List Char) : Bool :=
  (s.take 3 == [mark, mark, mark]) && atGap (s.drop 3)

/-- Whether a text starts with the mark that starts or ends a document. -/
def atDocumentMark (s : List Char) : Bool :=
  startsMark '-' s || startsMark '.' s

/-- A text without the spaces in front of it. -/
def skipSpaces (s : List Char) : List Char :=
  s.dropWhile (· == ' ')

/-- A text from the next line break on. -/
def skipLine (s : List Char) : List Char :=
  s.dropWhile fun c => !isBreak c

/-- What follows the rest of a line, if that is blank but for a comment. -/
def ignoredLine? (s : List Char) : Option (List Char) :=
  let rest := skipSpaces s
  let rest := if rest.head? == some '#' then skipLine rest else rest
  if atLineEnd rest then some (rest.drop 1) else none

end CobolText.Yaml
