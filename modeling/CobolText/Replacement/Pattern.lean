import CobolText.Text.Alphanumeric
import CobolText.Text.Blank
import CobolText.Token.Lexer

/-!
# Word patterns

The pattern of a replacement rule is a sequence of words.  Where it has blanks between words, any
run of blanks and separators may stand in the document.  Words agree without regard to case,
literals character by character.
-/

namespace CobolText

/-- A part of a pattern. -/
inductive PatternPart where
  /-- Text that must stand there as it is. -/
  | exactly (text : List Char)
  /-- Text whose letters may be in either case. -/
  | anyCase (text : List Char)
  /-- A run of blanks and separators. -/
  | gap
deriving DecidableEq, Repr

/-- A pattern to look for in a document. -/
structure WordPattern where
  parts : List PatternPart
  /-- Whether a match must not start inside a word. -/
  atWordStart : Bool
deriving DecidableEq, Repr

namespace WordPattern

/-- The part that a token of a pattern stands for. -/
def partOf (t : Token) : PatternPart :=
  if t.kind == .literal then .exactly t.text else .anyCase t.text

/-- The parts of a pattern from its tokens on, where `started` tells whether there were words
before and `gap` whether blanks stand after them. -/
def partsFrom (started gap : Bool) : List Token → List PatternPart
  | [] => []
  | t :: ts =>
    if t.isBlank then partsFrom started true ts
    else if started && gap then .gap :: partOf t :: partsFrom true false ts
    else partOf t :: partsFrom true false ts

/-- The pattern that a text stands for; there is none if the text has no words.  If it starts
with a letter or digit, it is only found where a word starts. -/
def ofText? (text : List Char) : Option WordPattern :=
  let parts := partsFrom false false (Token.tokens false 0 text)
  if parts.isEmpty then none
  else some ⟨parts, ((Text.trim text).take 1).any Text.isAlphanumeric⟩

/-- Blanks and separators that a gap may take. -/
def isGapChar (c : Char) : Bool :=
  Lexer.isSpace c || c == ',' || c == ';'

/-- Characters after which no word starts. -/
def isInsideWord (c : Char) : Bool :=
  c.isAlphanum || c == '_' || c == '-'

/-- How many characters of `s` the parts take when they are laid out from its start.  A gap takes
as much as it can, and less if what follows it does not fit otherwise. -/
def lengthAt? : List PatternPart → List Char → Option Nat
  | [], _ => some 0
  | .exactly text :: parts, s =>
    if text.isPrefixOf s then (lengthAt? parts (s.drop text.length)).map (text.length + ·) else none
  | .anyCase text :: parts, s =>
    match Text.dropWord text s with
    | some rest => (lengthAt? parts rest).map (text.length + ·)
    | none => none
  | .gap :: parts, s =>
    let n := (s.takeWhile isGapChar).length
    (List.range n).reverse.findSome? fun i => (lengthAt? parts (s.drop (i + 1))).map (i + 1 + ·)

/-- How many characters of `s` a match at its start takes, where `before` is the character in
front of it. -/
def matchLength? (p : WordPattern) (before : Option Char) (s : List Char) : Option Nat :=
  if p.atWordStart && before.any isInsideWord then none else lengthAt? p.parts s

end WordPattern

/-- A rule that puts one text in the place of others. -/
structure ReplacementRule where
  pattern : List Char
  replacement : List Char
  /-- Whether the texts were written between pseudo-text delimiters. -/
  pseudoText : Bool
  words : WordPattern
deriving DecidableEq, Repr

namespace ReplacementRule

/-- A rule; there is none if its pattern has no words. -/
def make? (pattern replacement : List Char) (pseudoText : Bool) : Option ReplacementRule :=
  (WordPattern.ofText? pattern).map fun words => ⟨pattern, replacement, pseudoText, words⟩

/-- A rule as it may be written in a directive. -/
def render (r : ReplacementRule) : String :=
  let delimiter := if r.pseudoText then "==" else ""
  delimiter ++ String.ofList r.pattern ++ delimiter ++ " BY " ++ delimiter ++
    String.ofList r.replacement ++ delimiter

end ReplacementRule

end CobolText
