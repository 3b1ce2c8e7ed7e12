import CobolText.Text.Numeral
import CobolText.Yaml.Character
import CobolText.Yaml.Defect

/-!
# Quoted scalars

Text in apostrophes or quotation marks, over one or several lines.  In quotation marks a
backslash starts an escape.
-/

namespace CobolText.Yaml

/-- How many hexadecimal digits follow an escape letter, if any do. -/
def escapeWidth? (c : Char) : Option Nat :=
  if c == 'x' then some 2 else if c == 'u' then some 4 else if c == 'U' then some 8 else none

/-- The character that an escape letter stands for. -/
def escaped? (c : Char) : Option Char :=
  if c == '\x22' || c == '\\' || c == '/' || c == ' ' || c == '\t' then some c
  else if c == 'n' then some '\n'
  else if c == 't' then some '\t'
  else if c == 'r' then some '\r'
  else if c == '0' then some '\x00'
  else if c == 'a' then some '\x07'
  else if c == 'b' then some '\x08'
  else if c == 'v' then some '\x0b'
  else if c == 'f' then some '\x0c'
  else if c == 'e' then some '\x1b'
  else if c == 'N' then some '\u0085'
  else if c == '_' then some '\u00a0'
  else if c == 'L' then some '\u2028'
  else if c == 'P' then some '\u2029'
  else none

/-- Where in a quoted scalar a place is. -/
inductive QuotedPlace where
  | text
  /-- After some white space. -/
  | gap (held : List Char)
  /-- After a line break, which counts unless it is escaped, and more of them. -/
  | lines (first : Option Char) (more : List Char)
  /-- After a backslash. -/
  | escape
  /-- Within the digits of a code point: how many are left, and the number so far. -/
  | digits (left value : Nat)
  /-- In front of the second of two apostrophes. -/
  | apostrophe
deriving DecidableEq, Repr

namespace QuotedPlace

/-- What was read in front of a place but not passed on yet. -/
def held : QuotedPlace → List Char
  | .gap blanks => blanks
  | .lines (some first) more =>
    if first != '\n' then first :: more else if more.isEmpty then [' '] else more
  | .lines none more => more
  | _ => []

/-- The place after a space or a tab. -/
def addGap (c : Char) : QuotedPlace → QuotedPlace
  | .gap blanks => .gap (blanks ++ [c])
  | .lines first more => .lines first more
  | _ => .gap [c]

/-- The place after a line break. -/
def addBreak (c : Char) : QuotedPlace → QuotedPlace
  | .lines first more => .lines first (more ++ [keptBreak c])
  | _ => .lines (some (keptBreak c)) []

end QuotedPlace

/-- Code points with some others in front of those that were read. -/
def Quoted.before (held : List Char) (r : List Nat × List Char) : List Nat × List Char :=
  (held.map Char.toNat ++ r.1, r.2)

/-- The code point that digits stand for, if there is such a one. -/
def checkedCode (n : Nat) : Except Defect Nat :=
  if n < 0x110000 then .ok n else .error (if n < 0x80000000 then .codePoint else .wideCodePoint)

/-- Reads a quoted scalar on from a place after its opening quote: its code points, and what
follows its closing quote. -/
def quotedFrom (double : Bool) : QuotedPlace → List Char → Except Defect (List Nat × List Char)
  | _, [] => .error .lexical
  | .escape, c :: rest =>
    match escapeWidth? c with
    | some width => quotedFrom double (.digits width 0) rest
    | none =>
      if isBreak c then
        if atDocumentMark rest then .error .lexical else quotedFrom double (.lines none []) rest
      else
        match escaped? c with
        | some e => (quotedFrom double .text rest).map (Quoted.before [e])
        | none => .error .lexical
  | .digits left value, c :: rest =>
    match Text.digit? 16 c with
    | none => .error .lexical
    | some d =>
      if left ≤ 1 then do
        let code ← checkedCode (value * 16 + d)
        let (codes, after) ← quotedFrom double .text rest
        return (code :: codes, after)
      else quotedFrom double (.digits (left - 1) (value * 16 + d)) rest
  | .apostrophe, c :: rest => (quotedFrom double .text rest).map (Quoted.before [c])
  | place, c :: rest =>
    if isGap c then quotedFrom double (place.addGap c) rest
    else if isBreak c then
      if atDocumentMark rest then .error .lexical else quotedFrom double (place.addBreak c) rest
    else
      Quoted.before place.held <$>
        if double && c == '\\' then quotedFrom double .escape rest
        else if double && c == '\x22' then .ok ([], rest)
        else if !double && c == '\x27' then
          if rest.head? == some '\x27' then quotedFrom double .apostrophe rest else .ok ([], rest)
        else (quotedFrom double .text rest).map (Quoted.before [c])

/-- The characters of code points.  Two surrogates that belong together are one character; one
that stands alone is replaced. -/
def charactersOf : List Nat → List Char
  | [] => []
  | [n] => [if 0xd800 ≤ n && n ≤ 0xdfff then '\ufffd' else Char.ofNat n]
  | m :: n :: rest =>
    if 0xd800 ≤ m && m ≤ 0xdbff && 0xdc00 ≤ n && n ≤ 0xdfff then
      Char.ofNat (0x10000 + (m - 0xd800) * 0x400 + (n - 0xdc00)) :: charactersOf rest
    else if 0xd800 ≤ m && m ≤ 0xdfff then '\ufffd' :: charactersOf (n :: rest)
    else Char.ofNat m :: charactersOf (n :: rest)

/-- Reads a quoted scalar after its opening quote: the text, and what follows the closing
quote. -/
def quotedText (double : Bool) (s : List Char) : Except Defect (List Char × List Char) := do
  let (codes, rest) ← quotedFrom double .text s
  return (charactersOf codes, rest)

end CobolText.Yaml
