import CobolText.Yaml.Cursor
import CobolText.Yaml.Scalar.Block
import CobolText.Yaml.Scalar.Plain
import CobolText.Yaml.Scalar.Quoted
import CobolText.Yaml.Token.Basic

/-!
# Scanning

The tokens of a document are read from left to right.  A colon makes what stands in front of it
on its line a key, so the places where a key may have started are kept in mind until then.
-/

namespace CobolText.Yaml

/-- A place where a key may have started. -/
structure PossibleKey where
  /-- How many brackets are open there. -/
  level : Int
  /-- How many tokens stand before it. -/
  position : Nat
  /-- Whether nothing but a key can stand there. -/
  required : Bool
  index : Nat
  line : Nat
  column : Nat
deriving DecidableEq, Repr

/-- How far a document is scanned. -/
structure Scan where
  cursor : Cursor
  /-- How many brackets are open. -/
  level : Int
  /-- The column of the innermost list or fields in block style. -/
  indent : Int
  /-- The columns of those around it, innermost first. -/
  outer : List Int
  /-- Whether a key may start here. -/
  keyAllowed : Bool
  keys : List PossibleKey
  tokens : Array Token

namespace Scan

/-- The longest text that can be a key. -/
def longestKey : Nat :=
  1024

/-- The start of a document. -/
def start (text : List Char) : Scan :=
  ⟨Cursor.start text, 0, -1, [], true, [], #[]⟩

/-- Whether the place is between brackets. -/
def inFlow (s : Scan) : Bool :=
  s.level != 0

/-- Adds a token. -/
def push (s : Scan) (t : Token) : Scan :=
  { s with tokens := s.tokens.push t }

/-- Goes on to a later part of the text. -/
def moveTo (s : Scan) (rest : List Char) : Scan :=
  { s with cursor := s.cursor.moveTo rest }

/-- Whether what started at a place can no longer be a key. -/
def isStale (s : Scan) (k : PossibleKey) : Bool :=
  k.line != s.cursor.line || longestKey < s.cursor.index - k.index

/-- Forgets places of keys. A place where nothing but a key can stand must not be forgotten. -/
def forget (s : Scan) (which : PossibleKey → Bool) : Except Defect Scan :=
  if s.keys.any fun k => which k && k.required then .error .lexical
  else .ok { s with keys := s.keys.filter fun k => !which k }

/-- Forgets the places of what can no longer be a key. -/
def dropStale (s : Scan) : Except Defect Scan :=
  s.forget s.isStale

/-- Forgets where a key may have started between the innermost brackets. -/
def dropKey (s : Scan) : Except Defect Scan :=
  s.forget fun k => k.level == s.level

/-- Keeps in mind that a key may start here. -/
def saveKey (s : Scan) : Except Defect Scan := do
  if !s.keyAllowed then return s
  let s ← s.dropKey
  let key : PossibleKey := {
    level := s.level
    position := s.tokens.size
    required := !s.inFlow && s.indent == s.cursor.column
    index := s.cursor.index
    line := s.cursor.line
    column := s.cursor.column }
  return { s with keys := s.keys ++ [key] }

/-- The columns of lists and fields that go on at a column, and how many end there. -/
def unwound (column : Int) : Int → List Int → Int × List Int × Nat
  | indent, [] => (indent, [], 0)
  | indent, next :: outer =>
    if column < indent then
      let (indent, outer, ended) := unwound column next outer
      (indent, outer, ended + 1)
    else (indent, next :: outer, 0)

/-- Ends the lists and fields in block style that are deeper than a column. -/
def unwind (s : Scan) (column : Int) : Scan :=
  if s.inFlow then s
  else
    let (indent, outer, ended) := unwound column s.indent s.outer
    { s with indent, outer, tokens := s.tokens ++ Array.replicate ended .blockEnd }

/-- Starts a list or fields in block style at a column, unless such are there already; `start` is
put into the place of the token that starts there. -/
def deepen (s : Scan) (column : Int) (position : Nat) (start : Token) : Scan :=
  if s.indent < column then
    { s with
      indent := column
      outer := s.indent :: s.outer
      tokens := s.tokens.insertIdxIfInBounds position start }
  else s

/-- What follows white space and comments, and whether a line break is among them. -/
def skipBlank (comment : Bool) : List Char → List Char × Bool
  | [] => ([], false)
  | c :: rest =>
    if isBreak c then ((skipBlank false rest).1, true)
    else if comment || c == '#' then skipBlank true rest
    else if c == ' ' then skipBlank false rest
    else (c :: rest, false)

/-- Goes on to the next token.  A key may start on a new line. -/
def toToken (s : Scan) : Scan :=
  let rest := s.cursor.rest
  let text := if s.cursor.index == 0 && rest.head? == some '\ufeff' then rest.drop 1 else rest
  let (after, newLine) := skipBlank false text
  let s := s.moveTo after
  if newLine && !s.inFlow then { s with keyAllowed := true } else s

/-- Adds a token of some characters after forgetting where a key may have started. -/
def mark (s : Scan) (width : Nat) (t : Token) (keyAllowed : Bool) : Except Defect Scan := do
  let s ← s.dropKey
  return { s with keyAllowed, cursor := s.cursor.move width }.push t

/-- Adds a token that may be a key or the start of one, as it is read with what follows it. -/
def content (s : Scan) (found : Except Defect (Token × List Char)) : Except Defect Scan := do
  let s ← s.saveKey
  let (t, rest) ← found
  return { s with keyAllowed := false, cursor := s.cursor.moveTo rest }.push t

/-- The end of the document. -/
def finish (s : Scan) : Except Defect Scan := do
  let s ← (s.unwind (-1)).dropKey
  return { s with keyAllowed := false, keys := [] }.push .streamEnd

/-- A directive. -/
def directive (s : Scan) : Except Defect Scan := do
  let s ← (s.unwind (-1)).dropKey
  let (t, rest) ← Token.readDirective (s.cursor.rest.drop 1)
  return { s with keyAllowed := false, cursor := s.cursor.moveTo rest }.push t

/-- An opening bracket, which may start a key. -/
def openBracket (s : Scan) (t : Token) : Except Defect Scan := do
  let s ← s.saveKey
  return { s with keyAllowed := true, level := s.level + 1, cursor := s.cursor.move 1 }.push t

/-- A closing bracket. -/
def closeBracket (s : Scan) (t : Token) : Except Defect Scan := do
  let s ← s.dropKey
  return { s with keyAllowed := false, level := s.level - 1, cursor := s.cursor.move 1 }.push t

/-- The mark of a list item or a key; in block style it may start a list or fields. -/
def blockMark (s : Scan) (start t : Token) (keyAllowed : Bool) : Except Defect Scan :=
  if s.inFlow then s.mark 1 t keyAllowed
  else if !s.keyAllowed then .error .lexical
  else (s.deepen s.cursor.column s.tokens.size start).mark 1 t keyAllowed

/-- A colon.  It makes what may be a key into one. -/
def valueMark (s : Scan) : Except Defect Scan :=
  match s.keys.find? fun k => k.level == s.level with
  | none => s.blockMark .blockFieldsStart .value (!s.inFlow)
  | some k =>
    let s := { s with
      keys := s.keys.filter fun k => k.level != s.level
      tokens := s.tokens.insertIdxIfInBounds k.position .key }
    let s := if s.inFlow then s else s.deepen k.column k.position .blockFieldsStart
    .ok ({ s with keyAllowed := false, cursor := s.cursor.move 1 }.push .value)

/-- An anchor or an alias. -/
def named (s : Scan) (token : String → Token) : Except Defect Scan :=
  s.content ((Token.readName (s.cursor.rest.drop 1)).map fun (name, rest) => (token name, rest))

/-- A tag. -/
def tag (s : Scan) : Except Defect Scan :=
  s.content ((WrittenTag.read (s.cursor.rest.drop 1)).map fun (tag, rest) => (.tag tag, rest))

/-- A quoted scalar. -/
def quoted (s : Scan) (double : Bool) : Except Defect Scan :=
  s.content ((quotedText double (s.cursor.rest.drop 1)).map fun (text, rest) =>
    (.scalar (String.ofList text) false, rest))

/-- A block scalar.  A key may follow it. -/
def block (s : Scan) (folded : Bool) : Except Defect Scan := do
  let s ← s.dropKey
  let (text, rest) ← blockText folded s.indent (s.cursor.rest.drop 1)
  return { s with keyAllowed := true, cursor := s.cursor.moveTo rest }.push
    (.scalar (String.ofList text) false)

/-- A plain scalar.  A key may follow it on a later line. -/
def plain (s : Scan) : Except Defect Scan := do
  let found := plainText s.inFlow (s.indent + 1) s.cursor.rest
  let s ← s.content (.ok (.scalar (String.ofList found.text) true, found.rest))
  return { s with keyAllowed := found.crossesLine }

/-- Whether a plain scalar may start with a character, given what follows it. -/
def startsPlain (flow : Bool) (c : Char) (rest : List Char) : Bool :=
  if "-?:,[]\x7b\x7d#&*!|>\x27\x22%@\x60".toList.contains c then
    !atGap rest && (c == '-' || (!flow && (c == '?' || c == ':')))
  else !(isGap c || isBreak c)

/-- Adds the token that starts with a character. -/
def token (s : Scan) (c : Char) (rest : List Char) : Except Defect Scan :=
  let atMargin := s.cursor.column == 0
  let separate := s.inFlow || atGap rest
  if c == '%' && atMargin then s.directive
  else if atMargin && startsMark '-' (c :: rest) then (s.unwind (-1)).mark 3 .documentStart false
  else if atMargin && startsMark '.' (c :: rest) then (s.unwind (-1)).mark 3 .documentEnd false
  else if c == '[' then s.openBracket .flowListStart
  else if c == '\x7b' then s.openBracket .flowFieldsStart
  else if c == ']' then s.closeBracket .flowListEnd
  else if c == '\x7d' then s.closeBracket .flowFieldsEnd
  else if c == ',' then s.mark 1 .flowEntry true
  else if c == '-' && atGap rest then s.blockMark .blockListStart .blockEntry true
  else if c == '?' && separate then s.blockMark .blockFieldsStart .key (!s.inFlow)
  else if c == ':' && separate then s.valueMark
  else if c == '*' then s.named .alias
  else if c == '&' then s.named .anchor
  else if c == '!' then s.tag
  else if c == '|' && !s.inFlow then s.block false
  else if c == '>' && !s.inFlow then s.block true
  else if c == '\x27' then s.quoted false
  else if c == '\x22' then s.quoted true
  else if startsPlain s.inFlow c rest then s.plain
  else .error .lexical

/-- Adds the next token. -/
def next (s : Scan) : Except Defect Scan := do
  let s ← s.toToken.dropStale
  let s := s.unwind s.cursor.column
  let s ← match s.cursor.rest with
    | [] => s.finish
    | c :: rest => s.token c rest
  s.dropStale

/-- Whether the document is scanned to its end. -/
def isFinished (s : Scan) : Bool :=
  s.tokens.back? == some .streamEnd

/-- The tokens that are certain: those before the first that may still become a key. -/
def certain (s : Scan) : List Token :=
  s.tokens.toList.take (s.keys.foldl (fun n k => min n k.position) s.tokens.size)

/-- The tokens of a document, at most `fuel` steps from here.  If there is a place after which no
tokens can be told, they end with that. -/
def run : Nat → Scan → List Token
  | 0, s => s.certain ++ [.malformed .lexical]
  | fuel + 1, s =>
    match s.next with
    | .error defect => s.certain ++ [.malformed defect]
    | .ok s => if s.isFinished then s.tokens.toList else run fuel s

end Scan

/-- The tokens of a document. -/
def Token.scan (text : List Char) : List Token :=
  if text.all isReadable then (Scan.start text).run (text.length + 1)
  else [.malformed .unreadable]

end CobolText.Yaml
