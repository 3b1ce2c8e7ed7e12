import CobolText.Yaml.Tag

/-!
# Tokens of documents

A document is first cut into tokens.  Where lists and fields in block style start and end is told
by tokens too, as are the keys that are only known by the colon after them.
-/

namespace CobolText.Yaml

/-- A token of a document. -/
inductive Token where
  /-- The directive that tells the version of the format. -/
  | version (major : Nat)
  /-- The directive that declares what a handle stands for. -/
  | handle (mark name : String)
  /-- A directive without a meaning. -/
  | directive
  | documentStart
  | documentEnd
  | blockListStart
  | blockFieldsStart
  | blockEnd
  | flowListStart
  | flowListEnd
  | flowFieldsStart
  | flowFieldsEnd
  | blockEntry
  | flowEntry
  | key
  | value
  | alias (name : String)
  | anchor (name : String)
  | tag (written : WrittenTag)
  | scalar (text : String) (plain : Bool)
  | streamEnd
  /-- The place after which no tokens can be told. -/
  | malformed (defect : Defect)
deriving DecidableEq, Repr

namespace Token

/-- Reads a whole number and what follows it. -/
def number (s : List Char) : Except Defect (Nat × List Char) :=
  match Text.number? 10 (Text.digit? 10) (s.takeWhile Char.isDigit) with
  | some n => .ok (n, s.dropWhile Char.isDigit)
  | none => .error .lexical

/-- Reads the version in a directive. -/
def versionValue (s : List Char) : Except Defect (Token × List Char) := do
  let (major, rest) ← number (skipSpaces s)
  match rest with
  | '.' :: rest =>
    let (_, rest) ← number rest
    if atSpace rest then return (.version major, rest) else throw .lexical
  | _ => throw .lexical

/-- Reads the declaration of a handle in a directive. -/
def handleValue (s : List Char) : Except Defect (Token × List Char) := do
  let (mark, rest) ← WrittenTag.readHandle (skipSpaces s)
  if rest.head? != some ' ' then throw .lexical
  let (name, rest) ← WrittenTag.readName (skipSpaces rest)
  if atSpace rest then return (.handle mark name, rest) else throw .lexical

/-- Reads a directive after its percent sign, with the end of its line. -/
def readDirective (s : List Char) : Except Defect (Token × List Char) := do
  let name := s.takeWhile isNameChar
  let rest := s.dropWhile isNameChar
  if name.isEmpty || !atSpace rest then throw .lexical
  let (token, rest) ←
    if name == "YAML".toList then versionValue rest
    else if name == "TAG".toList then handleValue rest
    else pure (.directive, skipLine rest)
  match ignoredLine? rest with
  | some after => return (token, after)
  | none => throw .lexical

/-- Reads the name of an anchor or an alias after its mark. -/
def readName (s : List Char) : Except Defect (String × List Char) :=
  let name := s.takeWhile isNameChar
  let rest := s.dropWhile isNameChar
  if !name.isEmpty && (atGap rest || (rest.take 1).any fun c => "?:,]\x7d%@\x60".toList.contains c)
  then .ok (String.ofList name, rest)
  else .error .lexical

end Token

end CobolText.Yaml
