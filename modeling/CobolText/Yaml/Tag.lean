import CobolText.Files.Encoding
import CobolText.Text.Numeral
import CobolText.Yaml.Character
import CobolText.Yaml.Defect

/-!
# Tags

A tag tells what kind of value a node stands for.  It is written with a handle, for which a
document may declare what it means, or in full.
-/

namespace CobolText.Yaml

/-- A tag as it is written.  Without a handle it is complete. -/
structure WrittenTag where
  handle : Option String
  suffix : String
deriving DecidableEq, Repr

namespace WrittenTag

/-- Whether a tag may hold a character. -/
def isTagChar (c : Char) : Bool :=
  c.isAlphanum || "-;/?:@&=+$,_.!~*\x27()[]%".toList.contains c

/-- The bytes that the characters of a tag stand for.  A percent sign and two hexadecimal digits
stand for one byte. -/
def bytes? : List Char → Option (List UInt8)
  | [] => some []
  | '%' :: a :: b :: rest => do
    let high ← Text.digit? 16 a
    let low ← Text.digit? 16 b
    return (16 * high + low).toUInt8 :: (← bytes? rest)
  | c :: rest => if c == '%' then none else (bytes? rest).map (c.toNat.toUInt8 :: ·)

/-- Reads the name in a tag, which may not be empty, and what follows it. -/
def readName (s : List Char) : Except Defect (String × List Char) :=
  let chars := s.takeWhile isTagChar
  match if chars.isEmpty then none else bytes? chars with
  | none => .error .lexical
  | some bytes =>
    match Encoding.decode .utf8 bytes with
    | .ok text => .ok (String.ofList text, s.dropWhile isTagChar)
    | .error _ => .error .lexical

/-- Reads a handle: an exclamation mark, or a word between two of them. -/
def readHandle (s : List Char) : Except Defect (String × List Char) :=
  match s with
  | '!' :: rest =>
    if rest.head? == some ' ' then .ok ("!", rest)
    else
      match rest.dropWhile isNameChar with
      | '!' :: after => .ok ("!" ++ String.ofList (rest.takeWhile isNameChar) ++ "!", after)
      | _ => .error .lexical
  | _ => .error .lexical

/-- Whether a word after an exclamation mark goes on with another one, so that it is a handle. -/
def hasHandle (s : List Char) : Bool :=
  (s.takeWhile fun c => c != ' ' && !isBreak c).contains '!'

/-- Reads the name of a tag in angle brackets after the opening one. -/
def verbatim (s : List Char) : Except Defect (WrittenTag × List Char) := do
  let (suffix, rest) ← readName s
  match rest with
  | '>' :: after => return (⟨none, suffix⟩, after)
  | _ => throw .lexical

/-- Reads a tag after its exclamation mark. -/
def body (s : List Char) : Except Defect (WrittenTag × List Char) := do
  if atGap s then return (⟨none, "!"⟩, s)
  match s with
  | '<' :: rest => verbatim rest
  | _ =>
    let (mark, rest) ← if hasHandle s then readHandle ('!' :: s) else pure ("!", s)
    let (suffix, rest) ← readName rest
    return (⟨some mark, suffix⟩, rest)

/-- Reads a tag after its exclamation mark; a space or the end of the line must follow. -/
def read (s : List Char) : Except Defect (WrittenTag × List Char) := do
  let (tag, rest) ← body s
  if atSpace rest then return (tag, rest) else throw .lexical

end WrittenTag

/-- What kind of value a node stands for. -/
inductive Tag where
  | null
  | flag
  | number
  | text
  | list
  | fields
  /-- Fields to be merged into others. -/
  | merge
  /-- The value that fields have as a whole. -/
  | whole
  /-- A collection in which the node itself stands. -/
  | enclosing
  /-- Any other. -/
  | other
deriving DecidableEq, Repr

/-- What the names of the standard tags start with. -/
def standardTags : String :=
  "tag:yaml.org,2002:"

/-- The tag of a full name. -/
def Tag.ofName (name : String) : Tag :=
  if name == standardTags ++ "null" then .null
  else if name == standardTags ++ "bool" then .flag
  else if name == standardTags ++ "int" then .number
  else if name == standardTags ++ "str" then .text
  else if name == standardTags ++ "seq" then .list
  else if name == standardTags ++ "map" then .fields
  else if name == standardTags ++ "merge" then .merge
  else if name == standardTags ++ "value" then .whole
  else .other

end CobolText.Yaml
