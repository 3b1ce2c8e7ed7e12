/-!
# Text encodings

Strict decoding of file contents.  A failure tells the offset of the first byte of the sequence
that cannot be decoded.
-/

namespace CobolText

/-- The encodings a source file may have. -/
inductive Encoding where
  | utf8
  | latin1
  | ascii
deriving DecidableEq, Repr

namespace Encoding

/-- The encoding of a given name; case, and whether words are divided by dashes, underscores or
spaces, does not matter.  The names of other code pages count as unknown: a session that is given
one fails on every source, though a system may well have that code page. -/
def ofName? (name : String) : Option Encoding :=
  let plain := name.toList.map fun c => if c == '_' || c == ' ' then '-' else c.toLower
  match String.ofList plain with
  | "utf-8" | "utf8" | "u8" | "utf" => some .utf8
  | "latin-1" | "latin1" | "latin" | "l1" | "iso-8859-1" | "iso8859-1" | "8859" | "cp819" =>
    some .latin1
  | "ascii" | "us-ascii" | "646" => some .ascii
  | _ => none

/-- Whether a byte continues a character. -/
def isTail (b : UInt8) : Bool :=
  0x80 ≤ b && b ≤ 0xbf

/-- Whether `b` may follow the first byte `a`: the bounds shut out overlong forms, surrogates and
code points past the last one. -/
def isSecond (a b : UInt8) : Bool :=
  if a == 0xe0 then 0xa0 ≤ b && b ≤ 0xbf
  else if a == 0xed then 0x80 ≤ b && b ≤ 0x9f
  else if a == 0xf0 then 0x90 ≤ b && b ≤ 0xbf
  else if a == 0xf4 then 0x80 ≤ b && b ≤ 0x8f
  else isTail b

/-- The character whose first byte, without its mark, is `head` and whose other bytes are
`tails`. -/
def scalar (head : Nat) (tails : List UInt8) : Char :=
  Char.ofNat (tails.foldl (fun n b => n * 64 + (b.toNat - 0x80)) head)

/-- Decodes UTF-8 bytes that stand at `offset`; `done` holds the characters before them in
reverse. -/
def decodeUtf8 (offset : Nat) (done : List Char) : List UInt8 → Except Nat (List Char)
  | [] => .ok done.reverse
  | a :: bytes =>
    if a < 0x80 then decodeUtf8 (offset + 1) (Char.ofNat a.toNat :: done) bytes
    else if 0xc2 ≤ a && a ≤ 0xdf then
      match bytes with
      | b :: rest =>
        if isTail b then decodeUtf8 (offset + 2) (scalar (a.toNat - 0xc0) [b] :: done) rest
        else .error offset
      | [] => .error offset
    else if 0xe0 ≤ a && a ≤ 0xef then
      match bytes with
      | b :: c :: rest =>
        if isSecond a b && isTail c then
          decodeUtf8 (offset + 3) (scalar (a.toNat - 0xe0) [b, c] :: done) rest
        else .error offset
      | _ => .error offset
    else if 0xf0 ≤ a && a ≤ 0xf4 then
      match bytes with
      | b :: c :: d :: rest =>
        if isSecond a b && isTail c && isTail d then
          decodeUtf8 (offset + 4) (scalar (a.toNat - 0xf0) [b, c, d] :: done) rest
        else .error offset
      | _ => .error offset
    else .error offset

/-- Decodes bytes that stand each for one character. -/
def decodeBytes (bytes : List UInt8) : List Char :=
  bytes.map fun b => Char.ofNat b.toNat

/-- The text that bytes stand for, or the offset of the first byte at fault. -/
def decode (encoding : Encoding) (bytes : List UInt8) : Except Nat (List Char) :=
  match encoding with
  | .utf8 => decodeUtf8 0 [] bytes
  | .latin1 => .ok (decodeBytes bytes)
  | .ascii =>
    match bytes.findIdx? fun b => 0x80 ≤ b with
    | some offset => .error offset
    | none => .ok (decodeBytes bytes)

/-- The UTF-8 bytes of a text. -/
def encodeUtf8 (text : List Char) : List UInt8 :=
  (String.ofList text).toUTF8.toList

end Encoding

end CobolText
