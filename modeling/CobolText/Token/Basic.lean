import CobolText.Text.Case

/-!
# Tokens

The lexical classes of program text.  A token is never changed: its text is what stands in the
source from its start to its stop.
-/

namespace CobolText

/-- Lexical classes. -/
inductive TokenKind where
  | word
  | literal
  | pseudoText
  | period
  | separator
  | whitespace
  | comment
  | other
deriving DecidableEq, Repr

/-- A token and the offset of its first character. -/
structure Token where
  kind : TokenKind
  text : List Char
  start : Nat
deriving DecidableEq, Repr

namespace Token

/-- The offset past the last character. -/
def stop (t : Token) : Nat :=
  t.start + t.text.length

/-- The text in capitals. -/
def upper (t : Token) : String :=
  String.ofList (Text.upper t.text)

/-- Whether the token is one of the given words. -/
def isWord (t : Token) (words : List String) : Bool :=
  t.kind == .word && words.contains t.upper

/-- Whether the token has no meaning between words. -/
def isBlank (t : Token) : Bool :=
  t.kind == .whitespace || t.kind == .separator || t.kind == .comment

/-- Text with every pair of quotes made into one. -/
def undouble (q : Char) : List Char → List Char
  | a :: b :: rest => if a == q && b == q then q :: undouble q rest else a :: undouble q (b :: rest)
  | rest => rest

/-- The value of a literal: what stands between its quotes, without the letter in front of them.
A literal that is not closed runs to its end. -/
def literalValue (t : Token) : List Char :=
  let first := Text.upper (t.text.take 1)
  let body := if ["X", "N", "G", "Z"].contains (String.ofList first) then t.text.drop 1 else t.text
  match body with
  | [] => []
  | q :: rest => undouble q (if rest.getLast? == some q then rest.dropLast else rest)

/-- What stands between the delimiters of pseudo-text. -/
def pseudoTextValue (t : Token) : List Char :=
  (t.text.drop 2).dropLast.dropLast

end Token

end CobolText
