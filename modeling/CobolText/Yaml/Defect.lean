/-!
# Defects of documents

Why a text is no document, or a document stands for no value.
-/

namespace CobolText.Yaml

/-- What is wrong with a document. -/
inductive Defect where
  /-- A character that no document may hold. -/
  | unreadable
  /-- Text that is no token, or a token that may not stand in its place. -/
  | lexical
  /-- Tokens that are no document. -/
  | structural
  /-- A name used before it is given or given twice, or a second document. -/
  | reference
  /-- A collection that holds itself. -/
  | circular
  /-- A node that stands for no value. -/
  | meaningless
  /-- A code point past the last one. -/
  | codePoint
  /-- A code point of more than thirty-one bits. -/
  | wideCodePoint
  /-- Text that spells no number where one is announced. -/
  | notNumeral
  /-- No text at all where a number is announced. -/
  | emptyNumeral
  /-- A word that is no truth value where one is announced. -/
  | notTruthValue
deriving DecidableEq, Repr

end CobolText.Yaml
