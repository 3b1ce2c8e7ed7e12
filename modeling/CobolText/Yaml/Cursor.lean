import CobolText.Yaml.Character

/-!
# Places in a document

A cursor is what is left of a document, with the place where it starts.
-/

namespace CobolText.Yaml

/-- The rest of a document and the place of its first character. -/
structure Cursor where
  rest : List Char
  index : Nat
  line : Nat
  column : Nat
deriving DecidableEq, Repr

namespace Cursor

/-- The start of a document. -/
def start (text : List Char) : Cursor :=
  ⟨text, 0, 0, 0⟩

/-- The place after a character.  A byte order mark takes no column. -/
def pass (p : Cursor) (c : Char) : Cursor :=
  if isBreak c then { p with index := p.index + 1, line := p.line + 1, column := 0 }
  else
    { p with index := p.index + 1, column := if c == '\ufeff' then p.column else p.column + 1 }

/-- The place where a later part of the rest starts. -/
def moveTo (p : Cursor) (rest : List Char) : Cursor :=
  (p.rest.take (p.rest.length - rest.length)).foldl pass { p with rest }

/-- The place some characters further on. -/
def move (p : Cursor) (n : Nat) : Cursor :=
  p.moveTo (p.rest.drop n)

end Cursor

end CobolText.Yaml
