/-!
# Delimiters

The characters and marks that delimit literals and comments.
-/

namespace CobolText.Text

/-- Whether a character delimits literals: an apostrophe or a quotation mark. -/
def isQuote (c : Char) : Bool :=
  c == '\x27' || c == '\x22'

/-- The mark that starts a comment. -/
def commentMark : List Char :=
  ['*', '>']

end CobolText.Text
