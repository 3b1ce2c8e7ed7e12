import CobolText.Dialect
import CobolText.Directive.Clause

/-!
# Items of a document

A document is read as a sequence of items: stretches of text that are kept, directives that are
carried out, and statements that are left out.  Reading looks at no file, so the items depend on
the text and the dialect alone.  If a directive is malformed, it is the last item.
-/

namespace CobolText

/-- A part of a document. -/
inductive Item where
  /-- Text that is kept, from `start` to `stop`. -/
  | kept (start stop : Nat)
  /-- A `COPY` directive that ends at `stop`. -/
  | copy (keyword : Token) (clause : CopyClause) (stop : Nat)
  /-- A `REPLACE` directive. -/
  | change (effect : RuleChange)
  /-- A directive that cannot be read. -/
  | malformed (keyword : Token) (defect : Defect)
deriving DecidableEq, Repr

namespace Item

/-- Whether only blanks stand before an offset on its line. -/
def startsLine (text : List Char) (offset : Nat) : Bool :=
  Text.isBlankText ((text.take offset).reverse.takeWhile (· != '\n'))

/-- The offset past the `END-EXEC` that closes a block, in a text that starts at `pos`. -/
def endOfExec? (pos : Nat) (s : List Char) : Option Nat :=
  match _h : Token.next? false pos s with
  | none => none
  | some (t, rest) => if t.isWord ["END-EXEC"] then some t.stop else endOfExec? t.stop rest
termination_by s.length
decreasing_by exact Token.length_lt_of_next? _h

/-- The offset past a token of the given kind, if that comes next, and otherwise `pos`. -/
def pastOptional (kind : TokenKind) (pos : Nat) (s : List Char) : Nat :=
  match Token.nextSignificant? false pos s with
  | some (t, _) => if t.kind == kind then t.stop else pos
  | none => pos

/-- The offset past a listing statement with its optional period; a title has a literal. -/
def endOfListing (keyword : Token) (rest : List Char) : Nat :=
  let stop := if keyword.upper == "TITLE" then pastOptional .literal keyword.stop rest
    else keyword.stop
  pastOptional .period stop (rest.drop (stop - keyword.stop))

/-- What a token does to the reading of a document. -/
inductive Reading where
  /-- The text up to `stop` is kept; `options` tells whether compiler options may still follow. -/
  | keep (stop : Nat) (options : Bool)
  /-- The statement up to `stop` is left out. -/
  | remove (stop : Nat)
  | copy (clause : CopyClause) (stop : Nat)
  | change (effect : RuleChange) (stop : Nat)
  | malformed (defect : Defect)

/-- Reads the statement that starts with a token, where `rest` follows the token in `text` and
`options` tells whether compiler options may stand here. -/
def readToken (d : Dialect) (text : List Char) (options : Bool) (t : Token) (rest : List Char) :
    Reading :=
  let word := t.upper
  if t.kind != .word then .keep t.stop options
  else if word == "DIVISION" then .keep t.stop false
  else if word == "EXEC" || word == "EXECUTE" then
    match endOfExec? t.stop rest with
    | some stop => .keep stop options
    | none => .malformed .missingEndExec
  else if d.copyKeywords.contains word then
    match Directive.copyClause t.stop rest with
    | .ok (clause, stop) => .copy clause stop
    | .error defect => .malformed defect
  else if d.isReplaceKeyword word then
    match Directive.ruleChange t.stop rest with
    | .ok (effect, stop) => .change effect stop
    | .error defect => .malformed defect
  else if d.listingKeywords.contains word && startsLine text t.start then
    .remove (endOfListing t rest)
  else if options && d.compilerOptionKeywords.contains word && startsLine text t.start then
    .remove (t.stop + (rest.takeWhile (· != '\n')).length)
  else .keep t.stop options

/-- The items of a document that ends at a directive which cannot be read, where the text from
`start` on is kept so far.  That text is kept, but not in front of a block that is not closed. -/
def lastItems (start : Nat) (keyword : Token) (defect : Defect) : List Item :=
  if defect == .missingEndExec then [.malformed keyword defect]
  else [.kept start keyword.start, .malformed keyword defect]

/-- The items of a document from `pos` on, where `s` is its text there and the text from `start`
on is kept so far. -/
def itemsFrom (d : Dialect) (text : List Char) (options : Bool) (start pos : Nat)
    (s : List Char) : List Item :=
  match _h : Token.next? false pos s with
  | none => [.kept start pos]
  | some (t, rest) =>
    match readToken d text options t rest with
    | .keep stop options => itemsFrom d text options start stop (rest.drop (stop - t.stop))
    | .remove stop =>
      .kept start t.start :: itemsFrom d text options stop stop (rest.drop (stop - t.stop))
    | .copy clause stop =>
      .kept start t.start :: .copy t clause stop ::
        itemsFrom d text options stop stop (rest.drop (stop - t.stop))
    | .change effect stop =>
      .kept start t.start :: .change effect ::
        itemsFrom d text options stop stop (rest.drop (stop - t.stop))
    | .malformed defect => lastItems start t defect
termination_by s.length
decreasing_by
  all_goals
    have := Token.length_lt_of_next? _h
    simp only [List.length_drop]
    omega

/-- The items of a document.  Compiler options may only stand in the main source. -/
def ofText (d : Dialect) (options : Bool) (text : List Char) : List Item :=
  itemsFrom d text options 0 0 text

end Item

end CobolText
