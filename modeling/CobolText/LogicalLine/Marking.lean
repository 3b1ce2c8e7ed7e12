import CobolText.LogicalLine.Indicator

/-!
# Comment marks and blocks

Comment entries and lines that are no code get a mark in front, so that later stages take them as
comments.  Neighbouring lines of one kind form a block.
-/

namespace CobolText

/-- The two kinds of text that is never read as code. -/
inductive CommentKind where
  | entry
  | comment
deriving DecidableEq, Repr

namespace CommentKind

/-- The name of a kind. -/
def name : CommentKind → String
  | .entry => "comment-entry"
  | .comment => "comment"

/-- The kind of a given name. -/
def ofName? (given : String) : Option CommentKind :=
  [CommentKind.entry, .comment].find? fun k => k.name == given

end CommentKind

/-- Neighbouring logical lines of one kind, by the indices of the first and the last one. -/
structure CommentBlock where
  first : Int
  last : Int
  kind : CommentKind
deriving DecidableEq, Repr

namespace CommentBlock

/-- Whether a line belongs to the block. -/
def contains (b : CommentBlock) (index : Int) : Bool :=
  b.first ≤ index && index ≤ b.last

/-- How many lines the block has. -/
def lineCount (b : CommentBlock) : Int :=
  b.last - b.first + 1

end CommentBlock

namespace LogicalLine

/-- The mark in front of a comment entry. -/
def entryMark : List Char :=
  ['*', '>', 'C', 'E', ' ']

/-- Whether a line that is no comment entry is written out as a comment. -/
def isCommentedOut (debugging : Bool) (l : LogicalLine) : Bool :=
  l.kind.isCommentLike || (l.kind == .debug && !debugging)

/-- Marks a comment entry or a comment; a comment that brings its mark along gets no other. -/
def mark (debugging : Bool) (l : LogicalLine) : LogicalLine :=
  if l.commentEntry then { l with marker := entryMark }
  else if l.isCommentedOut debugging then
    let tagged := Text.commentMark.isPrefixOf (Text.trimLeft l.content)
    { l with commented := true, marker := if tagged then [] else Text.commentMark }
  else l

/-- The kind of comment that a marked line is. -/
def commentKind? (l : LogicalLine) : Option CommentKind :=
  if l.commentEntry then some .entry else if l.commented then some .comment else none

/-- A line of a kind in front of the blocks of the lines after it. -/
def prependBlock (index : Nat) (kind : CommentKind) (blocks : List CommentBlock) :
    List CommentBlock :=
  match blocks with
  | b :: rest =>
    if b.kind == kind && b.first == index + 1 then { b with first := index } :: rest
    else ⟨index, index, kind⟩ :: blocks
  | [] => [⟨index, index, kind⟩]

/-- The blocks of marked lines that are numbered from `index` on. -/
def blocksFrom (index : Nat) : List LogicalLine → List CommentBlock
  | [] => []
  | l :: ls =>
    let blocks := blocksFrom (index + 1) ls
    match l.commentKind? with
    | some kind => prependBlock index kind blocks
    | none => blocks

/-- Marks all lines, and gives their blocks. -/
def markAll (debugging : Bool) (lines : List LogicalLine) :
    List LogicalLine × List CommentBlock :=
  let marked := lines.map (mark debugging)
  (marked, blocksFrom 0 marked)

end LogicalLine

end CobolText
