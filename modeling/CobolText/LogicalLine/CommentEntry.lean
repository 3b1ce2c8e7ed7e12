import CobolText.LogicalLine.Basic

/-!
# Comment entries

Some paragraphs of the identification division, such as `AUTHOR`, are followed by free prose: a
comment entry.  It goes on until a division header, the end of the program or another paragraph
keyword with a period.  `flagEntries` finds the prose, divides it from the keyword it shares a
line with, and flags it.
-/

namespace CobolText

namespace CommentEntry

/-- Whether a keyword may end in front of `rest`. -/
def endsWord (rest : List Char) : Bool :=
  match rest with
  | [] => true
  | c :: _ => !(Text.isLatinLetter c || c.isDigit || c == '_' || c == '-')

/-- What follows blanks and a period. -/
def afterPeriod? (s : List Char) : Option (List Char) :=
  match Text.trimLeft s with
  | '.' :: rest => some rest
  | _ => none

/-- What follows a keyword at the start of `s`, and the period after it.  If no period is needed
there may be one. -/
def afterKeyword? (needsPeriod : Bool) (s keyword : List Char) : Option (List Char) :=
  match Text.dropWord keyword s with
  | some rest =>
    if endsWord rest then
      match afterPeriod? rest with
      | some after => some after
      | none => if needsPeriod then none else some rest
    else none
  | none => none

/-- Keywords in the order in which they are tried, longer ones first.  Without any, the empty
keyword is tried. -/
def inTrialOrder (keywords : List String) : List (List Char) :=
  if keywords.isEmpty then [[]]
  else (keywords.map String.toList).mergeSort fun a b => b.length ≤ a.length

/-- What follows a keyword, and the period after it, when the keyword is all but the blanks at the
start of `content`.  A keyword that starts with blanks may take some of them. -/
def afterAny? (keywords : List String) (needsPeriod : Bool) (content : List Char) :
    Option (List Char) :=
  let blanks := (content.takeWhile Text.isBlank).length
  (List.range (blanks + 1)).reverse.findSome? fun n =>
    (inTrialOrder keywords).findSome? (afterKeyword? needsPeriod (content.drop n))

/-- The name in a division header at the start of a line. -/
def divisionName? (content : List Char) : Option (List Char) :=
  let s := Text.trimLeft content
  match s with
  | c :: _ =>
    if Text.isLatinLetter c then
      let name := s.takeWhile fun c => Text.isLatinLetter c || c.isDigit || c == '-'
      let rest := s.drop name.length
      match rest with
      | b :: _ =>
        if Text.isBlank b then
          match Text.dropWord "DIVISION".toList (Text.trimLeft rest) with
          | some after => if endsWord after then some name else none
          | none => none
        else none
      | [] => none
    else none
  | [] => none

/-- Whether a line ends a program. -/
def isEndProgram (content : List Char) : Bool :=
  match Text.dropWord "END".toList (Text.trimLeft content) with
  | some (b :: rest) =>
    if Text.isBlank b then
      match Text.dropWord "PROGRAM".toList (Text.trimLeft rest) with
      | some after => endsWord after
      | none => false
    else false
  | _ => false

/-- Whether a line ends a comment entry. -/
def isTerminator (d : Dialect) (content : List Char) : Bool :=
  (divisionName? content).isSome || isEndProgram content ||
    (afterAny? (d.commentEntryTerminators ++ d.commentEntryTriggers) true content).isSome

/-- The offset at which the prose after a trigger keyword starts. -/
def proseStart? (d : Dialect) (content : List Char) : Option Nat :=
  (afterAny? d.commentEntryTriggers false content).map fun rest => content.length - rest.length

/-- Where the reader of comment entries stands. -/
structure Progress where
  inIdentification : Bool
  inEntry : Bool
deriving DecidableEq, Repr

/-- A program may start right in its identification division. -/
def Progress.initial : Progress :=
  ⟨true, false⟩

/-- Whether the identification division goes on after a line. -/
def staysInIdentification (before : Bool) (content : List Char) : Bool :=
  match divisionName? content with
  | some name =>
    let upper := Text.upper name
    upper == "IDENTIFICATION".toList || upper == "ID".toList
  | none => if isEndProgram content then false else before

/-- Reads one line outside a comment entry: a trigger keyword in the identification division
starts an entry, and what follows it on the line is divided from it. -/
def openEntry (d : Dialect) (inIdentification : Bool) (l : LogicalLine) :
    Progress × List LogicalLine :=
  let content := l.content
  let inIdentification := staysInIdentification inIdentification content
  match if inIdentification then proseStart? d content else none with
  | none => (⟨inIdentification, false⟩, [l])
  | some n =>
    if Text.isBlankText (content.drop n) then (⟨inIdentification, true⟩, [l])
    else
      let (keyword, prose) := l.divide n
      (⟨inIdentification, true⟩, [keyword, { prose with commentEntry := true }])

/-- Reads one line. -/
def step (d : Dialect) (p : Progress) (l : LogicalLine) : Progress × List LogicalLine :=
  if !l.kind.isCode then (p, [l])
  else if p.inEntry && !isTerminator d l.content then (p, [{ l with commentEntry := true }])
  else openEntry d p.inIdentification l

/-- Flags the comment entries in lines, from a state of the reader on. -/
def flagFrom (d : Dialect) (p : Progress) : List LogicalLine → List LogicalLine
  | [] => []
  | l :: ls =>
    let (next, lines) := step d p l
    lines ++ flagFrom d next ls

end CommentEntry

namespace LogicalLine

/-- Flags the comment entries of a source unit. -/
def flagEntries (d : Dialect) (lines : List LogicalLine) : List LogicalLine :=
  CommentEntry.flagFrom d .initial lines

end LogicalLine

end CobolText
