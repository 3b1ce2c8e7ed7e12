import CobolText.Replacement.Pattern
import CobolText.Replacement.Shield

/-!
# Replacement

Rules are applied in one scan from left to right.  At each offset the first rule that matches
wins, even if a later one would match more; what it writes is not looked at again.  The scan
gives a list of edits, and the edits give the new text.
-/

namespace CobolText

/-- A stretch of text and the rule that replaces it. -/
structure Edit where
  start : Nat
  stop : Nat
  rule : ReplacementRule
deriving DecidableEq, Repr

namespace Edit

/-- The edit of the first rule that matches at the start of `s` and is allowed there. -/
def first? (shield : Shield) (rules : List ReplacementRule) (pos : Nat) (before : Option Char)
    (s : List Char) : Option Edit :=
  rules.findSome? fun rule =>
    match rule.words.matchLength? before s with
    | some n =>
      if 0 < n && shield.allows pos (pos + n) then some ⟨pos, pos + n, rule⟩ else none
    | none => none

/-- The offset at which the scan goes on if no rule applies at `pos`: past the shielded interval
that holds it, or one further. -/
def past (pos : Nat) (region : Option ShieldRegion) : Nat :=
  match region with
  | some r => r.stop.toNat
  | none => pos + 1

/-- The edit to make at `pos`.  Inside a comment, or past the start of a literal, there is none. -/
def at? (shield : Shield) (rules : List ReplacementRule) (pos : Nat) (before : Option Char)
    (s : List Char) : Option Edit :=
  match shield.regionAt? pos with
  | some r => if r.isComment || r.start != pos then none else first? shield rules pos before s
  | none => first? shield rules pos before s

/-- The edits of the rules in a text that starts at `pos`, where `before` is the character in
front of it. -/
def scan (shield : Shield) (rules : List ReplacementRule) (pos : Nat) (before : Option Char) :
    List Char → List Edit
  | [] => []
  | c :: cs =>
    match at? shield rules pos before (c :: cs) with
    | some e =>
      let n := e.stop - pos - 1
      e :: scan shield rules e.stop ((c :: cs)[n]?) (cs.drop n)
    | none =>
      let next := past pos (shield.regionAt? pos)
      let n := next - pos - 1
      scan shield rules next ((c :: cs)[n]?) (cs.drop n)
termination_by s => s.length
decreasing_by all_goals simp only [List.length_drop, List.length_cons]; omega

/-- What becomes of a text from `start` on when edits are made in it. -/
def fragmentsFrom (t : TracedText) (start : Nat) : List Edit → List Fragment
  | [] => [t.cut start t.text.length []]
  | e :: es =>
    t.cut start e.start [] ::
      Fragment.replacement e.rule.replacement (t.map.extentAt? e.start)
        (t.map.positionAt? e.start) ::
      fragmentsFrom t e.stop es

end Edit

namespace TracedText

/-- The edits that rules make in a text. -/
def edits (t : TracedText) (rules : List ReplacementRule) : List Edit :=
  Edit.scan (Shield.ofText t) rules 0 none t.text

/-- A text after replacement.  What a rule writes stands for the first character it replaced. -/
def replace (t : TracedText) (rules : List ReplacementRule) : TracedText :=
  if rules.isEmpty then t else assemble (Edit.fragmentsFrom t 0 (t.edits rules))

end TracedText

end CobolText
