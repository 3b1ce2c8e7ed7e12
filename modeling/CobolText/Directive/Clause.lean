import CobolText.Fault
import CobolText.Replacement.Pattern

/-!
# Directive clauses

The grammar of what follows the keyword of a `COPY` or `REPLACE` directive:

* `COPY name [OF library | IN library] [SUPPRESS] [REPLACING op BY op ...] .`
* `REPLACE [ALSO] op BY op ... .`, `REPLACE OFF .` and `REPLACE LAST OFF .`

An operand is pseudo-text, a word or a literal.
-/

namespace CobolText

/-- What a `COPY` directive asks for. -/
structure CopyClause where
  name : String
  library : Option String
  suppress : Bool
  rules : List ReplacementRule
deriving DecidableEq, Repr

/-- What a `REPLACE` directive does to the levels of rules in force. -/
inductive RuleChange where
  /-- These rules alone are in force. -/
  | only (rules : List ReplacementRule)
  /-- These rules are in force besides the others. -/
  | also (rules : List ReplacementRule)
  /-- The newest level goes out of force. -/
  | dropLast
  /-- No rules are in force. -/
  | off
deriving DecidableEq, Repr

namespace Directive

/-- The tokens with a meaning from the start of a text up to and with the first period. -/
def sentence (pos : Nat) (s : List Char) : List Token :=
  match _h : Token.next? true pos s with
  | none => []
  | some (t, rest) =>
    if t.isBlank then sentence t.stop rest
    else if t.kind == .period then [t]
    else t :: sentence t.stop rest
termination_by s.length
decreasing_by all_goals exact Token.length_lt_of_next? _h

/-- The text of an operand, and whether it is pseudo-text. -/
def operand? (t : Token) : Option (List Char × Bool) :=
  match t.kind with
  | .pseudoText => some (Text.trim t.pseudoTextValue, true)
  | .word | .literal => some (t.text, false)
  | _ => none

/-- Reads pairs of operands up to the period, and gives the offset past it. -/
def pairs : List Token → Except Defect (List ReplacementRule × Nat)
  | [] => .error .missingPeriod
  | t :: ts =>
    if t.kind == .period then .ok ([], t.stop)
    else
      match operand? t, ts with
      | none, _ => .error (.notReplacingOperand t.text)
      | some _, [] => .error .missingPeriod
      | some (pattern, pseudo), b :: ts =>
        if !b.isWord ["BY"] then .error (.missingBy t.text b.text)
        else
          match ts with
          | [] => .error .missingPeriod
          | r :: ts =>
            if r.kind == .period then .error (.missingReplacement t.text)
            else
              match operand? r with
              | none => .error (.notReplacementOperand r.text)
              | some (replacement, _) =>
                match ReplacementRule.make? pattern replacement pseudo with
                | none => .error .emptyPattern
                | some rule =>
                  match pairs ts with
                  | .ok (rules, stop) => .ok (rule :: rules, stop)
                  | .error e => .error e

/-- Reads one or more pairs of operands up to the period. -/
def rules (ts : List Token) : Except Defect (List ReplacementRule × Nat) :=
  match pairs ts with
  | .ok ([], _) => .error .noOperands
  | result => result

/-- The name that a word or a literal stands for. -/
def nameOf? (t : Token) : Option String :=
  match t.kind with
  | .literal => some (String.ofList t.literalValue)
  | .word => some (String.ofList t.text)
  | _ => none

/-- The part of a `COPY` directive after the names. -/
def copyTail (name : String) (library : Option String) (ts : List Token) :
    Except Defect (CopyClause × Nat) :=
  let suppress := ts.head?.any fun t => t.isWord ["SUPPRESS"]
  match if suppress then ts.drop 1 else ts with
  | [] => .error .missingPeriod
  | t :: ts =>
    if t.isWord ["REPLACING"] then
      match rules ts with
      | .ok (rules, stop) => .ok (⟨name, library, suppress, rules⟩, stop)
      | .error e => .error e
    else if t.kind == .period then .ok (⟨name, library, suppress, []⟩, t.stop)
    else .error (.unexpected t.text)

/-- The part of a `COPY` directive after the copybook name, which ends at `pos`. -/
def copyAfterName (name : String) (pos : Nat) (s : List Char) : Except Defect (CopyClause × Nat) :=
  let ts := sentence pos s
  match ts with
  | [] => .error .missingPeriod
  | t :: _ =>
    if t.isWord ["OF", "IN"] then
      match Token.nextSignificant? false t.stop (s.drop (t.stop - pos)) with
      | none => .error .missingPeriod
      | some (l, rest) =>
        match nameOf? l with
        | none => .error (.missingLibraryName t.upper)
        | some library => copyTail name (some library) (sentence l.stop rest)
    else copyTail name none ts

/-- Reads a `COPY` directive from the end of its keyword on, and gives the offset past its
period.  Names are read without regard to pseudo-text. -/
def copyClause (pos : Nat) (s : List Char) : Except Defect (CopyClause × Nat) :=
  match Token.nextSignificant? false pos s with
  | none => .error .missingPeriod
  | some (t, rest) =>
    match nameOf? t with
    | none => .error .missingBookName
    | some name => copyAfterName name t.stop rest

/-- Requires a period and nothing before it. -/
def closing (change : RuleChange) : List Token → Except Defect (RuleChange × Nat)
  | [] => .error .missingPeriod
  | t :: _ => if t.kind == .period then .ok (change, t.stop) else .error (.unexpected t.text)

/-- Reads a `REPLACE` directive from the end of its keyword on, and gives the offset past its
period. -/
def ruleChange (pos : Nat) (s : List Char) : Except Defect (RuleChange × Nat) :=
  match sentence pos s with
  | [] => .error .missingPeriod
  | t :: ts =>
    if t.isWord ["ALSO"] then (rules ts).map fun (rs, stop) => (.also rs, stop)
    else if t.isWord ["OFF"] then closing .off ts
    else if t.isWord ["LAST"] then
      match ts with
      | [] => .error .missingPeriod
      | o :: rest => if o.isWord ["OFF"] then closing .dropLast rest else .error (.missingOff o.text)
    else (rules (t :: ts)).map fun (rs, stop) => (.only rs, stop)

/-- The label of a directive in reports.  A pattern without words is reported as a fault of its
phrase. -/
def label (keyword : String) : Defect → String
  | .emptyPattern => "REPLACING"
  | _ => keyword

end Directive

end CobolText
