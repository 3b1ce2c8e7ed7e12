import CobolText.LogicalLine.Marking
import CobolText.Value

/-!
# Report data

What a report may hold besides plain values: sets, paths, points in time, and the positions,
extents and kinds of this library.  Each has its way to be written as a plain value.
-/

namespace CobolText

/-- A point in time of a calendar day. -/
structure Timestamp where
  year : Nat
  month : Nat
  day : Nat
  hour : Nat
  minute : Nat
  second : Nat
  microsecond : Nat
deriving DecidableEq, Repr

namespace Timestamp

/-- A number with at least `width` digits. -/
def padded (width n : Nat) : String :=
  let digits := (toString n).toList
  String.ofList (List.replicate (width - digits.length) '0' ++ digits)

/-- Date and time as in ISO 8601; fractions of a second are left out if there are none. -/
def render (t : Timestamp) : String :=
  padded 4 t.year ++ "-" ++ padded 2 t.month ++ "-" ++ padded 2 t.day ++ "T" ++
    padded 2 t.hour ++ ":" ++ padded 2 t.minute ++ ":" ++ padded 2 t.second ++
    (if t.microsecond == 0 then "" else "." ++ padded 6 t.microsecond)

end Timestamp

/-- A position as fields. -/
def Position.toValue (p : Position) : Value :=
  .fields [("file", .text p.file), ("line", .number p.line), ("column", .number p.column)]

/-- An extent as fields; marks that are not set are left out. -/
def Extent.toValue (e : Extent) : Value :=
  let mark (name : String) (set : Bool) : List (Key × Value) :=
    if set then [(name, .flag true)] else []
  let place : List (Key × Value) :=
    [("start", .number e.start), ("end", .number e.stop), ("file", .text e.position.file),
      ("line", .number e.position.line), ("column", .number e.position.column)]
  let inclusions : List (Key × Value) :=
    if e.marks.inclusions.isEmpty then []
    else [("inclusion_path", .list (e.marks.inclusions.map Value.text))]
  .fields (place ++
    mark "continuation" e.marks.continuation ++ mark "comment" e.marks.comment ++
    mark "comment_entry" e.marks.commentEntry ++ mark "replaced" e.marks.replaced ++ inclusions)

/-- A value of a report. -/
inductive Datum where
  | null
  | flag (value : Bool)
  | number (value : Int)
  | text (value : String)
  | list (items : List Datum)
  | fields (entries : List (String × Datum))
  | set (items : List Datum)
  | path (value : Path)
  | time (value : Timestamp)
  | kind (value : CommentKind)
  | position (value : Position)
  | extent (value : Extent)
  /-- Something that no report can show. -/
  | foreign
deriving Inhabited

namespace Datum

/-- What the members of a set are compared by.  Members of different sorts have no order. -/
inductive SortKey where
  | number (value : Int)
  | text (value : String)
  | path (components : List String)
  | time (components : List Nat)
  | unordered (name : String)
  | extent (value : Extent)
deriving DecidableEq, Repr

/-- The key of a member of a set; truth values count as numbers. -/
def sortKey? : Datum → Option SortKey
  | .flag b => some (.number (if b then 1 else 0))
  | .number n => some (.number n)
  | .text s => some (.text s)
  | .path p => some (.path p.sortKey)
  | .time t => some (.time [t.year, t.month, t.day, t.hour, t.minute, t.second, t.microsecond])
  | .null => some (.unordered "")
  | .kind k => some (.unordered k.name)
  | .position p => some (.unordered p.render)
  | .extent e => some (.extent e)
  | _ => none

/-- Whether one key comes before or with another, if they can be compared. -/
def SortKey.le? : SortKey → SortKey → Option Bool
  | .number a, .number b => some (decide (a ≤ b))
  | .text a, .text b => some (decide (a ≤ b))
  | .path a, .path b => some (!b.lex a fun x y => decide (x < y))
  | .time a, .time b => some (!b.lex a fun x y => decide (x < y))
  | _, _ => none

/-- The members of a set, each once, with their keys. -/
def members (items : List (SortKey × Value)) : List (SortKey × Value) :=
  items.foldl (fun found i => if found.any (fun f => f.1 == i.1) then found else found ++ [i]) []

/-- The members of a set in order.  There is no order if two of them cannot be compared. -/
def sortMembers? (items : List (SortKey × Value)) : Option (List Value) :=
  let found := members items
  let comparable := found.all fun a => found.all fun b => a.1 == b.1 || (a.1.le? b.1).isSome
  if comparable then
    some ((found.mergeSort fun a b => (a.1.le? b.1).getD true).map (·.2))
  else none

mutual

/-- A datum as a plain value, if it has one. -/
def toValue? : Datum → Option Value
  | .null => some .null
  | .flag b => some (.flag b)
  | .number n => some (.number n)
  | .text s => some (.text s)
  | .list items => (toValues? items).map Value.list
  | .fields entries => (toFields? entries).map Value.fields
  | .set items => do
    let values ← toMembers? items
    return .list (← sortMembers? values)
  | .path p => some (.text p.render)
  | .time t => some (.text t.render)
  | .kind k => some (.text k.name)
  | .position p => some p.toValue
  | .extent e => some e.toValue
  | .foreign => none

/-- Data as plain values. -/
def toValues? : List Datum → Option (List Value)
  | [] => some []
  | d :: ds => do return (← toValue? d) :: (← toValues? ds)

/-- Named data as fields. -/
def toFields? : List (String × Datum) → Option (List (Key × Value))
  | [] => some []
  | (name, d) :: ds => do return (name, ← toValue? d) :: (← toFields? ds)

/-- The members of a set with their keys. -/
def toMembers? : List Datum → Option (List (SortKey × Value))
  | [] => some []
  | d :: ds => do return (← d.sortKey?, ← toValue? d) :: (← toMembers? ds)

end

end Datum

end CobolText
