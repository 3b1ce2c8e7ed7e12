import CobolText.Value
import CobolText.Yaml.Node.Reader
import CobolText.Yaml.Token.Scan

/-!
# Documents

The value that a document stands for.
-/

namespace CobolText.Yaml

/-- A defect and how deep in the document it lies.  Of several defects the least deep is
reported, and of those the first. -/
structure PlacedDefect where
  depth : Nat
  defect : Defect
deriving DecidableEq, Repr

/-- Both of two results; of two defects the one to be reported. -/
def both {α β : Type} (a : Except PlacedDefect α) (b : Except PlacedDefect β) :
    Except PlacedDefect (α × β) :=
  match a, b with
  | .ok x, .ok y => .ok (x, y)
  | .error d, .error e => .error (if e.depth < d.depth then e else d)
  | .error d, .ok _ => .error d
  | .ok _, .error e => .error e

/-- A result whose defect lies at a depth. -/
def placed {α : Type} (depth : Nat) (result : Except Defect α) : Except PlacedDefect α :=
  result.mapError (⟨depth, ·⟩)

/-- The value of a scalar of a kind. -/
def scalarValue (tag : Tag) (text : String) : Except Defect Value :=
  match tag with
  | .null => .ok .null
  | .text => .ok (.text text)
  | .number => (numberValue text).map Value.number
  | .flag =>
    match truthValue? text with
    | some b => .ok (.flag b)
    | none => .error .notTruthValue
  | .enclosing => .error .circular
  | _ => .error .meaningless

namespace Node

mutual

/-- The text of a scalar, or of fields that have a value as a whole. -/
def text? : Node → Option String
  | .scalar _ text => some text
  | .list _ _ => none
  | .fields _ entries => wholeText? entries

/-- The text of the value that fields have as a whole. -/
def wholeText? : List (Node × Node) → Option String
  | [] => none
  | (key, value) :: entries => if key.tag == .whole then value.text? else wholeText? entries

end

/-- The value of a node that is taken as a scalar. -/
def asScalar (node : Node) : Except Defect Value :=
  match node.text? with
  | some text => scalarValue node.tag text
  | none => .error .meaningless

/-- The key that a node stands for, which is no collection.  The mark of a value as a whole is
text here. -/
def key (node : Node) : Except Defect Key :=
  match node with
  | .scalar .whole text => .ok (.text text)
  | .scalar .enclosing _ => .error .meaningless
  | _ =>
    match node.asScalar.map Key.ofValue? with
    | .ok (some key) => .ok key
    | .ok none => .error .meaningless
    | .error defect => .error defect

mutual

/-- The value of a node inside collections of a depth. -/
def value (depth : Nat) : Node → Except PlacedDefect Value
  | .scalar tag text =>
    if tag == .list || tag == .fields then .error ⟨depth + 1, .meaningless⟩
    else placed depth (scalarValue tag text)
  | .list tag items =>
    if tag == .list then (itemValues (depth + 1) items).map Value.list
    else .error ⟨if tag == .fields then depth + 1 else depth, .meaningless⟩
  | .fields tag entries =>
    if tag == .fields then
      (entryValues (depth + 1) entries).map fun found => .fields (Value.update [] found)
    else if tag == .list then .error ⟨depth + 1, .meaningless⟩
    else placed depth (asScalar (.fields tag entries))

/-- The values of items of a depth. -/
def itemValues (depth : Nat) : List Node → Except PlacedDefect (List Value)
  | [] => .ok []
  | item :: items =>
    (both (item.value depth) (itemValues depth items)).map fun (v, vs) => v :: vs

/-- The entries of fields of a depth. -/
def entryValues (depth : Nat) : List (Node × Node) → Except PlacedDefect (List (Key × Value))
  | [] => .ok []
  | (key, value) :: entries =>
    let entry := both (placed depth key.key) (value.value depth)
    (both entry (entryValues depth entries)).map fun (e, es) => e :: es

end

end Node

/-- The value that a document stands for; an empty one stands for nothing. -/
def parse (text : List Char) : Except Defect Value := do
  match ← Node.ofTokens? (Token.scan text) with
  | none => return .null
  | some node => (node.merged.value 0).mapError (·.defect)

end CobolText.Yaml
