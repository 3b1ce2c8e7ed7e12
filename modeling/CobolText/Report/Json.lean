import CobolText.Value

/-!
# JSON text

Values written as JSON.  Text stays as it is but for quotation marks, backslashes and control
characters.  A layout with an indent puts every item on a line of its own; without one everything
stands on one line.
-/

namespace CobolText

/-- How JSON is laid out. -/
structure JsonLayout where
  /-- What each level is indented by; without it everything stands on one line. -/
  indent : Option String
  /-- Whether fields are written in the order of their names. -/
  sortKeys : Bool
deriving DecidableEq, Repr

namespace Json

/-- The last two hexadecimal digits of a number. -/
def twoHexDigits (n : Nat) : List Char :=
  [Nat.digitChar (n / 16 % 16), Nat.digitChar (n % 16)]

/-- A character as it stands inside a JSON text. -/
def escape (c : Char) : List Char :=
  if c == '\x22' || c == '\\' then ['\\', c]
  else if c == '\n' then ['\\', 'n']
  else if c == '\r' then ['\\', 'r']
  else if c == '\t' then ['\\', 't']
  else if c == '\x08' then ['\\', 'b']
  else if c == '\x0c' then ['\\', 'f']
  else if c.toNat < 0x20 then ['\\', 'u', '0', '0'] ++ twoHexDigits c.toNat
  else [c]

/-- A text in quotation marks. -/
def quote (s : String) : String :=
  String.ofList ('\x22' :: s.toList.flatMap escape ++ ['\x22'])

/-- The name of a field as text. -/
def nameOf : Key → String
  | .null => "null"
  | .flag true => "true"
  | .flag false => "false"
  | .number n => toString n
  | .text s => s

/-- The items of a list or object between its brackets. -/
def enclose (layout : JsonLayout) (level : Nat) (opening closing : String) (items : List String) :
    String :=
  if items.isEmpty then opening ++ closing
  else
    match layout.indent with
    | none => opening ++ ", ".intercalate items ++ closing
    | some unit =>
      let margin (n : Nat) := "\n" ++ String.join (List.replicate n unit)
      opening ++ margin (level + 1) ++ ("," ++ margin (level + 1)).intercalate items ++
        margin level ++ closing

/-- Written fields, each with its name, in the order the layout asks for. -/
def inOrder (layout : JsonLayout) (items : List (String × String)) : List (String × String) :=
  if layout.sortKeys then items.mergeSort fun a b => decide (a.1 ≤ b.1) else items

mutual

/-- A value written inside `level` lists or objects. -/
def renderAt (layout : JsonLayout) (level : Nat) : Value → String
  | .null => "null"
  | .flag true => "true"
  | .flag false => "false"
  | .number n => toString n
  | .text s => quote s
  | .list items => enclose layout level "[" "]" (renderItems layout (level + 1) items)
  | .fields entries =>
    let items := inOrder layout (renderFields layout (level + 1) entries)
    enclose layout level "\x7b" "\x7d" (items.map fun (name, text) => quote name ++ ": " ++ text)

/-- The items of a list. -/
def renderItems (layout : JsonLayout) (level : Nat) : List Value → List String
  | [] => []
  | v :: vs => renderAt layout level v :: renderItems layout level vs

/-- The fields of an object, each with its name. -/
def renderFields (layout : JsonLayout) (level : Nat) :
    List (Key × Value) → List (String × String)
  | [] => []
  | (key, v) :: rest => (nameOf key, renderAt layout level v) :: renderFields layout level rest

end

/-- A value as JSON text. -/
def render (layout : JsonLayout) (v : Value) : String :=
  renderAt layout 0 v

end Json

end CobolText
