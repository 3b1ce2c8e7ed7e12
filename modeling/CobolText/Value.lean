import CobolText.Text.Printable

/-!
# Values

Structured values as they stand in configurations and reports: nothing, truth values, whole
numbers, text, lists, and fields in the order they were written.  Settings are kept as values
until they are used, so that a setting nobody needs does no harm.
-/

namespace CobolText

/-- What a field is called: text as a rule, but any value that is not made of others will do. -/
inductive Key where
  | null
  | flag (value : Bool)
  | number (value : Int)
  | text (value : String)
deriving DecidableEq, Repr, Inhabited

instance : Coe String Key :=
  ⟨Key.text⟩

/-- A structured value. -/
inductive Value where
  | null
  | flag (value : Bool)
  | number (value : Int)
  | text (value : String)
  | list (items : List Value)
  | fields (entries : List (Key × Value))
deriving Repr, Inhabited

namespace Value

mutual

/-- Decides whether two values are equal. -/
protected def decEq (a b : Value) : Decidable (a = b) :=
  match a with
  | .null =>
    match b with
    | .null => isTrue rfl
    | .flag _ | .number _ | .text _ | .list _ | .fields _ => isFalse nofun
  | .flag x =>
    match b with
    | .flag y => decidable_of_iff (x = y) (by simp)
    | .null | .number _ | .text _ | .list _ | .fields _ => isFalse nofun
  | .number x =>
    match b with
    | .number y => decidable_of_iff (x = y) (by simp)
    | .null | .flag _ | .text _ | .list _ | .fields _ => isFalse nofun
  | .text x =>
    match b with
    | .text y => decidable_of_iff (x = y) (by simp)
    | .null | .flag _ | .number _ | .list _ | .fields _ => isFalse nofun
  | .list xs =>
    match b with
    | .list ys =>
      match Value.decEqItems xs ys with
      | isTrue h => isTrue (by rw [h])
      | isFalse h => isFalse (by simpa using h)
    | .null | .flag _ | .number _ | .text _ | .fields _ => isFalse nofun
  | .fields xs =>
    match b with
    | .fields ys =>
      match Value.decEqFields xs ys with
      | isTrue h => isTrue (by rw [h])
      | isFalse h => isFalse (by simpa using h)
    | .null | .flag _ | .number _ | .text _ | .list _ => isFalse nofun

/-- Decides whether two lists of values are equal. -/
protected def decEqItems (as bs : List Value) : Decidable (as = bs) :=
  match as with
  | [] =>
    match bs with
    | [] => isTrue rfl
    | _ :: _ => isFalse nofun
  | a :: as =>
    match bs with
    | [] => isFalse nofun
    | b :: bs =>
      match Value.decEq a b, Value.decEqItems as bs with
      | isTrue h, isTrue h' => isTrue (by rw [h, h'])
      | isFalse h, _ => isFalse (by simp [h])
      | _, isFalse h => isFalse (by simp [h])

/-- Decides whether two lists of fields are equal. -/
protected def decEqFields (as bs : List (Key × Value)) : Decidable (as = bs) :=
  match as with
  | [] =>
    match bs with
    | [] => isTrue rfl
    | _ :: _ => isFalse nofun
  | (k, a) :: as =>
    match bs with
    | [] => isFalse nofun
    | (l, b) :: bs =>
      match decEq k l, Value.decEq a b, Value.decEqFields as bs with
      | isTrue h, isTrue h', isTrue h'' => isTrue (by rw [h, h', h''])
      | isFalse h, _, _ => isFalse (by simp [h])
      | _, isFalse h, _ => isFalse (by simp [h])
      | _, _, isFalse h => isFalse (by simp [h])

end

instance : DecidableEq Value :=
  Value.decEq

/-- Empty values, zero and `false` count as unset. -/
def isSet : Value → Bool
  | .null => false
  | .flag b => b
  | .number n => n != 0
  | .text s => s != ""
  | .list items => !items.isEmpty
  | .fields entries => !entries.isEmpty

/-- The whole number that a value counts as; a truth value counts as one or zero. -/
def count? : Value → Option Int
  | .number n => some n
  | .flag b => some (if b then 1 else 0)
  | _ => none

end Value

namespace Key

/-- A key as a value. -/
def toValue : Key → Value
  | .null => .null
  | .flag b => .flag b
  | .number n => .number n
  | .text s => .text s

/-- The key that a value can be, unless it is made of other values. -/
def ofValue? : Value → Option Key
  | .null => some .null
  | .flag b => some (.flag b)
  | .number n => some (.number n)
  | .text s => some (.text s)
  | .list _ | .fields _ => none

/-- Whether two keys name the same field.  A truth value names the same field as the number it
counts as. -/
def same (a b : Key) : Bool :=
  match a.toValue.count?, b.toValue.count? with
  | some m, some n => m == n
  | _, _ => a == b

/-- Whether a key is one of some others. -/
def isAmong (k : Key) (keys : List Key) : Bool :=
  keys.any k.same

/-- Keys without those that are the same as one before them. -/
def distinct (keys : List Key) : List Key :=
  keys.foldl (fun found k => if k.isAmong found then found else found ++ [k]) []

/-- Whether one key comes before or with another, if they can be compared. -/
def le? : Key → Key → Option Bool
  | .text s, .text t => some (decide (s ≤ t))
  | a, b =>
    match a.toValue.count?, b.toValue.count? with
    | some m, some n => some (decide (m ≤ n))
    | _, _ => none

/-- Different keys in order, if there is one between any two of them. -/
def sort? (keys : List Key) : Option (List Key) :=
  if keys.all fun a => keys.all fun b => a == b || (a.le? b).isSome then
    some (keys.mergeSort fun a b => (a.le? b).getD true)
  else none

end Key

namespace Value

/-- The items that a value is made of: those of a list, the characters of a text, the names of
fields. -/
def items? : Value → Option (List Value)
  | .list items => some items
  | .text s => some (s.toList.map fun c => .text (String.ofList [c]))
  | .fields entries => some (entries.map fun e => e.1.toValue)
  | _ => none

/-- The value of a field. -/
def field? (entries : List (Key × Value)) (key : Key) : Option Value :=
  (entries.find? fun e => e.1.same key).map (·.2)

/-- The entries with one of them set; a new one is added at the end. -/
def put (entries : List (Key × Value)) (key : Key) (value : Value) : List (Key × Value) :=
  if entries.any fun e => e.1.same key then
    entries.map fun e => if e.1.same key then (e.1, value) else e
  else entries ++ [(key, value)]

/-- The entries with others set one after the other. -/
def update (entries others : List (Key × Value)) : List (Key × Value) :=
  others.foldl (fun es e => put es e.1 e.2) entries

/-- The last `width` hexadecimal digits of a number. -/
def hexDigits : Nat → Nat → List Char
  | 0, _ => []
  | width + 1, n => hexDigits width (n / 16) ++ [Nat.digitChar (n % 16)]

/-- A character that cannot be shown, written by its code point. -/
def escapeCode (c : Char) : List Char :=
  let n := c.toNat
  if n < 0x100 then ['\\', 'x'] ++ hexDigits 2 n
  else if n < 0x10000 then ['\\', 'u'] ++ hexDigits 4 n
  else ['\\', 'U'] ++ hexDigits 8 n

/-- Text in quotes: single ones, or double ones if the text holds a single quote and no double
quote. -/
def quoted (s : String) : String :=
  let single := s.toList.contains '\x27'
  let double := s.toList.contains '\x22'
  let quote := if single && !double then '\x22' else '\x27'
  let escape (c : Char) : List Char :=
    if c == quote || c == '\\' then ['\\', c]
    else if c == '\n' then ['\\', 'n']
    else if c == '\r' then ['\\', 'r']
    else if c == '\t' then ['\\', 't']
    else if Text.isPrintable c then [c]
    else escapeCode c
  String.ofList (quote :: s.toList.flatMap escape ++ [quote])

/-- A key as it is written in front of a value. -/
def renderKey : Key → String
  | .null => "None"
  | .flag true => "True"
  | .flag false => "False"
  | .number n => toString n
  | .text s => quoted s

mutual

/-- A value as it is written inside a list. -/
def renderItem : Value → String
  | .null => "None"
  | .flag true => "True"
  | .flag false => "False"
  | .number n => toString n
  | .text s => quoted s
  | .list items => "[" ++ ", ".intercalate (renderItems items) ++ "]"
  | .fields entries => "\x7b" ++ ", ".intercalate (renderFields entries) ++ "\x7d"

/-- The items of a list, each as it is written there. -/
def renderItems : List Value → List String
  | [] => []
  | item :: items => renderItem item :: renderItems items

/-- Fields, each with its key. -/
def renderFields : List (Key × Value) → List String
  | [] => []
  | (key, value) :: entries =>
    (renderKey key ++ ": " ++ renderItem value) :: renderFields entries

end

/-- A value as text; a text is itself. -/
def render : Value → String
  | .text s => s
  | value => renderItem value

end Value

end CobolText
