import CobolText.Text.Numeral
import CobolText.Yaml.Tag

/-!
# What plain scalars stand for

A plain scalar is nothing, a truth value, a whole number or text, by how it looks.
-/

namespace CobolText.Yaml

/-- The truth value that a word is; case does not matter. -/
def truthValue? (text : String) : Option Bool :=
  match text.toLower with
  | "yes" | "true" | "on" => some true
  | "no" | "false" | "off" => some false
  | _ => none

/-- Whether a word is in small letters, in capitals, or in small letters after a capital. -/
def isEvenlyCased (s : List Char) : Bool :=
  s == s.map Char.toLower || s == s.map Char.toUpper ||
    s == (s.take 1).map Char.toUpper ++ (s.drop 1).map Char.toLower

/-- Whether there is at least one character, and each is a digit of a base or an underscore. -/
def areDigits (base : Nat) (s : List Char) : Bool :=
  !s.isEmpty && s.all fun c => c == '_' || (Text.digit? base c).isSome

/-- Whether a text is one of the digits of a number to the base sixty: a number below sixty of
one or two digits. -/
def isSixtieth : List Char → Bool
  | [c] => c.isDigit
  | [c, d] => (Text.digit? 6 c).isSome && d.isDigit
  | _ => false

/-- Whether a text looks like a whole number: in decimal digits, also to the base sixty with
colons between, or in binary, octal or hexadecimal digits after a zero. -/
def isNumeral (s : List Char) : Bool :=
  match (Text.unsigned s).2 with
  | ['0'] => true
  | '0' :: 'b' :: rest => areDigits 2 rest
  | '0' :: 'x' :: rest => areDigits 16 rest
  | '0' :: rest => areDigits 8 rest
  | body =>
    match Text.splitOn ':' body with
    | first :: more => areDigits 10 first && first.head? != some '_' && more.all isSixtieth
    | [] => false

/-- What kind of value a plain scalar stands for. -/
def plainTag (text : String) : Tag :=
  if text == "" || text == "~" then .null
  else if text == "<<" then .merge
  else if text == "=" then .whole
  else if text.toLower == "null" && isEvenlyCased text.toList then .null
  else if (truthValue? text).isSome && isEvenlyCased text.toList then .flag
  else if isNumeral text.toList then .number
  else .text

/-- The number that digits of a base stand for. -/
def digitsValue (base : Nat) (s : List Char) : Except Defect Int :=
  match Text.number? base (Text.digit? base) s with
  | some n => .ok n
  | none => .error .notNumeral

/-- The number that a decimal numeral stands for. -/
def decimalValue (s : List Char) : Except Defect Int :=
  match Text.integer? s with
  | some n => .ok n
  | none => .error .notNumeral

/-- The number that a numeral without a sign stands for. -/
def unsignedValue (body : List Char) : Except Defect Int :=
  match body with
  | [] => .error .emptyNumeral
  | ['0'] => .ok 0
  | '0' :: 'b' :: rest => digitsValue 2 rest
  | '0' :: 'x' :: rest => digitsValue 16 rest
  | '0' :: rest => digitsValue 8 ('0' :: rest)
  | _ => do
    if !body.contains ':' then return ← decimalValue body
    let parts ← (Text.splitOn ':' body).mapM decimalValue
    return parts.foldl (fun n part => n * 60 + part) 0

/-- The number that a numeral stands for; underscores do not count. -/
def numberValue (text : String) : Except Defect Int := do
  let (negative, body) := Text.unsigned (text.toList.filter (· != '_'))
  let n ← unsignedValue body
  return if negative then -n else n

end CobolText.Yaml
