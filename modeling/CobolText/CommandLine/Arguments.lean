import CobolText.Text.Numeral

/-!
# Command-line arguments

Options may stand anywhere among the operands.  A long option may be shortened as far as it stays
unique and may have its value behind an equals sign.  Short options may be bundled and may have
their value right behind them; an equals sign behind the first of them is passed over.  After two
dashes everything is an operand.

The arguments are first told apart, then joined to steps (an option with its value, or operands
that stand together), and the steps are taken from left to right.  Two dashes are taken away once
from what an option or a place for operands is given, also where they do not separate anything;
what was given may then be nothing.
-/

namespace CobolText.CommandLine

/-- Why a command line leads to no command. -/
inductive Stop where
  | help
  | version
  | misuse
deriving DecidableEq, Repr

/-- The argument after which everything is an operand. -/
def dashes : String :=
  "--"

/-- What an option does to a request. -/
inductive Effect (σ : Type) where
  | switch (set : σ → σ)
  /-- Sets a value, or leaves nothing in its place if two dashes were given. -/
  | value (set : Option String → σ → Except Stop σ)
  | stop (reason : Stop)

/-- The names of options and what they do. -/
abbrev Flags (σ : Type) := List (String × Effect σ)

/-- What is given in one argument with an option. -/
inductive Given where
  | nothing
  /-- Text behind the equals sign of a long option. -/
  | assigned (text : String)
  /-- Text behind a short option. -/
  | attached (text : String)
deriving DecidableEq, Repr

/-- An argument told apart. -/
inductive Word (σ : Type) where
  | operand (text : String)
  /-- The two dashes after which everything is an operand. -/
  | separator
  | option (effect : Effect σ) (given : Given)
  | unknown

/-- Whether a text is a minus sign and a decimal number. -/
def isNegativeNumber (s : List Char) : Bool :=
  let digits (t : List Char) : Bool := t.all fun c => (Text.decimalDigit? c).isSome
  match s with
  | '-' :: body =>
    match Text.splitOn '.' body with
    | [whole] => !whole.isEmpty && digits whole
    | [whole, decimals] => digits whole && !decimals.isEmpty && digits decimals
    | _ => false
  | _ => false

/-- A text up to its first equals sign, and what follows that if there is one. -/
def splitEquals (text : String) : String × Option String :=
  let s := text.toList
  match s.dropWhile (· != '=') with
  | _ :: value => (String.ofList (s.takeWhile (· != '=')), some (String.ofList value))
  | [] => (text, none)

/-- Whether an option name has one dash. -/
def isShort (name : String) : Bool :=
  !"--".isPrefixOf name

/-- The options that an argument may mean which is not the full name of one, each with what is
given with it. -/
def candidates {σ : Type} (flags : Flags σ) (text : String) : List (Effect σ × Given) :=
  if isShort text then
    let name := String.ofList (text.toList.take 2)
    let given := String.ofList (text.toList.drop 2)
    (flags.filter fun f => f.1 == name).map fun f => (f.2, .attached given)
  else
    let (stem, value) := splitEquals text
    let given := (value.map Given.assigned).getD .nothing
    (flags.filter fun f => stem.isPrefixOf f.1).map fun f => (f.2, given)

/-- Tells what an argument is; a shortened name must be unique. -/
def classify {σ : Type} (flags : Flags σ) (text : String) : Except Stop (Word σ) :=
  if text.toList.head? != some '-' || text == "-" then .ok (.operand text)
  else
    match flags.lookup text with
    | some effect => .ok (.option effect .nothing)
    | none =>
      let (name, value) := splitEquals text
      match value, flags.lookup name with
      | some value, some effect =>
        .ok (.option effect (if isShort name then .attached value else .assigned value))
      | _, _ =>
        match candidates flags text with
        | [(effect, given)] => .ok (.option effect given)
        | [] =>
          if isNegativeNumber text.toList || text.toList.contains ' ' then .ok (.operand text)
          else .ok .unknown
        | _ => .error .misuse

/-- Tells all arguments apart. -/
def words {σ : Type} (flags : Flags σ) : List String → Except Stop (List (Word σ))
  | [] => .ok []
  | text :: texts =>
    if text == dashes then .ok (.separator :: texts.map .operand)
    else do return (← classify flags text) :: (← words flags texts)

/-- A step in reading a command line. -/
inductive Step (σ : Type) where
  | change (set : σ → Except Stop σ)
  /-- Operands that stand together; a separator among them is `none`. -/
  | operands (block : List (Option String))
  /-- Something that means nothing. -/
  | surplus

/-- What one argument with options does: changes, and perhaps an option that still needs a
value. -/
structure Bundle (σ : Type) where
  changes : List (σ → Except Stop σ)
  pending : Option (String → σ → Except Stop σ)

/-- The value that an option is given by a text. -/
def valueOf (text : String) : Option String :=
  if text == dashes then none else some text

/-- The bundle of an option by itself. -/
def Effect.alone {σ : Type} : Effect σ → Bundle σ
  | .switch set => ⟨[fun s => .ok (set s)], none⟩
  | .stop reason => ⟨[fun _ => .error reason], none⟩
  | .value set => ⟨[], some (set ∘ valueOf)⟩

/-- The bundle of an option with a value, which it must need. -/
def Effect.assigned? {σ : Type} (text : String) : Effect σ → Option (Bundle σ)
  | .value set => some ⟨[set (valueOf text)], none⟩
  | _ => none

/-- The bundle of a short option with text behind it: its value, or more short options, all of
which must be known. -/
def attached? {σ : Type} (flags : Flags σ) (effect : Effect σ) : List Char → Option (Bundle σ)
  | [] => effect.assigned? ""
  | c :: rest =>
    match effect with
    | .value _ => effect.assigned? (String.ofList (c :: rest))
    | _ => do
      let next ← flags.lookup (String.ofList ['-', c])
      let tail ← match rest with
        | [] => some next.alone
        | d :: rest => attached? flags next (d :: rest)
      return { tail with changes := effect.alone.changes ++ tail.changes }

/-- The bundle of an option with what is given with it. -/
def bundle? {σ : Type} (flags : Flags σ) (effect : Effect σ) : Given → Option (Bundle σ)
  | .nothing => some effect.alone
  | .assigned text => effect.assigned? text
  | .attached text => attached? flags effect text.toList

/-- The step that no command line should need. -/
def misuse {σ : Type} : Step σ :=
  .change fun _ => .error .misuse

/-- Puts an operand or separator in front of the steps after it. -/
def prependOperand {σ : Type} (text : Option String) : List (Step σ) → List (Step σ)
  | .operands block :: rest => .operands (text :: block) :: rest
  | steps => .operands [text] :: steps

/-- Puts an option in front of the steps after it; it takes the operand behind it if it needs
one. -/
def prependBundle {σ : Type} (b : Bundle σ) (steps : List (Step σ)) : List (Step σ) :=
  let changes := b.changes.map Step.change
  match b.pending, steps with
  | none, _ => changes ++ steps
  | some set, .operands (some text :: block) :: rest =>
    changes ++ .change (set text) :: (if block.isEmpty then rest else .operands block :: rest)
  | some _, _ => [misuse]

/-- The steps of some words. -/
def stepsOf {σ : Type} (flags : Flags σ) (ws : List (Word σ)) : List (Step σ) :=
  ws.foldr (fun w steps => match w with
    | .operand text => prependOperand (some text) steps
    | .separator => prependOperand none steps
    | .unknown => .surplus :: steps
    | .option effect given =>
      match bundle? flags effect given with
      | some b => prependBundle b steps
      | none => [misuse]) []

/-- How many operands a place takes. -/
inductive Arity where
  | one
  | atMostOne
  /-- All that stand together, at least one. -/
  | several
deriving DecidableEq, Repr

/-- The operands for one place, taken from the front of those that stand together, and the others.
A separator goes with the operand before it, or with the first one. -/
def Arity.take? (a : Arity) (block : List (Option String)) :
    Option (List (Option String) × List (Option String)) :=
  let lead := block.takeWhile Option.isNone
  match a, block.dropWhile Option.isNone with
  | .several, _ :: _ => some (block, [])
  | _, text :: rest =>
    some (lead ++ text :: rest.takeWhile Option.isNone, rest.dropWhile Option.isNone)
  | .atMostOne, [] => some (lead, [])
  | _, [] => none

/-- The operands that a place is given, without the first two dashes among them. -/
def operandsOf (group : List (Option String)) : List String :=
  (group.map fun text => text.getD dashes).erase dashes

/-- A place for operands, and what they do to the request. -/
structure Place (σ : Type) where
  arity : Arity
  fill : List String → σ → Except Stop σ

/-- Fills places with operands that stand together, as many as they suffice for.  What is left
are the other places and operands. -/
def fillPlaces {σ : Type} (s : σ) : List (Place σ) → List (Option String) →
    Except Stop (σ × List (Place σ) × List (Option String))
  | [], block => .ok (s, [], block)
  | p :: ps, block =>
    match p.arity.take? block with
    | some (group, rest) => do fillPlaces (← p.fill (operandsOf group) s) ps rest
    | none => .ok (s, p :: ps, block)

/-- A request while it is read. -/
structure Reading (σ : Type) where
  request : σ
  /-- The places that are still to be filled. -/
  places : List (Place σ)
  surplus : Bool

/-- Takes one step. -/
def Reading.step {σ : Type} (r : Reading σ) : Step σ → Except Stop (Reading σ)
  | .change set => do return { r with request := ← set r.request }
  | .surplus => .ok { r with surplus := true }
  | .operands block => do
    let (request, places, rest) ← fillPlaces r.request r.places block
    return ⟨request, places, r.surplus || !rest.isEmpty⟩

/-- Reads a request: every argument must have a meaning, and no place may stay empty. -/
def read {σ : Type} (flags : Flags σ) (places : List (Place σ)) (start : σ) (args : List String) :
    Except Stop σ := do
  let r ← (stepsOf flags (← words flags args)).foldlM Reading.step ⟨start, places, false⟩
  if r.surplus || !r.places.isEmpty then .error .misuse else .ok r.request

end CobolText.CommandLine
