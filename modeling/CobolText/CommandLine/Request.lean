import CobolText.CommandLine.Arguments
import CobolText.Config

/-!
# Requests

What a command line may ask for: to preprocess a batch of sources, or to locate the origin of a
place in the output.
-/

namespace CobolText.CommandLine

/-- What every command may be given. -/
structure General where
  choices : Choices
  config : Option Path
  verbose : Bool
  quiet : Bool
deriving DecidableEq, Repr

/-- A request to preprocess some sources. -/
structure BatchRequest where
  general : General
  sources : List Path
  /-- Where results are written; without it they are printed. -/
  outputDir : Option Path
  /-- Whether origin reports are written too. -/
  withReports : Bool
  /-- How many sources may be worked on at a time, unless that was left out. -/
  jobs : Option Int
deriving DecidableEq, Repr

/-- A request for the origin of a place in the output of a source. -/
structure LocateRequest where
  general : General
  source : Path
  /-- The line of the place, unless it was left out. -/
  line : Option Int
  column : Int
deriving DecidableEq, Repr

/-- A request. -/
inductive Request where
  | batch (request : BatchRequest)
  | locate (request : LocateRequest)
deriving DecidableEq, Repr

/-- The settings shared by all commands. -/
def Request.general : Request → General
  | .batch r => r.general
  | .locate r => r.general

/-- Nothing given. -/
def General.blank : General :=
  ⟨Choices.blank, none, false, false⟩

/-- The whole number that an argument spells. -/
def integerArgument (text : String) : Except Stop Int :=
  match Text.integer? text.toList with
  | some n => .ok n
  | none => .error .misuse

/-- The options that every command has; `change` says how they act on its request. -/
def generalFlags {σ : Type} (change : (General → General) → σ → σ) : Flags σ :=
  let choose (set : Option String → Choices → Choices) (text : Option String) (s : σ) :
      Except Stop σ :=
    .ok (change (fun g => { g with choices := set text g.choices }) s)
  let valueOf (text : Option String) : Value := text.elim .null .text
  let chooseFormat : Effect σ := .value fun text s =>
    if text.all fun name => SourceFormat.all.any fun f => f.name == name then
      choose (fun text c => { c with format := valueOf text }) text s
    else .error .misuse
  let addPath : Effect σ := .value (choose fun text c =>
    { c with copybookPaths := c.copybookPaths ++ [text.map Path.ofString] })
  let verbose : Effect σ := .switch (change fun g => { g with verbose := true })
  let quiet : Effect σ := .switch (change fun g => { g with quiet := true })
  [("-h", .stop .help), ("--help", .stop .help),
    ("--format", chooseFormat),
    ("--dialect", .value (choose fun text c => { c with dialect := valueOf text })),
    ("--encoding", .value (choose fun text c => { c with encoding := valueOf text })),
    ("--debugging-mode", .switch (change fun g =>
      { g with choices := { g.choices with debugging := .flag true } })),
    ("-c", addPath), ("--copybook-path", addPath),
    ("--config", .value fun text s =>
      .ok (change (fun g => { g with config := text.map Path.ofString }) s)),
    ("-V", verbose), ("--verbose", verbose), ("-q", quiet), ("--quiet", quiet)]

namespace BatchRequest

/-- Nothing given. -/
def blank : BatchRequest :=
  ⟨General.blank, [], none, false, some 1⟩

/-- The options of the command. -/
def flags : Flags BatchRequest :=
  let output : Effect BatchRequest :=
    .value fun text r => .ok { r with outputDir := text.map Path.ofString }
  let jobs : Effect BatchRequest :=
    .value fun text r => do return { r with jobs := ← text.mapM integerArgument }
  [("-o", output), ("--output-dir", output),
    ("--source-map", .switch fun r => { r with withReports := true }),
    ("-j", jobs), ("--jobs", jobs)] ++
    generalFlags fun set r => { r with general := set r.general }

/-- The operands of the command: its sources. -/
def places : List (Place BatchRequest) :=
  [⟨.several, fun texts r => .ok { r with sources := texts.map Path.ofString }⟩]

end BatchRequest

namespace LocateRequest

/-- The column meant if none is given. -/
def standardColumn : Int :=
  8

/-- Nothing given. -/
def blank : LocateRequest :=
  ⟨General.blank, Path.here, none, standardColumn⟩

/-- The options of the command. -/
def flags : Flags LocateRequest :=
  generalFlags fun set r => { r with general := set r.general }

/-- The operands of the command: the source, the line, and perhaps the column. -/
def places : List (Place LocateRequest) :=
  [⟨.one, fun texts r => .ok { r with source := Path.ofString ("".intercalate texts) }⟩,
    ⟨.one, fun texts r => do return { r with line := ← texts.head?.mapM integerArgument }⟩,
    ⟨.atMostOne, fun texts r =>
      match texts with
      | [] => .ok r
      | _ => do return { r with column := ← integerArgument ("".intercalate texts) }⟩]

end LocateRequest

/-- The options in front of any command. -/
def topFlags : Flags Unit :=
  [("-h", .stop .help), ("--help", .stop .help), ("--version", .stop .version)]

/-- A request that asks for more and for less output at once makes no sense. -/
def checked (r : Request) : Except Stop Request :=
  if r.general.verbose && r.general.quiet then .error .misuse else .ok r

/-- The request of a command line.  A command line that names no command asks to preprocess. -/
def Request.ofArguments (args : List String) : Except Stop Request := do
  let _ ← words topFlags args
  let batch (args : List String) : Except Stop Request := do
    checked (.batch (← read BatchRequest.flags BatchRequest.places BatchRequest.blank args))
  match args with
  | [] => .error .help
  | "-h" :: _ | "--help" :: _ => .error .help
  | "--version" :: _ => .error .version
  | "preprocess" :: rest => batch rest
  | "locate" :: rest => do
    checked (.locate (← read LocateRequest.flags LocateRequest.places LocateRequest.blank rest))
  | _ => batch args

end CobolText.CommandLine
