import CobolText.Copybook.Cache
import CobolText.Options
import CobolText.Yaml.Document

/-!
# Configuration

What a configuration file sets, and the options that follow from it.  Choices made on the command
line win over the file, and the file wins over the standard settings.
-/

namespace CobolText

/-- Named settings, some of them grouped in sections. -/
structure Config where
  entries : List (Key × Value)

/-- What may be chosen for one run, besides the configuration.  A value that is not set chooses
nothing. -/
structure Choices where
  format : Value
  dialect : Value
  encoding : Value
  debugging : Value
  /-- Places looked at for copybooks before the configured ones; none of them may be left out. -/
  copybookPaths : List (Option Path)
deriving DecidableEq, Repr

/-- No choices. -/
def Choices.blank : Choices :=
  ⟨.null, .null, .null, .flag false, []⟩

namespace Config

/-- The settings if there is no file. -/
def standard : Config :=
  ⟨[("copybook_paths", .list [.text "."]),
    ("copybook_extensions", .list (SearchPlan.standardExtensions.map Value.text)),
    ("preprocessor", .fields [("format", .text "fixed"), ("dialect", .text "ANSI85"),
      ("dialect_overrides", .fields []), ("encoding", .text "utf-8"),
      ("debugging_mode", .flag false), ("max_copy_depth", .number Options.standardDepth)]),
    ("output", .fields [("pretty_print", .flag true), ("indent_size", .number 2)]),
    ("logging", .fields [("level", .text "INFO")])]⟩

/-- The configuration with one entry of a file.  Fields add to a section that is there already;
anything else takes the place of what was there. -/
def set (c : Config) (entry : Key × Value) : Except Fault Config :=
  match entry.2, Value.field? c.entries entry.1 with
  | .fields new, some (.fields old) =>
    .ok ⟨Value.put c.entries entry.1 (.fields (Value.update old new))⟩
  | .fields _, some _ => .error (.badSetting .notFields)
  | value, _ => .ok ⟨Value.put c.entries entry.1 value⟩

/-- The standard configuration changed by a document; an empty document changes nothing. -/
def ofValue (document : Value) : Except Fault Config :=
  if document.isSet then
    match document with
    | .fields entries => entries.foldlM set standard
    | _ => .error (.badSetting .notFields)
  else .ok standard

/-- The configuration that a text describes. -/
def ofText (text : List Char) : Except Fault Config :=
  match Yaml.parse (Text.unifyBreaks text) with
  | .ok document => ofValue document
  | .error defect => .error (.badSetting (.notDocument defect))

/-- The configuration of a file; without a file it is the standard one. -/
def load {m : Type → Type} [Monad m] (files : FileAccess m) (path : Option Path) :
    m (Except Fault Config) := do
  match path with
  | none => return .ok standard
  | some path =>
    match ← readText files path .null with
    | .ok text => return ofText text
    | .error (.undecodable _ _ _) => return .error (.badSetting .undecodable)
    | .error (.unreadable _ .isDirectory) => return .error (.badSetting .directory)
    | .error _ => return .ok standard

/-- The entries of a section. -/
def group (c : Config) (name : String) : Except Fault (List (Key × Value)) :=
  match Value.field? c.entries name with
  | some (.fields entries) => .ok entries
  | some _ => .error (.badSetting .notFields)
  | none => .ok []

/-- A setting of a section, or a standard value if it is not set. -/
def setting (c : Config) (name key : String) (standard : Value) : Except Fault Value := do
  return (Value.field? (← c.group name) key).getD standard

/-- The setting of a preprocessing option, unless a choice is made for it. -/
def chosen (c : Config) (choice : Value) (key : String) (standard : Value) : Except Fault Value :=
  if choice.isSet then .ok choice else c.setting "preprocessor" key standard

/-- The text that a value must be. -/
def textOf : Value → Except Fault String
  | .text s => .ok s
  | _ => .error (.badSetting .notText)

/-- The whole number that a value stands for. -/
def integerOf : Value → Except Fault Int
  | .number n => .ok n
  | .flag b => .ok (if b then 1 else 0)
  | .text s =>
    match Text.integer? s.toList with
    | some n => .ok n
    | none => .error (.badSetting .notNumeral)
  | _ => .error (.badSetting .notNumeric)

/-- The texts that a value is made of. -/
def textsOf (value : Value) : Except Fault (List String) :=
  match value.items? with
  | none => .error (.badSetting .notItems)
  | some items => items.mapM fun
    | .text s => .ok s
    | _ => .error (.badSetting .notUsable)

/-- The dialect that a value names; a value that is not set names the standard. -/
def dialectOf (value : Value) : Except Fault Dialect := do
  if value.isSet then Dialect.ofName (← textOf value) else return .ansi85

/-- A dialect with the options that a value sets, if it sets any. -/
def withOverrides (d : Dialect) (value : Value) : Except Fault Dialect :=
  if value.isSet then
    match value with
    | .fields entries => d.withOptions entries
    | _ => .error (.badSetting .notUsable)
  else .ok d

/-- A chosen place, which must not be left out. -/
def placeOf : Option Path → Except Fault Path
  | some path => .ok path
  | none => .error (.badSetting .notUsable)

/-- The options that follow from a configuration and the choices for a run. -/
def options (c : Config) (choices : Choices) : Except Fault Options := do
  let formatName ← c.chosen choices.format "format" (.text "fixed")
  let dialect ← dialectOf (← c.chosen choices.dialect "dialect" .null)
  let dialect ← withOverrides dialect (← c.setting "preprocessor" "dialect_overrides" .null)
  let paths ← textsOf ((Value.field? c.entries "copybook_paths").getD (.list [.text "."]))
  let format ← SourceFormat.ofName (← textOf formatName)
  let encoding ← c.chosen choices.encoding "encoding" (.text "utf-8")
  let debugging ← c.setting "preprocessor" "debugging_mode" (.flag false)
  let depth ← integerOf (← c.setting "preprocessor" "max_copy_depth"
    (.number Options.standardDepth))
  let chosenPaths ← choices.copybookPaths.mapM placeOf
  let o : Options := {
    format, dialect, encoding
    copybookPaths := chosenPaths ++ paths.map Path.ofString
    extensions := (Value.field? c.entries "copybook_extensions").getD .null
    debugging := if choices.debugging.isSet then choices.debugging else .flag debugging.isSet
    maxCopyDepth := .number Options.standardDepth }
  o.withDepth (.number depth)

end Config

end CobolText
