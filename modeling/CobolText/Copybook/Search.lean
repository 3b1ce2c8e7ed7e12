import CobolText.Fault
import CobolText.Text.Case

/-!
# Copybook search

The file of a copybook is the first that exists among the candidates: every search directory is
tried, before it its subdirectory for the library, with the name as written, in capitals and in
small letters, and with every extension.
-/

namespace CobolText

/-- What is put after a copybook name to get the name of its file. -/
inductive Extension where
  /-- A text, unless the name ends with it already. -/
  | ending (text : String)
  /-- A value that is not set, as it is written.  An absolute name goes without it. -/
  | unset (written : String)
  /-- A value that cannot stand after a name. -/
  | unusable
deriving DecidableEq, Repr

/-- The extension that a value stands for. -/
def Extension.ofValue : Value → Extension
  | .text s => .ending s
  | value => if value.isSet then .unusable else .unset value.render

/-- Where and how copybooks are looked for. -/
structure SearchPlan where
  paths : List Path
  extensions : List Extension
  /-- Whether names are only tried as they are written. -/
  caseSensitive : Bool
deriving DecidableEq, Repr

namespace SearchPlan

/-- The extensions that are tried unless others are given. -/
def standardExtensions : List String :=
  ["", ".cpy", ".cbl", ".cob", ".copy", ".txt"]

/-- The extensions that a setting lists. -/
def extensionsOf (setting : Value) : Except Fault (List Extension) :=
  if setting == .null then .ok (standardExtensions.map Extension.ending)
  else
    match setting.items? with
    | some items => .ok (items.map Extension.ofValue)
    | none => .error (.badSetting .notItems)

/-- A plan; without any directory the current one is searched. -/
def make (paths : List Path) (extensions : Value) (caseSensitive : Bool) :
    Except Fault SearchPlan := do
  return {
    paths := if paths.isEmpty then [Path.here] else paths
    extensions := ← extensionsOf extensions
    caseSensitive }

/-- The spellings of a name that are tried. -/
def variants (p : SearchPlan) (name : String) : List String :=
  if p.caseSensitive then [name]
  else [name, Text.upperString name, Text.lowerString name].eraseDups

/-- The directories searched for one search path. -/
def directoriesAt (p : SearchPlan) (library : Option String) (base : Path) : List Path :=
  match library with
  | some lib => if lib == "" then [base] else (p.variants lib).map base.child ++ [base]
  | none => [base]

/-- Whether a name already ends with an extension, without regard to case. -/
def hasExtension (name extension : String) : Bool :=
  extension != "" && (Text.lowerString extension).toList.isSuffixOf (Text.lowerString name).toList

/-- A name with an extension, unless the name has it already. -/
def extend? (name : String) : Extension → Option String
  | .ending text => if hasExtension name text then none else some (name ++ text)
  | .unset written => some (name ++ written)
  | .unusable => none

/-- The candidates in one directory. -/
def candidatesIn (p : SearchPlan) (name : String) (directory : Path) : List Path :=
  (p.variants name).flatMap fun variant =>
    (p.extensions.filterMap (extend? variant)).map directory.child

/-- The candidates for a relative copybook name, in the order in which they are tried. -/
def relativeCandidates (p : SearchPlan) (name : String) (library : Option String) : List Path :=
  ((p.paths.flatMap (p.directoriesAt library)).flatMap (p.candidatesIn name)).eraseDups

/-- The candidates for a relative copybook name, if all extensions can be used. -/
def candidates (p : SearchPlan) (name : String) (library : Option String) :
    Except Fault (List Path) :=
  if p.extensions.contains .unusable then .error (.badSetting .notText)
  else .ok (p.relativeCandidates name library)

/-- An absolute path with an extension.  There is none if the path has no last component to
extend. -/
def extendPath (path : Path) : Extension → Except Fault (List Path)
  | .ending text =>
    if text == "" then .ok []
    else
      match path.withName? (path.name ++ text) with
      | some q => .ok [q]
      | none => .error (.noFileName path)
  | .unset _ => .ok []
  | .unusable => .error (.badSetting .notUsable)

/-- All candidates for a copybook name.  An absolute name is tried as written and with every
extension. -/
def candidatesFor (p : SearchPlan) (name : String) (library : Option String) :
    Except Fault (List Path) :=
  let path := Path.ofString name
  if path.isAbsolute then do
    return path :: (← p.extensions.mapM (extendPath path)).flatten
  else p.candidates name library

/-- The plan with one more search path at the end, unless it has that path. -/
def addPath (p : SearchPlan) (path : Path) : SearchPlan :=
  if p.paths.contains path then p else { p with paths := p.paths ++ [path] }

/-- The first of the paths that leads to a file. -/
def firstFile? {m : Type → Type} [Monad m] (files : FileAccess m) : List Path → m (Option Path)
  | [] => return none
  | p :: ps => do
    if ← files.isFile p then return some p else firstFile? files ps

/-- The file of a copybook. -/
def find {m : Type → Type} [Monad m] (files : FileAccess m) (p : SearchPlan) (name : String)
    (library : Option String) (position : Option Position) : m (Except Fault Path) := do
  match p.candidatesFor name library with
  | .error e => return .error e
  | .ok paths =>
    match ← firstFile? files paths with
    | some path => return .ok path
    | none => return .error (.bookNotFound name library paths position)

end SearchPlan

end CobolText
