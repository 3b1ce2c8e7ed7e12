import CobolText.Files.Access

/-!
# File trees

A tree of files held as a value.  Paths are walked component by component: a walk fails at a
component that does not exist, and double dots lead back from a directory that exists.
-/

namespace CobolText

/-- A file with its contents, or a directory. -/
inductive FileNode where
  | file (bytes : List UInt8)
  | directory
deriving DecidableEq, Repr

/-- Files and directories by the components of their absolute paths.  The root and the working
directory are always there. -/
structure FileTree where
  workDir : List String
  nodes : List (List String × FileNode)
deriving Repr

namespace FileTree

/-- What stands at a place. -/
def node? (t : FileTree) (place : List String) : Option FileNode :=
  if place.isPrefixOf t.workDir then some .directory else t.nodes.lookup place

/-- Walks from a place along further components to one that exists. -/
def walk (t : FileTree) (place : List String) : List String → Except ReadFailure (List String)
  | [] => .ok place
  | part :: parts =>
    match t.node? place with
    | some .directory =>
      let next := Path.follow place part
      if (t.node? next).isSome then t.walk next parts else .error .missing
    | some (.file _) => .error .notDirectory
    | none => .error .missing

/-- The place a path leads to. -/
def locate (t : FileTree) (p : Path) : Except ReadFailure (List String) :=
  t.walk (if p.isAbsolute then [] else t.workDir) p.parts

/-- What a path leads to. -/
def nodeAt? (t : FileTree) (p : Path) : Option FileNode :=
  match t.locate p with
  | .ok place => t.node? place
  | .error _ => none

/-- Whether a path leads to a file. -/
def isFile (t : FileTree) (p : Path) : Bool :=
  match t.nodeAt? p with
  | some (.file _) => true
  | _ => false

/-- Whether a path leads to a directory. -/
def isDirectory (t : FileTree) (p : Path) : Bool :=
  t.nodeAt? p == some .directory

/-- The contents of a file. -/
def read (t : FileTree) (p : Path) : Except ReadFailure (List UInt8) :=
  match t.locate p with
  | .error e => .error e
  | .ok place =>
    match t.node? place with
    | some (.file bytes) => .ok bytes
    | some .directory => .error .isDirectory
    | none => .error .missing

/-- Puts something in a place, instead of what was there. -/
def put (t : FileTree) (place : List String) (node : FileNode) : FileTree :=
  { t with nodes := t.nodes.filter (fun n => n.1 != place) ++ [(place, node)] }

/-- Makes every directory on the way from `place` along further components. -/
def makeWay (t : FileTree) (place : List String) : List String → FileTree
  | [] => t
  | part :: parts =>
    let next := place ++ [part]
    (if (t.node? next).isSome then t else t.put next .directory).makeWay next parts

/-- Stores a file below the working directory, with the directories above it. -/
def addFile (t : FileTree) (p : Path) (bytes : List UInt8) : FileTree :=
  (t.makeWay t.workDir p.parts.dropLast).put (t.workDir ++ p.parts) (.file bytes)

/-- Makes a directory below the working directory, with the directories above it. -/
def addDirectory (t : FileTree) (p : Path) : FileTree :=
  t.makeWay t.workDir p.parts

/-- Removes a file; nothing is done if there is none. -/
def remove? (t : FileTree) (p : Path) : Option FileTree :=
  match t.locate p with
  | .ok place => some { t with nodes := t.nodes.filter fun n => n.1 != place }
  | .error _ => none

/-- Makes one directory in a directory that exists. -/
def makeDirectory (t : FileTree) (p : Path) : Except MakeFailure FileTree :=
  match t.locate p with
  | .ok _ => .error .alreadyThere
  | .error .notDirectory => .error .notDirectory
  | .error _ =>
    match t.locate p.parent with
    | .ok place =>
      match t.node? place with
      | some .directory => .ok (t.put (Path.follow place p.name) .directory)
      | _ => .error .notDirectory
    | .error .notDirectory => .error .notDirectory
    | .error _ => .error .missing

/-- Writes a file, a new one into a directory that exists. -/
def write (t : FileTree) (p : Path) (bytes : List UInt8) : Except ReadFailure FileTree :=
  match t.locate p with
  | .ok place =>
    if t.node? place == some .directory then .error .isDirectory
    else .ok (t.put place (.file bytes))
  | .error .notDirectory => .error .notDirectory
  | .error _ =>
    match t.locate p.parent with
    | .error e => .error e
    | .ok place =>
      if t.node? place == some .directory then .ok (t.put (Path.follow place p.name) (.file bytes))
      else .error .notDirectory

/-- The files of `t` that `before` does not have with the same contents, as paths below the
working directory. -/
def changesSince (t before : FileTree) : List (Path × List UInt8) :=
  t.nodes.filterMap fun (place, node) =>
    match node with
    | .directory => none
    | .file bytes =>
      if before.node? place == some (.file bytes) then none
      else if t.workDir.isPrefixOf place then some (⟨0, place.drop t.workDir.length⟩, bytes)
      else some (⟨1, place⟩, bytes)

/-- The tree as something to read from. -/
def access (t : FileTree) : FileAccess Id where
  workDir := ⟨1, t.workDir⟩
  isFile p := t.isFile p
  read p := t.read p

/-- The tree as a state that is read and written. -/
def store (workDir : List String) : FileStore (StateM FileTree) where
  workDir := ⟨1, workDir⟩
  isFile p := do return (← get).isFile p
  read p := do return (← get).read p
  isDirectory p := do return (← get).isDirectory p
  makeDirectory p := do
    match (← get).makeDirectory p with
    | .ok t => set t; return .ok ()
    | .error e => return .error e
  write p bytes := do
    match (← get).write p bytes with
    | .ok t => set t; return .ok ()
    | .error e => return .error e

end FileTree

end CobolText
