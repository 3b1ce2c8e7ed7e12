import CobolText.Files.Access

/-!
# Directories

Making a directory together with the directories above it.
-/

namespace CobolText

/-- The usual number and wording of a failure to make a directory. -/
def MakeFailure.message : MakeFailure → String
  | .missing => "[Errno 2] No such file or directory"
  | .notDirectory => "[Errno 20] Not a directory"
  | .alreadyThere => "[Errno 17] File exists"

namespace FileStore

variable {m : Type → Type} [Monad m]

/-- Makes one directory; one that is there already will do. -/
def ensureDirectory (files : FileStore m) (p : Path) : m (Except MakeFailure Unit) := do
  match ← files.makeDirectory p with
  | .ok _ => return .ok ()
  | .error failure => if ← files.isDirectory p then return .ok () else return .error failure

/-- Makes a directory, and before it those above it that are missing, at most `levels` of them.
A failure comes with the path that could not be made. -/
def makeLevels (files : FileStore m) : Nat → Path → m (Except (MakeFailure × Path) Unit)
  | 0, p => do
    match ← files.ensureDirectory p with
    | .ok _ => return .ok ()
    | .error failure => return .error (failure, p)
  | levels + 1, p => do
    match ← files.ensureDirectory p with
    | .ok _ => return .ok ()
    | .error .missing =>
      match ← files.makeLevels levels p.parent with
      | .error failure => return .error failure
      | .ok _ =>
        match ← files.ensureDirectory p with
        | .ok _ => return .ok ()
        | .error failure => return .error (failure, p)
    | .error failure => return .error (failure, p)

/-- Makes a directory and all directories above it that are missing. -/
def makeDirectories (files : FileStore m) (p : Path) : m (Except (MakeFailure × Path) Unit) :=
  files.makeLevels p.parts.length p

end FileStore

end CobolText
