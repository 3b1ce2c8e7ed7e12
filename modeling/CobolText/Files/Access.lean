import CobolText.Files.Path

/-!
# Access to files

What a run needs from the files around it.  The operations are a parameter, so that the same
definitions work on a tree of files held as a value and on the files of the machine.
-/

namespace CobolText

/-- Why a file cannot be read. -/
inductive ReadFailure where
  | missing
  | notDirectory
  | isDirectory
deriving DecidableEq, Repr

/-- The usual wording of a failure to read. -/
def ReadFailure.message : ReadFailure → String
  | .missing => "No such file or directory"
  | .notDirectory => "Not a directory"
  | .isDirectory => "Is a directory"

/-- Why a directory cannot be made. -/
inductive MakeFailure where
  | missing
  | notDirectory
  | alreadyThere
deriving DecidableEq, Repr

/-- Reading files. -/
structure FileAccess (m : Type → Type) where
  /-- The directory that relative paths start from. -/
  workDir : Path
  isFile : Path → m Bool
  read : Path → m (Except ReadFailure (List UInt8))

/-- Reading and writing files. -/
structure FileStore (m : Type → Type) extends FileAccess m where
  isDirectory : Path → m Bool
  makeDirectory : Path → m (Except MakeFailure Unit)
  write : Path → List UInt8 → m (Except ReadFailure Unit)

end CobolText
