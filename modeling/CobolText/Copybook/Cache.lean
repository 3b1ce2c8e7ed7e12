import CobolText.Fault
import CobolText.Files.Encoding
import CobolText.Text.Lines

/-!
# Reading sources and copybooks

Files are read as text with unified line breaks.  Copybooks are kept once they are read, so that
each is read at most once for every path and encoding.
-/

namespace CobolText

/-- The name of the encoding that a setting chooses; a setting that is no name and not left out
chooses none. -/
def encodingName? : Value → Option String
  | .null => some "utf-8"
  | .text name => some name
  | _ => none

/-- The text of a file. -/
def readText {m : Type → Type} [Monad m] (files : FileAccess m) (path : Path) (encoding : Value) :
    m (Except Fault (List Char)) := do
  match encodingName? encoding with
  | none => return .error (.badSetting .notUsable)
  | some name =>
    match ← files.read path with
    | .error failure => return .error (.unreadable path failure)
    | .ok bytes =>
      match Encoding.ofName? name with
      | none => return .error (.unknownEncoding name)
      | some e =>
        match e.decode bytes with
        | .error offset => return .error (.undecodable path encoding.render offset)
        | .ok text => return .ok (Text.unifyBreaks text)

/-- A copybook that was read: its absolute path, the encoding and the text. -/
structure LoadedBook where
  path : Path
  encoding : Value
  text : List Char
deriving DecidableEq, Repr

/-- The copybooks read so far, in the order in which they were first read. -/
structure BookCache where
  books : List LoadedBook
deriving DecidableEq, Repr

namespace BookCache

/-- The cache before anything is read. -/
def empty : BookCache :=
  ⟨[]⟩

/-- The text of a copybook that was read before. -/
def get? (c : BookCache) (path : Path) (encoding : Value) : Option (List Char) :=
  (c.books.find? fun b => b.path == path && b.encoding == encoding).map (·.text)

/-- The cache with one more copybook. -/
def insert (c : BookCache) (book : LoadedBook) : BookCache :=
  ⟨c.books ++ [book]⟩

/-- The text of a copybook and the cache after it.  A failure leaves the cache as it was. -/
def load {m : Type → Type} [Monad m] (files : FileAccess m) (c : BookCache) (path : Path)
    (encoding : Value) : m (Except Fault (List Char) × BookCache) := do
  let path := Path.resolve files.workDir path
  match c.get? path encoding with
  | some text => return (.ok text, c)
  | none =>
    match ← readText files path encoding with
    | .ok text => return (.ok text, c.insert ⟨path, encoding, text⟩)
    | .error e => return (.error e, c)

end BookCache

end CobolText
