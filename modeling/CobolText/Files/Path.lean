import CobolText.Text.Lines

/-!
# Paths

Paths in normal form: empty components and single dots are dropped, double dots are kept, since
what they lead to depends on the directories that exist.
-/

namespace CobolText

/-- A path: how many slashes it starts with (none if it is relative) and its components. -/
structure Path where
  slashes : Nat
  parts : List String
deriving DecidableEq, Repr

namespace Path

/-- The current directory. -/
def here : Path :=
  ⟨0, []⟩

/-- Reads a path.  Two slashes at the start are kept apart from one; more count as one. -/
def ofString (s : String) : Path :=
  let leading := (s.toList.takeWhile (· == '/')).length
  let parts := (Text.splitOn '/' s.toList).map String.ofList
  ⟨if leading == 0 || leading == 2 then leading else 1, parts.filter fun p => p != "" && p != "."⟩

/-- Writes a path. -/
def render (p : Path) : String :=
  if p.slashes == 0 && p.parts.isEmpty then "."
  else String.ofList (List.replicate p.slashes '/') ++ "/".intercalate p.parts

/-- Whether a path starts at the root. -/
def isAbsolute (p : Path) : Bool :=
  p.slashes != 0

/-- One path below another; an absolute path stands alone. -/
def join (base p : Path) : Path :=
  if p.isAbsolute then p else ⟨base.slashes, base.parts ++ p.parts⟩

/-- A name below a directory; the name may have several components. -/
def child (base : Path) (name : String) : Path :=
  base.join (ofString name)

/-- The last component, empty for the root and the current directory. -/
def name (p : Path) : String :=
  p.parts.getLast?.getD ""

/-- The path without its last component. -/
def parent (p : Path) : Path :=
  ⟨p.slashes, p.parts.dropLast⟩

/-- The last component up to its last dot, unless the dot is its first or last character. -/
def stem (p : Path) : String :=
  let cs := p.name.toList
  let suffix := (cs.reverse.takeWhile (· != '.')).length
  if suffix == 0 || cs.length ≤ suffix + 1 then p.name
  else String.ofList (cs.take (cs.length - suffix - 1))

/-- The path with another last component.  There is none if the path has no last component, or
if the new one is not a single component. -/
def withName? (p : Path) (name : String) : Option Path :=
  let q := ofString name
  if p.parts.isEmpty || q.isAbsolute || q.parts.length != 1 || name.toList.getLast? == some '/' then
    none
  else some ⟨p.slashes, p.parts.dropLast ++ q.parts⟩

/-- One step of a walk that only looks at the names: double dots take the last step back. -/
def follow (place : List String) (part : String) : List String :=
  if part == ".." then place.dropLast else place ++ [part]

/-- The absolute path meant when `base` is the current directory, without double dots.  It is read
off the names alone: symbolic links are not followed, so two paths that lead to one file through a
link are different here. -/
def resolve (base p : Path) : Path :=
  ⟨1, (base.join p).parts.foldl follow []⟩

/-- The components by which paths are ordered; the root is one of them. -/
def sortKey (p : Path) : List String :=
  if p.isAbsolute then String.ofList (List.replicate p.slashes '/') :: p.parts else p.parts

end Path

end CobolText
