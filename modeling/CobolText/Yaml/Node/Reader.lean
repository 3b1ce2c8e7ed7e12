import CobolText.Yaml.Node.Basic
import CobolText.Yaml.Schema
import CobolText.Yaml.Token.Basic

/-!
# Reading nodes

The tree of a document from its tokens.  Anchors name nodes for aliases after them.
-/

namespace CobolText.Yaml

/-- How far the tokens of a document are read. -/
structure Reading where
  tokens : List Token
  /-- The named nodes; one that is not complete yet has no node. -/
  anchors : List (String × Option Node)
  /-- What handles stand for. -/
  handles : List (String × String)

/-- A part of a document that is read from its tokens. -/
abbrev Reader : Type → Type :=
  StateT Reading (Except Defect)

namespace Reader

/-- What handles stand for unless a document says otherwise. -/
def standardHandles : List (String × String) :=
  [("!", "!"), ("!!", standardTags)]

/-- The next token. -/
def peek : Reader Token := do
  match (← get).tokens with
  | .malformed defect :: _ => throw defect
  | t :: _ => return t
  | [] => throw .structural

/-- Passes over the next token. -/
def skip : Reader Unit :=
  modify fun r => { r with tokens := r.tokens.drop 1 }

/-- The node that an alias means. -/
def named (name : String) : Reader Node := do
  match (← get).anchors.lookup name with
  | some (some node) => return node
  | some none => return .scalar .enclosing ""
  | none => throw .reference

/-- Reserves the name of a node. -/
def reserve (anchor : Option String) : Reader Unit := do
  match anchor with
  | none => return
  | some name =>
    if ((← get).anchors.lookup name).isSome then throw .reference
    modify fun r => { r with anchors := (name, none) :: r.anchors }

/-- Gives a complete node its name. -/
def complete (anchor : Option String) (node : Node) : Reader Node := do
  match anchor with
  | none => return node
  | some name =>
    modify fun r => { r with anchors := (name, some node) :: r.anchors }
    return node

/-- The anchor and the tag in front of a node, in either order. -/
def properties : Reader (Option String × Option WrittenTag) := do
  match ← peek with
  | .anchor name =>
    skip
    match ← peek with
    | .tag tag =>
      skip
      return (some name, some tag)
    | _ => return (some name, none)
  | .tag tag =>
    skip
    match ← peek with
    | .anchor name =>
      skip
      return (some name, some tag)
    | _ => return (none, some tag)
  | _ => return (none, none)

/-- The full name of a tag.  One that says nothing counts as left out. -/
def fullName? (tag : Option WrittenTag) : Reader (Option String) := do
  match tag with
  | none => return none
  | some ⟨none, suffix⟩ => return some suffix
  | some ⟨some mark, suffix⟩ =>
    match (← get).handles.lookup mark with
    | some meaning => return some (meaning ++ suffix)
    | none => throw .structural

/-- The tag of a scalar. -/
def scalarTag (name : Option String) (text : String) (plain : Bool) : Tag :=
  match name with
  | none => if plain then plainTag text else .text
  | some name => if name == "!" then plainTag text else Tag.ofName name

/-- The tag of a collection. -/
def collectionTag (name : Option String) (usual : Tag) : Tag :=
  match name with
  | none => usual
  | some name => if name == "!" then usual else Tag.ofName name

/-- A node that is not written; it must have an anchor or a tag. -/
def absent (anchor name : Option String) : Reader Node := do
  if anchor.isNone && name.isNone then throw .structural
  reserve anchor
  complete anchor (.scalar (scalarTag name "" true) "")

/-- Reads the comma between two items or entries. -/
def separator : Reader Unit := do
  if (← peek) == .flowEntry then skip else throw .structural

mutual

/-- Reads a node.  In block style it may also be a list or fields in block style, the list
perhaps without an indentation of its own. -/
def node (block indentless : Bool) : Nat → Reader Node
  | 0 => throw .structural
  | fuel + 1 => do
    match ← peek with
    | .alias name =>
      skip
      named name
    | _ =>
      let (anchor, written) ← properties
      let name ← fullName? written
      match ← peek with
      | .scalar text plain =>
        skip
        reserve anchor
        complete anchor (.scalar (scalarTag name text plain) text)
      | .flowListStart =>
        skip
        reserve anchor
        complete anchor (.list (collectionTag name .list) (← flowItems true fuel))
      | .flowFieldsStart =>
        skip
        reserve anchor
        complete anchor (.fields (collectionTag name .fields) (← flowEntries true fuel))
      | .blockEntry =>
        if indentless then
          reserve anchor
          complete anchor (.list (collectionTag name .list) (← indentlessItems fuel))
        else absent anchor name
      | .blockListStart =>
        if block then
          skip
          reserve anchor
          complete anchor (.list (collectionTag name .list) (← blockItems fuel))
        else absent anchor name
      | .blockFieldsStart =>
        if block then
          skip
          reserve anchor
          complete anchor (.fields (collectionTag name .fields) (← blockEntries fuel))
        else absent anchor name
      | _ => absent anchor name

/-- Reads the items of a list in block style. -/
def blockItems : Nat → Reader (List Node)
  | 0 => throw .structural
  | fuel + 1 => do
    match ← peek with
    | .blockEntry =>
      skip
      let item ← match ← peek with
        | .blockEntry | .blockEnd => pure Node.empty
        | _ => node true false fuel
      return item :: (← blockItems fuel)
    | .blockEnd =>
      skip
      return []
    | _ => throw .structural

/-- Reads the items of a list in block style that is not indented. -/
def indentlessItems : Nat → Reader (List Node)
  | 0 => throw .structural
  | fuel + 1 => do
    match ← peek with
    | .blockEntry =>
      skip
      let item ← match ← peek with
        | .blockEntry | .key | .value | .blockEnd => pure Node.empty
        | _ => node true false fuel
      return item :: (← indentlessItems fuel)
    | _ => return []

/-- Reads the entries of fields in block style. -/
def blockEntries : Nat → Reader (List (Node × Node))
  | 0 => throw .structural
  | fuel + 1 => do
    match ← peek with
    | .key =>
      skip
      let key ← blockPart fuel
      let value ← match ← peek with
        | .value => do
          skip
          blockPart fuel
        | _ => pure Node.empty
      return (key, value) :: (← blockEntries fuel)
    | .blockEnd =>
      skip
      return []
    | _ => throw .structural

/-- Reads a key or a value in block style, which may be left out. -/
def blockPart : Nat → Reader Node
  | 0 => throw .structural
  | fuel + 1 => do
    match ← peek with
    | .key | .value | .blockEnd => return Node.empty
    | _ => node true true fuel

/-- Reads the items of a list between brackets. -/
def flowItems (first : Bool) : Nat → Reader (List Node)
  | 0 => throw .structural
  | fuel + 1 => do
    if (← peek) == .flowListEnd then
      skip
      return []
    if !first then separator
    match ← peek with
    | .flowListEnd =>
      skip
      return []
    | .key =>
      let entry ← flowEntry .flowListEnd fuel
      return .fields .fields [entry] :: (← flowItems false fuel)
    | _ =>
      let item ← node false false fuel
      return item :: (← flowItems false fuel)

/-- Reads the entries of fields between brackets. -/
def flowEntries (first : Bool) : Nat → Reader (List (Node × Node))
  | 0 => throw .structural
  | fuel + 1 => do
    if (← peek) == .flowFieldsEnd then
      skip
      return []
    if !first then separator
    match ← peek with
    | .flowFieldsEnd =>
      skip
      return []
    | .key =>
      let entry ← flowEntry .flowFieldsEnd fuel
      return entry :: (← flowEntries false fuel)
    | _ =>
      let key ← node false false fuel
      return (key, Node.empty) :: (← flowEntries false fuel)

/-- Reads a key and its value between brackets, either of which may be left out. -/
def flowEntry (closing : Token) : Nat → Reader (Node × Node)
  | 0 => throw .structural
  | fuel + 1 => do
    skip
    let t ← peek
    let key ← if t == .value || t == .flowEntry || t == closing then pure Node.empty
      else node false false fuel
    if (← peek) == .value then
      skip
      let t ← peek
      let value ← if t == .flowEntry || t == closing then pure Node.empty
        else node false false fuel
      return (key, value)
    else return (key, Node.empty)

end

/-- Whether a token is a directive. -/
def isDirective : Token → Bool
  | .version _ | .handle _ _ | .directive => true
  | _ => false

/-- What the handles declared by directives stand for.  Only the first version of the format is
known, and nothing may be declared twice. -/
def declared (directives : List Token) : Except Defect (List (String × String)) := do
  let versions := directives.filterMap fun
    | .version major => some major
    | _ => none
  let handles := directives.filterMap fun
    | .handle mark name => some (mark, name)
    | _ => none
  let marks := handles.map (·.1)
  if versions.length ≤ 1 && versions.all (· == 1) && marks.eraseDups.length == marks.length then
    return handles ++ standardHandles
  else throw .structural

/-- Reads the directives of a document and the mark of its start. -/
def heading : Reader Unit := do
  let r ← get
  let handles ← declared (r.tokens.takeWhile isDirective)
  set { r with tokens := r.tokens.dropWhile isDirective, handles }
  if (← peek) == .documentStart then skip else throw .structural

/-- How many steps it takes at most to read what is left. -/
def steps : Reader Nat := do
  return 4 * (← get).tokens.length + 8

/-- Reads the content of a document after the mark of its start. -/
def content : Reader Node := do
  match ← peek with
  | .version _ | .handle _ _ | .directive | .documentStart | .documentEnd | .streamEnd =>
    return Node.empty
  | _ => node true false (← steps)

/-- Makes sure that no other document follows. -/
def ending : Reader Unit := do
  modify fun r => { r with tokens := r.tokens.dropWhile (· == .documentEnd) }
  if (← peek) != .streamEnd then
    heading
    throw .reference

/-- Reads the only document, unless there is none. -/
def document : Reader (Option Node) := do
  let first ← peek
  if first == .streamEnd then return none
  let root ←
    if isDirective first || first == .documentStart then do
      heading
      content
    else node true false (← steps)
  ending
  return some root

end Reader

/-- The tree of the document that some tokens are, unless they are empty. -/
def Node.ofTokens? (tokens : List Token) : Except Defect (Option Node) :=
  (Reader.document.run ⟨tokens, [], Reader.standardHandles⟩).map (·.1)

end CobolText.Yaml
