import CobolText.Yaml.Tag

/-!
# Nodes

A document as a tree: scalars, lists and fields, each with the kind of value it stands for.
-/

namespace CobolText.Yaml

/-- A part of a document. -/
inductive Node where
  | scalar (tag : Tag) (text : String)
  | list (tag : Tag) (items : List Node)
  | fields (tag : Tag) (entries : List (Node × Node))

namespace Node

/-- What kind of value a node stands for. -/
def tag : Node → Tag
  | .scalar tag _ => tag
  | .list tag _ => tag
  | .fields tag _ => tag

/-- The node that stands where none is written. -/
def empty : Node :=
  .scalar .null ""

/-- The entries of fields. -/
def entries? : Node → Option (List (Node × Node))
  | .fields _ entries => some entries
  | _ => none

/-- The entries that a node adds to fields it is merged into.  Of several nodes the first counts
most, so that it comes last. -/
def mergedEntries? : Node → Option (List (Node × Node))
  | .fields _ entries => some entries
  | .list _ items => (items.mapM entries?).map fun found => found.reverse.flatten
  | .scalar _ _ => none

/-- Entries with those that are merged into them in front.  What cannot be merged comes first. -/
def merge (entries : List (Node × Node)) : List (Node × Node) :=
  let (mergers, own) := entries.partition fun e => e.1.tag == .merge
  let found := mergers.filterMap fun e => mergedEntries? e.2
  let failed := mergers.filter fun e => (mergedEntries? e.2).isNone
  failed ++ found.flatten ++ own

mutual

/-- A node with all merging done.  What cannot be merged is left as it is. -/
def merged : Node → Node
  | .scalar tag text => .scalar tag text
  | .list tag items => .list tag (mergedItems items)
  | .fields tag entries => .fields tag (merge (mergedFields entries))

/-- Items with all merging done. -/
def mergedItems : List Node → List Node
  | [] => []
  | item :: items => item.merged :: mergedItems items

/-- Entries with all merging done inside them. -/
def mergedFields : List (Node × Node) → List (Node × Node)
  | [] => []
  | (key, value) :: entries => (key.merged, value.merged) :: mergedFields entries

end

end Node

end CobolText.Yaml
