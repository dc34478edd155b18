import MapChain.Chain.Error
import MapChain.Mapping.Table

/-!
# Chains

A chain holds the files that one generated file leads to, each once. A file with a map
has one child for every source of the map; a file without one ends a branch. The
root is the first node, and nodes are numbered in the order in which a walk from the
root meets their paths.

Before that the files form a tree, in which one path can occur more than once. `intern`
numbers a tree. The first occurrence of a path decides what its node holds, and later
ones are not looked into.
-/

namespace MapChain

/-- What a source of a map stands for. -/
inductive Child where
  | resolved (id : Nat)
  /-- There is no text for the path. -/
  | unresolved (path : Path)
  /-- The source has no name. -/
  | blank
  deriving DecidableEq

/-- One file of a chain. -/
structure Node where
  path : Path
  content : String
  table : Option Table
  children : List Child
  deriving DecidableEq

/-- A root file with all files that its map leads to. -/
structure Chain where
  nodes : List Node
  /-- The directory that relative paths are seen from. -/
  cwd : Path
  deriving DecidableEq

/-- What a source of a map leads to, before files are numbered. -/
inductive Resolution where
  | file (path : Path) (content : String) (table : Option Table) (children : List Resolution)
  /-- A file further up on the same branch. -/
  | ancestor (path : Path)
  | unresolved (path : Path)
  | blank

namespace Resolution

/-- The number of a path among some nodes. -/
def idOf? (nodes : List Node) (path : Path) : Option Nat :=
  nodes.findIdx? fun node => node.path = path

/-- Gives the node with a number its children. -/
def adopt (nodes : List Node) (id : Nat) (children : List Child) : List Node :=
  nodes.modify id fun node => { node with children }

mutual

/-- Numbers the files of a tree behind the nodes that are there already. -/
def intern (nodes : List Node) : Resolution → List Node × Child
  | .file path content table children =>
    match idOf? nodes path with
    | some id => (nodes, .resolved id)
    | none =>
      let id := nodes.length
      let (nodes, children) := internAll (nodes ++ [⟨path, content, table, []⟩]) children
      (adopt nodes id children, .resolved id)
  | .ancestor path =>
    match idOf? nodes path with
    | some id => (nodes, .resolved id)
    | none => (nodes, .unresolved path)
  | .unresolved path => (nodes, .unresolved path)
  | .blank => (nodes, .blank)

/-- Numbers the files of several trees one after the other. -/
def internAll (nodes : List Node) : List Resolution → List Node × List Child
  | [] => (nodes, [])
  | first :: rest =>
    let (nodes, child) := intern nodes first
    let (nodes, children) := internAll nodes rest
    (nodes, child :: children)

end

end Resolution

namespace Chain

/-- The number of the root. -/
def rootId : Nat := 0

/-- The chain of a tree of files. -/
def ofTree (cwd : Path) (tree : Resolution) : Chain := ⟨(tree.intern []).1, cwd⟩

/-- The node with a number. -/
def node? (chain : Chain) (id : Nat) : Option Node := chain.nodes[id]?

/-- The root of a chain. -/
def root? (chain : Chain) : Option Node := chain.node? rootId

/-- The node of a path. -/
def find? (chain : Chain) (path : Path) : Option Node :=
  chain.nodes.find? fun node => node.path = path

/-- Whether the root has a map. Without one there is nothing to trace. -/
def hasMap (chain : Chain) : Bool := chain.root?.any fun root => root.table.isSome

end Chain

end MapChain
