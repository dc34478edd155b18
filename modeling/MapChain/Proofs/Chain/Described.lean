import MapChain.Proofs.Chain.Arena
import MapChain.Proofs.Chain.Resolution

/-!
# What the nodes of a chain say

Every node of a built chain says what the map of its file says: a node without a table is
of a file without a map, and the children of any other node stand, source by source, for
what the sources of its map lead to. No path has two nodes, and the first node is that of
the root.

Files can have a property that passes from a file to those that its map leads to. If the
root has it, all nodes have it.
-/

namespace MapChain

namespace Workspace

variable (workspace : Workspace)

/-- What a source entry of a map, seen from a directory, is as a child of a node. -/
inductive Becomes (known : List Path) (directory : Path) : String × Option String → Child → Prop
    where
  | blank (entry : String × Option String) (void : entry.1.toList.all Text.isBlank = true) :
      Becomes known directory entry .blank
  | resolved (entry : String × Option String) (id : Nat)
      (named : ¬entry.1.toList.all Text.isBlank = true)
      (found : known[id]? = some (directory.resolve (.ofText entry.1))) :
      Becomes known directory entry (.resolved id)
  | unresolved (entry : String × Option String)
      (named : ¬entry.1.toList.all Text.isBlank = true)
      (missing : workspace.sourceText? (directory.resolve (.ofText entry.1)) entry.2 = .ok none) :
      Becomes known directory entry (.unresolved (directory.resolve (.ofText entry.1)))

/-- A node that says what the map of its file says. -/
inductive Describes (known : List Path) (node : Node) : Prop where
  | leaf (unmapped : workspace.link? node.path node.content = .ok none)
      (bare : node.table = none) (childless : node.children = [])
  | mapped (link : Link) (found : workspace.link? node.path node.content = .ok (some link))
      (table : node.table = some link.table)
      (children : List.Forall₂ (workspace.Becomes known link.directory)
        (link.table.sources.zip link.table.contents) node.children)

/-- A property of files with their texts that passes to all files that the map of a file
leads to, if that map is in order. -/
def Passes (Fits : Path → String → Prop) (InOrder : Option Table → Prop) : Prop :=
  ∀ path content link entry text, Fits path content →
    workspace.link? path content = .ok (some link) → InOrder (some link.table) →
    entry ∈ link.table.sources.zip link.table.contents →
    workspace.sourceText? (link.directory.resolve (.ofText entry.1)) entry.2 = .ok (some text) →
    Fits (link.directory.resolve (.ofText entry.1)) text

/-- Trees that are resolved below a branch, with a property of their first file. -/
def Grown (Fits : Path → String → Prop) (above : List Path) : Resolution → Prop
  | .file path content table children => Fits path content ∧ ∃ depth,
      workspace.resolve depth path content above = .ok (.file path content table children)
  | .ancestor path => path ∈ above
  | .unresolved _ | .blank => True

variable {workspace} {Fits : Path → String → Prop} {InOrder : Option Table → Prop}

/-- Being resolved is handed on to children, together with a property that passes. -/
theorem isHereditary_grown (passes : workspace.Passes Fits InOrder) :
    Resolution.IsHereditary (workspace.Grown Fits) InOrder := by
  refine ⟨?_, fun above path known => known⟩
  rintro above path content table children ⟨fits, depth, resolved⟩ ordered child member
  rcases workspace.resolve_cases resolved with ⟨_, leaf⟩ | ⟨link, results, found, same, leads⟩
  · obtain ⟨_, _, _, rfl⟩ := Resolution.file.inj leaf
    simp at member
  · obtain ⟨_, _, rfl, rfl⟩ := Resolution.file.inj same
    obtain ⟨entry, listed, each⟩ := Itemwise.exists_of_mem_right leads member
    cases each with
    | blank void => trivial
    | ancestor path named target known => exact known
    | unresolved path named target new missing => trivial
    | file path text depth tree named target new had resolved =>
      obtain ⟨table, children, rfl⟩ := workspace.exists_file_of_resolve resolved
      subst target
      exact ⟨passes _ _ link entry text fits found ordered listed had, depth, resolved⟩

/-- A result of a source entry that has been numbered says what became of the entry. -/
theorem becomes_of_leads {known : List Path} {directory : Path} {branch : List Path}
    {entry : String × Option String} {tree : Resolution} {child : Child}
    (leads : workspace.Leads directory branch entry tree)
    (numbered : Resolution.Numbered known tree child) :
    workspace.Becomes known directory entry child := by
  cases leads with
  | blank void =>
    cases numbered
    exact .blank entry void
  | ancestor path named target _ =>
    cases numbered with
    | ancestor _ id found => exact .resolved entry id named (target ▸ found)
  | unresolved path named target _ missing =>
    cases numbered
    subst target
    exact .unresolved entry named missing
  | file path text depth tree named target _ _ resolved =>
    obtain ⟨table, children, rfl⟩ := workspace.exists_file_of_resolve resolved
    cases numbered with
    | file _ _ _ _ id found => exact .resolved entry id named (target ▸ found)

/-- A node that was made from a resolved file says what the file's map says. -/
theorem describes_of_isMade {known : List Path} {node : Node}
    (made : Resolution.IsMade (workspace.Grown Fits) known node) :
    Fits node.path node.content ∧ workspace.Describes known node := by
  obtain ⟨above, trees, ⟨fits, depth, resolved⟩, numbered⟩ := made
  refine ⟨fits, ?_⟩
  rcases workspace.resolve_cases resolved with
    ⟨unmapped, leaf⟩ | ⟨link, results, found, same, leads⟩
  · obtain ⟨_, _, bare, rfl⟩ := Resolution.file.inj leaf
    cases children : node.children with
    | nil => exact .leaf unmapped bare children
    | cons first rest => simp [children] at numbered
  · obtain ⟨_, _, table, rfl⟩ := Resolution.file.inj same
    exact .mapped link found table (Itemwise.compose leads numbered fun _ _ _ => becomes_of_leads)

end Workspace

namespace Chain

/-- A chain whose nodes say what the maps of their files say and have a property, each path
once, the root first. -/
structure IsDescribed (workspace : Workspace) (Fits : Path → String → Prop) (path : Path)
    (content : String) (chain : Chain) : Prop where
  nodes : ∀ node ∈ chain.nodes, Fits node.path node.content ∧
    workspace.Describes (Resolution.paths chain.nodes) node
  distinct : (Resolution.paths chain.nodes).Nodup
  root : ∃ root, chain.root? = some root ∧ root.path = path ∧ root.content = content

/-- The nodes of a chain are made from files with whatever the files of its tree hand on to
each other. Each path has one node, the root's the first. -/
theorem isMade_of_chain {workspace : Workspace} {Holds : List Path → Resolution → Prop}
    {InOrder : Option Table → Prop} (hereditary : Resolution.IsHereditary Holds InOrder)
    {path : Path} {content : String} {chain : Chain}
    (built : workspace.chain path content = .ok chain)
    (holds : ∀ depth tree, workspace.resolve depth path content [] = .ok tree → Holds [] tree)
    (ordered : ∀ node ∈ chain.nodes, InOrder node.table) :
    (∀ node ∈ chain.nodes, Resolution.IsMade Holds (Resolution.paths chain.nodes) node) ∧
      (Resolution.paths chain.nodes).Nodup ∧
      ∃ root, chain.root? = some root ∧ root.path = path ∧ root.content = content := by
  obtain ⟨depth, tree, resolved, rfl⟩ := workspace.chain_cases built
  obtain ⟨table, children, rfl⟩ := workspace.exists_file_of_resolve resolved
  obtain ⟨more, numbers, below⟩ :=
    Resolution.internAll_grows ([] ++ [⟨path, content, table, []⟩]) children
  have interned := Resolution.intern_file_new content table children rfl more numbers below
  have nodes : (ofTree workspace.provider.cwd (.file path content table children)).nodes =
      ⟨path, content, table, numbers⟩ :: more := by simp [ofTree, interned]
  rw [nodes] at ordered
  have spec := Resolution.intern_made hereditary [] _ _ [] (by simp) _ (holds depth _ resolved)
    interned (by simpa using ordered)
  rw [root?, node?, nodes]
  refine ⟨?_, ?_, ⟨path, content, table, numbers⟩, rfl, rfl, rfl⟩
  · intro node member
    exact spec.made node member
  · exact spec.distinct (by simp [Resolution.paths])

/-- A chain describes its files, as far as its tables are in order. -/
theorem isDescribed_of_chain {workspace : Workspace} {Fits : Path → String → Prop}
    {InOrder : Option Table → Prop} (passes : workspace.Passes Fits InOrder) {path : Path}
    {content : String} {chain : Chain} (built : workspace.chain path content = .ok chain)
    (fits : Fits path content) (ordered : ∀ node ∈ chain.nodes, InOrder node.table) :
    chain.IsDescribed workspace Fits path content := by
  have grown (depth : Nat) (tree : Resolution)
      (resolved : workspace.resolve depth path content [] = .ok tree) :
      workspace.Grown Fits [] tree := by
    obtain ⟨table, children, rfl⟩ := workspace.exists_file_of_resolve resolved
    exact ⟨fits, depth, resolved⟩
  obtain ⟨made, distinct, root⟩ :=
    isMade_of_chain (Workspace.isHereditary_grown passes) built grown ordered
  exact ⟨fun node member => Workspace.describes_of_isMade (made node member), distinct, root⟩

end Chain

end MapChain
