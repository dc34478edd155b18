import Mathlib.Data.List.TakeWhile
import MapChain.Proofs.Chain.Encounters

/-!
# How a chain is arranged

A chain that was built has the root in front, each path once, and its nodes in the order in
which a walk from the root first comes to them. A node without a table ends a branch. The
children of any other node stand for the sources of its map, one by one: they are blank,
without text or further nodes, as the sources are when they are seen from the map's source
root. Whatever a segment points to has a child.

Where a file was first met decides what its children are. A source that names a file on the
branch from there up to the root is a node, even if there is no text for it on its own.
-/

namespace MapChain

namespace Text

/-- Nothing is left of a text that is trimmed exactly if the text is blank. -/
theorem trim_eq_nil_iff (text : List Char) : trim text = [] ↔ text.all isBlank = true := by
  induction text with
  | nil => simp [trim, trimStart, trimEnd]
  | cons c text inductionHypothesis =>
    by_cases blank : isBlank c = true
    · have skipped : trim (c :: text) = trim text := by simp [trim, trimStart, blank]
      simp [skipped, inductionHypothesis, blank]
    · simp [trim, trimStart, trimEnd, blank, List.dropWhile_eq_nil_iff]

end Text

namespace Chain

/-- A child that stands for a source of a map. `branch` holds the numbers of the nodes from the
one with the map up to the root, and `directory` is the one that its sources are seen from. -/
structure Represents (chain : Chain) (branch : List Nat) (directory : Path) (source : String)
    (child : Child) : Prop where
  blank : child = .blank ↔ Text.trim source.toList = []
  leads : child = .blank ∨ child = .unresolved (directory.resolve (.ofText source)) ∨
    ∃ id node, child = .resolved id ∧ chain.nodes[id]? = some node ∧
      node.path = directory.resolve (.ofText source)
  /-- A source that lists a file on the branch stands for the node of that file. -/
  returns : Text.trim source.toList ≠ [] → ∀ id ∈ branch, ∀ node, chain.nodes[id]? = some node →
    node.path = directory.resolve (.ofText source) → child = .resolved id

/-- A node that is met on a branch says what the map of its file says: it has no children if
it has no table, and otherwise one for every source of the map. -/
inductive IsListed (workspace : Workspace) (chain : Chain) (entry : Nat × List Nat) : Prop where
  | leaf (node : Node) (stored : chain.nodes[entry.1]? = some node) (bare : node.table = none)
      (childless : node.children = [])
  | mapped (node : Node) (stored : chain.nodes[entry.1]? = some node) (document : Document)
      (directory : Path) (table : Table) (has : node.table = some table)
      (found : workspace.document? node.path node.content = .ok (some (document, directory)))
      (origin : workspace.Documents node.path node.content document directory)
      (made : document.table = .ok table)
      (children : List.Forall₂ (chain.Represents (entry.1 :: entry.2)
        (Workspace.sourceDirectory document directory)) table.sources node.children)

/-- A chain of the file at `path` that is in order. -/
structure IsArranged (workspace : Workspace) (path : Path) (chain : Chain) : Prop where
  root : ∃ root, chain.nodes[0]? = some root ∧ root.path = path
  distinct : (chain.nodes.map (·.path)).Nodup
  located : ∀ node ∈ chain.nodes, node.path.IsLocation
  reachable : ∀ id < chain.nodes.length, Relation.ReflTransGen chain.LeadsTo 0 id
  /-- Numbers follow the first encounters of a walk from the root in depth-first order. -/
  preorder : chain.encounters.map (·.1) = List.range chain.nodes.length
  branches : ∀ entry ∈ chain.encounters, chain.IsBranch (entry.1 :: entry.2)
  listed : ∀ entry ∈ chain.encounters, chain.IsListed workspace entry
  indexed : ∀ node ∈ chain.nodes, ∀ table ∈ node.table, ∀ line ∈ table.lines, ∀ segment ∈ line,
    ∀ origin ∈ segment.origin, origin.source.toNat < node.children.length

section Sources

variable {workspace : Workspace} {chain : Chain} {numbers : List Nat} {directory : Path}

/-- A blank source is a blank child. -/
theorem represents_blank {source : String} (void : source.toList.all Text.isBlank = true) :
    chain.Represents numbers directory source .blank := by
  have empty := (Text.trim_eq_nil_iff source.toList).mpr void
  refine ⟨by simp [empty], .inl rfl, ?_⟩
  intro visible
  exact absurd empty visible

/-- A source with a node is represented by the number of the node. -/
theorem represents_resolved (distinct : (Resolution.paths chain.nodes).Nodup) {source : String}
    (named : ¬source.toList.all Text.isBlank = true) {id : Nat}
    (found : (Resolution.paths chain.nodes)[id]? = some (directory.resolve (.ofText source))) :
    chain.Represents numbers directory source (.resolved id) := by
  obtain ⟨node, stored, target⟩ : ∃ node, chain.nodes[id]? = some node ∧
      node.path = directory.resolve (.ofText source) := by
    simpa [Resolution.paths] using found
  refine ⟨by simp [Text.trim_eq_nil_iff, named], .inr (.inr ⟨id, node, rfl, stored, target⟩), ?_⟩
  intro _ other _ same kept reached
  have again : (Resolution.paths chain.nodes)[other]? = (Resolution.paths chain.nodes)[id]? := by
    simp [Resolution.paths, kept, stored, reached, target]
  have inside : other < (Resolution.paths chain.nodes).length := by
    simpa [Resolution.paths] using (List.getElem?_eq_some_iff.mp kept).1
  exact congrArg _ ((List.getElem?_inj inside distinct).mp again).symm

/-- A source without text that is not on the branch stays unresolved. -/
theorem represents_unresolved (distinct : (Resolution.paths chain.nodes).Nodup)
    {branch : List Path} (visits : chain.Visits numbers branch) {source : String}
    (named : ¬source.toList.all Text.isBlank = true)
    (new : directory.resolve (.ofText source) ∉ branch) :
    chain.Represents numbers directory source
      (.unresolved (directory.resolve (.ofText source))) := by
  refine ⟨by simp [Text.trim_eq_nil_iff, named], .inr (.inl rfl), ?_⟩
  intro _ id member node stored reached
  obtain ⟨inside, rfl⟩ := List.getElem?_eq_some_iff.mp stored
  have known := (mem_branch_iff distinct visits inside).mpr member
  exact absurd (reached ▸ known) new

/-- What a source that is resolved below a branch leads to is represented by its number. -/
theorem represents_of_leads (distinct : (Resolution.paths chain.nodes).Nodup)
    {branch : List Path} (visits : chain.Visits numbers branch) {entry : String × Option String}
    {tree : Resolution} {child : Child} (leads : workspace.Leads directory branch entry tree)
    (numbered : Resolution.Numbered (Resolution.paths chain.nodes) tree child) :
    chain.Represents numbers directory entry.1 child := by
  cases leads with
  | blank void =>
    cases numbered
    exact represents_blank void
  | ancestor path named target _ =>
    cases numbered with
    | ancestor _ id found => exact represents_resolved distinct named (target ▸ found)
  | unresolved path named target new _ =>
    cases numbered
    subst target
    exact represents_unresolved distinct visits named new
  | file path text depth tree named target _ _ resolved =>
    obtain ⟨table, children, rfl⟩ := workspace.exists_file_of_resolve resolved
    cases numbered with
    | file _ _ _ _ id found => exact represents_resolved distinct named (target ▸ found)

/-- The children of a node stand for the sources of its map if they do for the sources with
the texts that the map carries. -/
theorem forall₂_sources {Stands : String → Child → Prop} {sources : List String}
    {contents : List (Option String)} (carried : contents.length = sources.length)
    {children : List Child}
    (stand : List.Forall₂ (fun entry child => Stands entry.1 child) (sources.zip contents)
      children) :
    List.Forall₂ Stands sources children := by
  have unzipped : (sources.zip contents).map Prod.fst = sources :=
    List.map_fst_zip (Nat.le_of_eq carried.symm)
  rw [← unzipped]
  exact List.forall₂_map_left_iff.mpr stand

/-- A node that is met on a branch was resolved below it, so it says what its map says. -/
theorem isListed_of_isMetBelow {Fits : Path → String → Prop}
    (distinct : (Resolution.paths chain.nodes).Nodup) {entry : Nat × List Nat}
    (met : chain.IsMetBelow (workspace.Grown Fits) entry) : chain.IsListed workspace entry := by
  obtain ⟨node, branch, trees, stored, visits, ⟨_, depth, resolved⟩, numbered⟩ := met
  rcases workspace.resolve_cases resolved with ⟨_, leaf⟩ | ⟨link, results, found, same, leads⟩
  · obtain ⟨_, _, bare, rfl⟩ := Resolution.file.inj leaf
    cases children : node.children with
    | nil => exact .leaf node stored bare children
    | cons first rest => simp [children] at numbered
  · obtain ⟨_, _, has, rfl⟩ := Resolution.file.inj same
    obtain ⟨document, directory, had, made, seen⟩ := workspace.exists_document?_of_link? found
    have here : (Resolution.paths chain.nodes)[entry.1]? = some node.path := by
      simp [Resolution.paths, stored]
    have whole : chain.Visits (entry.1 :: entry.2) (node.path :: branch) := .cons here visits
    have children := Itemwise.compose leads numbered
      fun _ _ _ leads numbered => represents_of_leads distinct whole leads numbered
    rw [seen] at children
    have carried := (workspace.isWellFormed_link_table found).carried
    exact .mapped node stored document directory link.table has had
      (workspace.documents_of_document? had) made (forall₂_sources carried children)

/-- Whatever a segment of a node points to is a child of the node. -/
theorem source_lt_of_describes {known : List Path} {node : Node}
    (describes : workspace.Describes known node) {table : Table} (has : node.table = some table)
    {line : List Segment} (listed : line ∈ table.lines) {segment : Segment}
    (inside : segment ∈ line) {origin : Origin} (mapped : segment.origin = some origin) :
    origin.source.toNat < node.children.length := by
  cases describes with
  | leaf _ bare _ => simp [bare] at has
  | mapped link found own children =>
    obtain rfl : link.table = table := by simpa [own] using has
    have wellFormed := workspace.isWellFormed_link_table found
    have count : link.table.sources.length = node.children.length := by
      simpa [wellFormed.carried] using children.length_eq
    rw [← count]
    exact (wellFormed.valid line listed segment inside origin mapped).1

end Sources

/-- Every chain that is built is in order. -/
theorem isArranged_of_built (workspace : Workspace) (path : Path) (chain : Chain)
    (directory : workspace.provider.cwd.IsLocation) (built : IsBuiltAt workspace path chain) :
    chain.IsArranged workspace path := by
  obtain ⟨content, made⟩ := built.exists_chain
  have location := built.isLocation directory
  have described := isDescribed_of_chain workspace.passes_isLocation made location
    fun _ _ => trivial
  obtain ⟨preorder, met⟩ := encounters_of_chain workspace.passes_isLocation made location
  have branches : ∀ entry ∈ chain.encounters, chain.IsBranch (entry.1 :: entry.2) := by
    intro entry member
    refine isBranch_of_mem_encounter ?_ member
    intro start inside
    obtain rfl := List.mem_singleton.mp inside
    exact .root
  refine ⟨?_, described.distinct, fun node member => (described.nodes node member).1, ?_, preorder,
    branches, fun entry member => isListed_of_isMetBelow described.distinct (met entry member), ?_⟩
  · obtain ⟨root, first, own, _⟩ := described.root
    exact ⟨root, first, own⟩
  · intro id stored
    have member : id ∈ chain.encounters.map (·.1) := by
      rw [preorder]
      exact List.mem_range.mpr stored
    obtain ⟨entry, inside, rfl⟩ := List.mem_map.mp member
    exact reachable_of_isBranch (branches entry inside)
  · intro node member table has line listed segment inside origin mapped
    exact source_lt_of_describes (described.nodes node member).2 has listed inside mapped

/-- Three files with maps. The root lists the other two and a source without a name, and
these two list each other and a file that is missing. -/
def tangle : Workspace where
  provider :=
    (((Memory.put {} (.ofText "/out.js") []).put (.ofText "/lib/a.js") []).put
      (.ofText "/lib/b.js") []).provider
  overrides :=
    { maps :=
        [(.ofText "out.js",
          { version := 3, sourceRoot := some "lib", sources := ["a.js", "b.js", " "],
            mappings := "AAAA,CCAA" }),
         (.ofText "lib/a.js", { version := 3, sources := ["b.js"], mappings := "AAAA" }),
         (.ofText "lib/b.js",
          { version := 3, sources := ["a.js", "c.ts"], mappings := "ACAA" })] }

/-- The chain of the three files. The second file is met below the first one that the root
lists, where the first one is on its branch. -/
def tangleChain : Chain where
  nodes :=
    [⟨.ofText "/out.js", "", some ⟨["a.js", "b.js", " "], [none, none, none], [],
        [[⟨0, some ⟨0, 0, 0, none⟩⟩, ⟨1, some ⟨1, 0, 0, none⟩⟩]]⟩,
        [.resolved 1, .resolved 2, .blank]⟩,
     ⟨.ofText "/lib/a.js", "", some ⟨["b.js"], [none], [], [[⟨0, some ⟨0, 0, 0, none⟩⟩]]⟩,
        [.resolved 2]⟩,
     ⟨.ofText "/lib/b.js", "", some ⟨["a.js", "c.ts"], [none, none], [],
        [[⟨0, some ⟨1, 0, 0, none⟩⟩]]⟩, [.resolved 1, .unresolved (.ofText "/lib/c.ts")]⟩]
  cwd := .root

/-- The chain of the three files is in order. -/
theorem isArranged_tangle : tangleChain.IsArranged tangle (.ofText "/out.js") :=
  isArranged_of_built tangle (.ofText "/out.js") tangleChain Path.isLocation_root
    (.inl ⟨.ofText "out.js", by decide +kernel, by decide +kernel⟩)

/-- A walk comes to the last of them from the one that lists it first. -/
example : tangleChain.encounters = [(0, []), (1, [0]), (2, [1, 0])] := by
  cbv

end Chain

end MapChain
