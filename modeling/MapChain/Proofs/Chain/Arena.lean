import MapChain.Chain.Basic
import MapChain.Proofs.Itemwise

/-!
# What numbering a tree gives

Numbering a tree only ever adds nodes behind those that are there, and it adds one for
each path that is new. A new node was made from a file somewhere in the tree: it has that
file's path, text and table, and its children stand one by one for what the file's map
leads to. What holds of the whole tree and passes from a file to its children therefore
holds of every file that a node was made from.

A property may pass to the children of only some files, as long as all files that nodes
were made from are among them. This serves properties that hang on what a chain's tables
carry.
-/

namespace MapChain.Resolution

/-- The paths of some nodes by their numbers. -/
def paths (nodes : List Node) : List Path := nodes.map (·.path)

/-- What a result of resolving stands as among numbered paths. -/
inductive Numbered (known : List Path) : Resolution → Child → Prop where
  | file (path : Path) (content : String) (table : Option Table) (children : List Resolution)
      (id : Nat) (found : known[id]? = some path) :
      Numbered known (.file path content table children) (.resolved id)
  | ancestor (path : Path) (id : Nat) (found : known[id]? = some path) :
      Numbered known (.ancestor path) (.resolved id)
  | unresolved (path : Path) : Numbered known (.unresolved path) (.unresolved path)
  | blank : Numbered known .blank .blank

/-- A property of trees, each below a branch, that a file hands on to its children if its
table is in order. Only a path of the branch counts as a file further up. -/
structure IsHereditary (Holds : List Path → Resolution → Prop)
    (InOrder : Option Table → Prop) : Prop where
  children : ∀ above path content table children,
    Holds above (.file path content table children) → InOrder table →
      ∀ child ∈ children, Holds (path :: above) child
  ancestor : ∀ above path, Holds above (.ancestor path) → path ∈ above

/-- A node that was made from a file with a property. -/
def IsMade (Holds : List Path → Resolution → Prop) (known : List Path) (node : Node) : Prop :=
  ∃ above children, Holds above (.file node.path node.content node.table children) ∧
    List.Forall₂ (Numbered known) children node.children

/-- More paths behind the known ones change no number. -/
theorem Numbered.append {known : List Path} {tree : Resolution} {child : Child}
    (numbered : Numbered known tree child) (more : List Path) :
    Numbered (known ++ more) tree child := by
  have kept {id : Nat} {path : Path} (found : known[id]? = some path) :
      (known ++ more)[id]? = some path := by
    rw [List.getElem?_append_left (List.getElem?_eq_some_iff.mp found).1]
    exact found
  cases numbered with
  | file path content table children id found =>
    exact .file path content table children id (kept found)
  | ancestor path id found => exact .ancestor path id (kept found)
  | unresolved path => exact .unresolved path
  | blank => exact .blank

/-- Nodes stay made from the same files when more are added behind them. -/
theorem IsMade.append {Holds : List Path → Resolution → Prop} {known : List Path} {node : Node}
    (made : IsMade Holds known node) (more : List Path) : IsMade Holds (known ++ more) node := by
  obtain ⟨above, children, holds, numbered⟩ := made
  exact ⟨above, children, holds, numbered.imp fun _ _ each => each.append more⟩

/-- The number that is found for a path is one of that path. -/
theorem getElem?_paths_of_idOf? {nodes : List Node} {path : Path} {id : Nat}
    (found : idOf? nodes path = some id) : (paths nodes)[id]? = some path := by
  obtain ⟨stored, same, _⟩ := List.findIdx?_eq_some_iff_getElem.mp found
  simpa [paths, List.getElem?_eq_getElem stored] using same

/-- No number is found for a path only if no node has it. -/
theorem not_mem_paths_of_idOf? {nodes : List Node} {path : Path}
    (missing : idOf? nodes path = none) : path ∉ paths nodes := by
  intro member
  obtain ⟨node, inside, rfl⟩ := List.mem_map.mp member
  simpa using List.findIdx?_eq_none_iff.mp missing node inside

/-- A path that some node has is found. -/
theorem exists_idOf?_of_mem_paths {nodes : List Node} {path : Path}
    (member : path ∈ paths nodes) : ∃ id, idOf? nodes path = some id := by
  cases found : idOf? nodes path with
  | none => exact absurd member (not_mem_paths_of_idOf? found)
  | some id => exact ⟨id, rfl⟩

/-- A branch whose files have nodes still has them when more nodes are added. -/
theorem placed_append {nodes : List Node} {above : List Path}
    (placed : ∀ path ∈ above, path ∈ paths nodes) (more : List Node) :
    ∀ path ∈ above, path ∈ paths (nodes ++ more) := by
  intro path member
  simpa [paths] using Or.inl (List.mem_map.mp (placed path member))

/-- A branch whose files have nodes, with the file of an added node in front, has a node for each of
its files. -/
theorem placed_cons {nodes : List Node} {above : List Path}
    (placed : ∀ path ∈ above, path ∈ paths nodes) (node : Node) :
    ∀ path ∈ node.path :: above, path ∈ paths (nodes ++ [node]) := by
  intro path member
  rcases List.mem_cons.mp member with rfl | member
  · simp [paths]
  · exact placed_append placed [node] path member

/-- The node behind some others is given its children and nothing else changes. -/
theorem adopt_append (nodes more : List Node) (node : Node) (children : List Child) :
    adopt (nodes ++ node :: more) nodes.length children =
      nodes ++ { node with children } :: more := by
  simp only [adopt]
  induction nodes with
  | nil => simp
  | cons first nodes inductionHypothesis => simpa using inductionHypothesis

/-- A new file comes behind the nodes that are there, and its children behind it. -/
theorem intern_file_new {nodes : List Node} {path : Path} (content : String)
    (table : Option Table) (children : List Resolution) (missing : idOf? nodes path = none)
    (more : List Node) (children' : List Child)
    (below : internAll (nodes ++ [⟨path, content, table, []⟩]) children =
      (nodes ++ [⟨path, content, table, []⟩] ++ more, children')) :
    intern nodes (.file path content table children) =
      (nodes ++ ⟨path, content, table, children'⟩ :: more, .resolved nodes.length) := by
  rw [intern, missing]
  simp only [below]
  rw [List.append_assoc, List.singleton_append, adopt_append]

mutual

/-- Numbering a tree adds nodes behind those that are there. -/
theorem intern_grows (nodes : List Node) :
    (tree : Resolution) → ∃ added child, intern nodes tree = (nodes ++ added, child)
  | .file path content table children => by
    cases found : idOf? nodes path with
    | some id => exact ⟨[], .resolved id, by simp [intern, found]⟩
    | none =>
      obtain ⟨more, numbers, below⟩ :=
        internAll_grows (nodes ++ [⟨path, content, table, []⟩]) children
      exact ⟨_, _, intern_file_new content table children found more numbers below⟩
  | .ancestor path => by
    cases found : idOf? nodes path with
    | some id => exact ⟨[], .resolved id, by simp [intern, found]⟩
    | none => exact ⟨[], .unresolved path, by simp [intern, found]⟩
  | .unresolved path => ⟨[], .unresolved path, by simp [intern]⟩
  | .blank => ⟨[], .blank, by simp [intern]⟩

/-- Numbering several trees adds nodes behind those that are there. -/
theorem internAll_grows (nodes : List Node) :
    (trees : List Resolution) → ∃ added children, internAll nodes trees = (nodes ++ added, children)
  | [] => ⟨[], [], by simp [internAll]⟩
  | tree :: trees => by
    obtain ⟨first, child, firstDone⟩ := intern_grows nodes tree
    obtain ⟨rest, children, restDone⟩ := internAll_grows (nodes ++ first) trees
    exact ⟨first ++ rest, child :: children, by simp [internAll, firstDone, restDone]⟩

end

/-- A file is known already or comes behind the nodes that are there, with its children. -/
theorem intern_file_cases {nodes added : List Node} {path : Path} {content : String}
    {table : Option Table} {trees : List Resolution} {child : Child}
    (done : intern nodes (.file path content table trees) = (nodes ++ added, child)) :
    (∃ id, idOf? nodes path = some id ∧ added = [] ∧ child = .resolved id) ∨
      idOf? nodes path = none ∧ ∃ more numbers,
        internAll (nodes ++ [⟨path, content, table, []⟩]) trees =
          (nodes ++ [⟨path, content, table, []⟩] ++ more, numbers) ∧
        added = ⟨path, content, table, numbers⟩ :: more ∧ child = .resolved nodes.length := by
  cases known : idOf? nodes path with
  | some id =>
    simp only [intern, known, Prod.mk.injEq, List.self_eq_append_right] at done
    exact .inl ⟨id, rfl, done.1, done.2.symm⟩
  | none =>
    obtain ⟨more, numbers, below⟩ := internAll_grows (nodes ++ [⟨path, content, table, []⟩]) trees
    rw [intern_file_new content table trees known more numbers below] at done
    simp only [Prod.mk.injEq, List.append_cancel_left_eq] at done
    exact .inr ⟨rfl, more, numbers, below, done.1.symm, done.2.symm⟩

/-- A file further up that is known adds nothing. -/
theorem intern_ancestor_cases {nodes added : List Node} {path : Path} {child : Child}
    (known : path ∈ paths nodes) (done : intern nodes (.ancestor path) = (nodes ++ added, child)) :
    ∃ id, idOf? nodes path = some id ∧ added = [] ∧ child = .resolved id := by
  obtain ⟨id, found⟩ := exists_idOf?_of_mem_paths known
  simp only [intern, found, Prod.mk.injEq, List.self_eq_append_right] at done
  exact ⟨id, found, done.1, done.2.symm⟩

/-- The trees behind the first one are numbered behind its nodes. -/
theorem internAll_cons_cases {nodes added : List Node} {tree : Resolution}
    {trees : List Resolution} {children : List Child}
    (done : internAll nodes (tree :: trees) = (nodes ++ added, children)) :
    ∃ first rest child others, intern nodes tree = (nodes ++ first, child) ∧
      internAll (nodes ++ first) trees = (nodes ++ first ++ rest, others) ∧
      added = first ++ rest ∧ children = child :: others := by
  obtain ⟨first, child, firstDone⟩ := intern_grows nodes tree
  obtain ⟨rest, others, restDone⟩ := internAll_grows (nodes ++ first) trees
  simp only [internAll, firstDone, restDone, Prod.mk.injEq, List.append_assoc,
    List.append_cancel_left_eq] at done
  exact ⟨first, rest, child, others, firstDone, restDone, done.1.symm, done.2.symm⟩

section Made

variable {Holds : List Path → Resolution → Prop} {InOrder : Option Table → Prop}

/-- What numbering trees with a property below a branch gives: new nodes that are made from
files with the property, a number for every tree, and no path twice. -/
structure IsInterned (Holds : List Path → Resolution → Prop) (nodes added : List Node)
    (trees : List Resolution) (children : List Child) : Prop where
  made : ∀ node ∈ added, IsMade Holds (paths (nodes ++ added)) node
  numbered : List.Forall₂ (Numbered (paths (nodes ++ added))) trees children
  distinct : (paths nodes).Nodup → (paths (nodes ++ added)).Nodup

/-- A tree that adds no node is numbered by those that are there. -/
theorem isInterned_nil {nodes : List Node} {tree : Resolution} {child : Child}
    (numbered : Numbered (paths nodes) tree child) :
    IsInterned Holds nodes [] [tree] [child] := by
  refine ⟨by simp, ?_, by simp⟩
  exact .cons (by simpa using numbered) .nil

/-- A new file whose children were numbered behind it. -/
theorem isInterned_file {nodes more : List Node} {path : Path} {content : String}
    {table : Option Table} {trees : List Resolution} {children : List Child} {above : List Path}
    (missing : idOf? nodes path = none) (holds : Holds above (.file path content table trees))
    (deeper : IsInterned Holds (nodes ++ [⟨path, content, table, []⟩]) more trees children) :
    IsInterned Holds nodes (⟨path, content, table, children⟩ :: more)
      [.file path content table trees] [.resolved nodes.length] := by
  have same : paths (nodes ++ [⟨path, content, table, []⟩] ++ more) =
      paths (nodes ++ ⟨path, content, table, children⟩ :: more) := by simp [paths]
  obtain ⟨made, numbered, distinct⟩ := deeper
  rw [same] at made numbered distinct
  refine ⟨?_, ?_, ?_⟩
  · intro node member
    rcases List.mem_cons.mp member with rfl | member
    · exact ⟨above, trees, holds, numbered⟩
    · exact made node member
  · exact .cons (.file path content table trees nodes.length (by simp [paths])) .nil
  · intro before
    apply distinct
    have fresh : ∀ node ∈ nodes, node.path ≠ path := by
      intro node member reached
      exact not_mem_paths_of_idOf? missing (List.mem_map.mpr ⟨node, member, reached⟩)
    simpa [paths, List.nodup_append] using ⟨before, fresh⟩

/-- A tree and the trees behind it, numbered one after the other. -/
theorem IsInterned.cons {nodes first rest : List Node} {tree : Resolution}
    {trees : List Resolution} {child : Child} {children : List Child}
    (firstMade : IsInterned Holds nodes first [tree] [child])
    (restMade : IsInterned Holds (nodes ++ first) rest trees children) :
    IsInterned Holds nodes (first ++ rest) (tree :: trees) (child :: children) := by
  obtain ⟨firstNodes, firstNumbered, firstDistinct⟩ := firstMade
  obtain ⟨restNodes, restNumbered, restDistinct⟩ := restMade
  have whole : nodes ++ (first ++ rest) = nodes ++ first ++ rest := by simp
  have parted : paths (nodes ++ first ++ rest) = paths (nodes ++ first) ++ paths rest := by
    simp [paths]
  refine ⟨?_, ?_, ?_⟩
  · intro node member
    rw [whole]
    rcases List.mem_append.mp member with member | member
    · exact parted ▸ (firstNodes node member).append (paths rest)
    · exact restNodes node member
  · rw [whole]
    cases firstNumbered with
    | cons numbered _ => exact .cons (parted ▸ numbered.append (paths rest)) restNumbered
  · intro before
    rw [whole]
    exact restDistinct (firstDistinct before)

mutual

/-- Numbering a tree with an inherited property. The tree's files are walked from the root
on, and each of them finds the property and the numbers of its branch when it is met. -/
theorem intern_made (hereditary : IsHereditary Holds InOrder) (nodes added : List Node)
    (child : Child) (above : List Path) (placed : ∀ path ∈ above, path ∈ paths nodes) :
    (tree : Resolution) → Holds above tree → intern nodes tree = (nodes ++ added, child) →
      (∀ node ∈ nodes ++ added, InOrder node.table) →
      IsInterned Holds nodes added [tree] [child]
  | .file path content table children, holds, done, ordered => by
    rcases intern_file_cases done with
      ⟨id, found, rfl, rfl⟩ | ⟨found, more, numbers, below, rfl, rfl⟩
    · exact isInterned_nil (.file path content table children id (getElem?_paths_of_idOf? found))
    · have own : InOrder table := ordered ⟨path, content, table, numbers⟩ (by simp)
      have branch := placed_cons placed ⟨path, content, table, []⟩
      have kept : ∀ node ∈ nodes ++ [⟨path, content, table, []⟩] ++ more,
          InOrder node.table := by
        intro node member
        simp only [List.append_assoc, List.singleton_append, List.mem_append,
          List.mem_cons] at member
        rcases member with old | rfl | new
        · exact ordered node (by simp [old])
        · exact own
        · exact ordered node (by simp [new])
      have handed := hereditary.children above path content table children holds own
      exact isInterned_file found holds
        (internAll_made hereditary _ more numbers (path :: above) branch children handed below kept)
  | .ancestor path, holds, done, _ => by
    obtain ⟨id, found, rfl, rfl⟩ :=
      intern_ancestor_cases (placed path (hereditary.ancestor above path holds)) done
    exact isInterned_nil (.ancestor path id (getElem?_paths_of_idOf? found))
  | .unresolved path, _, done, _ => by
    simp only [intern, Prod.mk.injEq, List.self_eq_append_right] at done
    obtain ⟨rfl, rfl⟩ := done
    exact isInterned_nil (.unresolved path)
  | .blank, _, done, _ => by
    simp only [intern, Prod.mk.injEq, List.self_eq_append_right] at done
    obtain ⟨rfl, rfl⟩ := done
    exact isInterned_nil .blank

/-- Numbering several trees with an inherited property. -/
theorem internAll_made (hereditary : IsHereditary Holds InOrder) (nodes added : List Node)
    (children : List Child) (above : List Path) (placed : ∀ path ∈ above, path ∈ paths nodes) :
    (trees : List Resolution) → (∀ tree ∈ trees, Holds above tree) →
      internAll nodes trees = (nodes ++ added, children) →
      (∀ node ∈ nodes ++ added, InOrder node.table) →
      IsInterned Holds nodes added trees children
  | [], _, done, _ => by
    simp only [internAll, Prod.mk.injEq, List.self_eq_append_right] at done
    obtain ⟨rfl, rfl⟩ := done
    exact ⟨by simp, .nil, by simp⟩
  | tree :: trees, hold, done, ordered => by
    obtain ⟨first, rest, child, others, firstDone, restDone, rfl, rfl⟩ := internAll_cons_cases done
    have firstOrdered : ∀ node ∈ nodes ++ first, InOrder node.table := by
      intro node member
      exact ordered node (by simpa only [List.append_assoc] using List.mem_append_left rest member)
    have restOrdered : ∀ node ∈ nodes ++ first ++ rest, InOrder node.table := by
      intro node member
      exact ordered node (by simpa only [List.append_assoc] using member)
    have still := placed_append placed first
    have restHold : ∀ other ∈ trees, Holds above other := by
      intro other member
      exact hold other (by simp [member])
    exact .cons
      (intern_made hereditary nodes first child above placed tree (hold tree (by simp)) firstDone
        firstOrdered)
      (internAll_made hereditary (nodes ++ first) rest others above still trees restHold restDone
        restOrdered)

end

end Made

end MapChain.Resolution
