import MapChain.Proofs.Chain.Located

/-!
# Chains whose root has another text

Numbering files looks at their paths, and tracing looks at paths, tables and children. Neither
looks at texts. So a root with another text has the same chain below it, and its positions are
traced to the same locations.
-/

namespace MapChain

namespace Resolution

/-- The tree of a file with another text. -/
def reworded (content : String) : Resolution → Resolution
  | .file path _ table children => .file path content table children
  | tree => tree

/-- The number of a path depends on the paths only. -/
theorem idOf?_congr {nodes other : List Node} (same : paths other = paths nodes) (path : Path) :
    idOf? other path = idOf? nodes path := by
  have places (nodes : List Node) :
      idOf? nodes path = (paths nodes).findIdx? fun known => known = path := by
    rw [paths, List.findIdx?_map]
    rfl
  rw [places, places, same]

mutual

/-- Behind other nodes of the same paths, a tree is numbered alike and adds the same nodes. -/
theorem intern_congr {nodes other added : List Node} {child : Child}
    (same : paths other = paths nodes) :
    (tree : Resolution) → intern nodes tree = (nodes ++ added, child) →
      intern other tree = (other ++ added, child)
  | .file path content table children, done => by
    have known := idOf?_congr same path
    rcases intern_file_cases done with
      ⟨id, found, rfl, rfl⟩ | ⟨missing, more, numbers, below, rfl, rfl⟩
    · rw [found] at known
      simp [intern, known]
    · rw [missing] at known
      have longer : paths (other ++ [⟨path, content, table, []⟩]) =
          paths (nodes ++ [⟨path, content, table, []⟩]) := by
        simpa [paths] using same
      have length : other.length = nodes.length := by
        simpa [paths] using congrArg List.length same
      rw [intern_file_new content table children known more numbers
        (internAll_congr longer children below), length]
  | .ancestor path, done => by
    have known := idOf?_congr same path
    simp only [intern] at done ⊢
    rw [known]
    cases found : idOf? nodes path <;> simp_all
  | .unresolved path, done => by
    simp_all [intern]
  | .blank, done => by
    simp_all [intern]

/-- Behind other nodes of the same paths, trees are numbered alike and add the same nodes. -/
theorem internAll_congr {nodes other added : List Node} {children : List Child}
    (same : paths other = paths nodes) :
    (trees : List Resolution) → internAll nodes trees = (nodes ++ added, children) →
      internAll other trees = (other ++ added, children)
  | [], done => by
    simp_all [internAll]
  | tree :: trees, done => by
    obtain ⟨first, rest, child, others, firstDone, restDone, rfl, rfl⟩ := internAll_cons_cases done
    have longer : paths (other ++ first) = paths (nodes ++ first) := by
      simpa [paths] using same
    simp [internAll, intern_congr same tree firstDone, internAll_congr longer trees restDone]

end

end Resolution

namespace Chain

/-- The chain of a root with another text. -/
def reworded (content : String) (chain : Chain) : Chain :=
  { chain with nodes := chain.nodes.modifyHead fun root => { root with content } }

/-- The chain of a reworded file is the file's chain, reworded. -/
theorem ofTree_reworded (cwd path : Path) (content text : String) (table : Option Table)
    (children : List Resolution) :
    ofTree cwd (.file path text table children) =
      (ofTree cwd (.file path content table children)).reworded text := by
  obtain ⟨more, numbers, below⟩ :=
    Resolution.internAll_grows ([] ++ [⟨path, content, table, []⟩]) children
  have same : Resolution.paths ([] ++ [⟨path, text, table, []⟩]) =
      Resolution.paths ([] ++ [⟨path, content, table, []⟩]) := rfl
  have other := Resolution.internAll_congr same children below
  simp only [ofTree, reworded,
    Resolution.intern_file_new content table children rfl more numbers below,
    Resolution.intern_file_new text table children rfl more numbers other]
  rfl

end Chain

/-- Nodes that differ in their texts at most. -/
structure Node.Alike (node other : Node) : Prop where
  path : other.path = node.path
  table : other.table = node.table
  children : other.children = node.children

namespace Chain

variable {chain other : Chain} (alike : List.Forall₂ Node.Alike chain.nodes other.nodes)

include alike

/-- Nodes with one number differ in their texts at most. -/
theorem exists_alike {id : Nat} (stored : id < chain.nodes.length) :
    ∃ otherStored : id < other.nodes.length, chain.nodes[id].Alike other.nodes[id] :=
  ⟨alike.length_eq ▸ stored, alike.get stored (alike.length_eq ▸ stored)⟩

/-- A walk comes to the same location in two chains whose nodes differ in their texts only. -/
theorem location_follow_alike {visited : List Nat} {node twin : Node} {segment : Segment}
    (same : node.Alike twin) :
    (other.follow visited twin segment).map (·.location) =
      (chain.follow visited node segment).map (·.location) := by
  fun_induction follow chain visited node segment generalizing twin with
  | case1 visited node segment table origin mapped has missing =>
    rw [follow, same.table, same.children, has, mapped]
    simp only [missing]
  | case2 visited node segment table origin mapped has blank =>
    rw [follow, same.table, same.children, has, mapped]
    simp only [blank]
  | case3 visited node segment table origin mapped has =>
    rename_i path unresolved
    rw [follow, same.table, same.children, has, mapped]
    simp only [unresolved]
    rfl
  | case4 visited node segment table origin mapped has =>
    rename_i id resolved stored child leaf
    obtain ⟨otherStored, childSame⟩ := exists_alike alike stored
    rw [follow, same.table, same.children, has, mapped]
    simp only [resolved, otherStored, dif_pos, childSame.table.trans leaf, Option.map_some,
      childSame.path]
    rfl
  | case5 visited node segment table origin mapped has =>
    rename_i id resolved stored child inner innerHas seen
    obtain ⟨otherStored, childSame⟩ := exists_alike alike stored
    rw [follow, same.table, same.children, has, mapped]
    simp only [resolved, otherStored, dif_pos, childSame.table.trans innerHas, seen,
      Option.map_some, childSame.path]
    rfl
  | case6 visited node segment table origin mapped has =>
    rename_i id resolved stored child inner innerHas fresh uncovered
    obtain ⟨otherStored, childSame⟩ := exists_alike alike stored
    rw [follow, same.table, same.children, has, mapped]
    simp only [resolved, otherStored, dif_pos, childSame.table.trans innerHas, dif_neg fresh]
    simp only [show inner.lookup (nextLine origin.line) origin.column = none from uncovered]
  | case7 visited node segment table origin mapped has =>
    rename_i name id resolved stored child inner innerHas fresh deeper covering inductionHypothesis
    obtain ⟨otherStored, childSame⟩ := exists_alike alike stored
    have walked := inductionHypothesis childSame
    rw [follow, same.table, same.children, has, mapped]
    simp only [resolved, otherStored, dif_pos, childSame.table.trans innerHas, dif_neg fresh]
    simp only [show inner.lookup (nextLine origin.line) origin.column = some deeper from covering]
    have moved (walk : Option Hit) : (walk.map (·.named name)).map (·.location) =
        (walk.map (·.location)).map fun location =>
          { location with name := location.name <|> name } := by
      cases walk <;> rfl
    exact (moved _).trans ((congrArg _ walked).trans (moved _).symm)
  | case8 visited node segment table origin mapped has id resolved outside =>
    rw [follow, same.table, same.children, has, mapped]
    have otherOutside : ¬id < other.nodes.length := alike.length_eq ▸ outside
    simp only [resolved, dif_neg otherOutside]
  | case9 visited node segment bare =>
    rw [follow, same.table]
    split
    · rename_i table origin has mapped
      exact absurd mapped (bare table origin has)
    · rfl

/-- A position is traced alike in two chains whose nodes differ in their texts only. -/
theorem trace_alike (line column : UInt32) :
    other.trace line column = chain.trace line column := by
  have roots : Option.Rel Node.Alike chain.root? other.root? := Itemwise.rel_getElem? alike rootId
  simp only [trace, followRoot]
  generalize chain.root? = root, other.root? = twin at roots
  cases roots with
  | none => rfl
  | some same =>
    rename_i root twin
    simp only [Option.bind_eq_bind, Option.bind_some, same.table]
    cases root.table with
    | none => rfl
    | some table =>
      simp only [Option.bind_some]
      cases table.lookup line column with
      | none => rfl
      | some segment =>
        have walked : (other.follow [rootId] twin segment).map (·.location) =
            (chain.follow [rootId] root segment).map (·.location) :=
          location_follow_alike alike same
        rw [Option.map_eq_bind, Option.map_eq_bind] at walked
        exact walked

end Chain

/-- Rewording changes one text at most. -/
theorem Chain.alike_reworded (chain : Chain) (text : String) :
    List.Forall₂ Node.Alike chain.nodes (chain.reworded text).nodes := by
  have reflexive (nodes : List Node) : List.Forall₂ Node.Alike nodes nodes :=
    List.forall₂_same.mpr fun _ _ => ⟨rfl, rfl, rfl⟩
  obtain ⟨nodes, cwd⟩ := chain
  cases nodes with
  | nil => exact .nil
  | cons root nodes => exact .cons ⟨rfl, rfl, rfl⟩ (reflexive nodes)

end MapChain
