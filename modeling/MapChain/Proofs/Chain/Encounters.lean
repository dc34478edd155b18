import MapChain.Proofs.Chain.Acyclic
import MapChain.Proofs.Chain.Files

/-!
# First encounters

A walk through a chain in depth-first order goes from the root to its children from left to
right, and below each of them before it goes on to the next. It comes to every node that can
be reached, the first time on some branch, and nodes are numbered in the order in which it
comes to them.

The walk only looks at the nodes and children of the chain. That it meets them in this order
is proved along the numbering of the tree that the chain was made from. A tree that is
numbered behind some nodes is walked when just these have been met, and the walk meets the
nodes that the tree adds, one after the other; each on the branch that its file was resolved
on.
-/

namespace MapChain

namespace Chain

/-- Where a child is met below a branch, if it is a node: its number and the branch. -/
def below? (branch : List Nat) : Child → Option (Nat × List Nat)
  | .resolved id => some (id, branch)
  | .unresolved _ | .blank => none

/-- The nodes that a walk comes to for the first time, each with the numbers on the branch
above it. `met` holds the numbers of the nodes that have been met, and `agenda` what is
still to be walked. -/
def encounter (chain : Chain) (met : List Nat) :
    (agenda : List (Nat × List Nat)) → List (Nat × List Nat)
  | [] => []
  | (id, above) :: agenda =>
    if fresh : id < chain.nodes.length ∧ id ∉ met then
      (id, above) :: chain.encounter (id :: met)
        (chain.nodes[id].children.filterMap (below? (id :: above)) ++ agenda)
    else chain.encounter met agenda
termination_by agenda => ((chain.unvisited met).length, agenda.length)
decreasing_by
  · exact .left _ _ (chain.unvisited_length_lt met id fresh.1 fresh.2)
  · exact .right _ (Nat.lt_succ_self agenda.length)

/-- The first encounters of a walk from the root, in their order. -/
def encounters (chain : Chain) : List (Nat × List Nat) := chain.encounter [] [(rootId, [])]

/-- A branch of walks: it starts at the root, and every node on it leads to the next one. -/
inductive IsBranch (chain : Chain) : List Nat → Prop where
  | root : IsBranch chain [rootId]
  | step (id here : Nat) (above : List Nat) (walked : IsBranch chain (here :: above))
      (leads : chain.LeadsTo here id) : IsBranch chain (id :: here :: above)

/-- What a walk meets it meets on a branch. -/
theorem isBranch_of_mem_encounter {chain : Chain} {met : List Nat}
    {agenda : List (Nat × List Nat)}
    (walked : ∀ entry ∈ agenda, chain.IsBranch (entry.1 :: entry.2))
    {entry : Nat × List Nat} (member : entry ∈ chain.encounter met agenda) :
    chain.IsBranch (entry.1 :: entry.2) := by
  fun_induction encounter chain met agenda with
  | case1 => simp at member
  | case2 met id above agenda fresh inductionHypothesis =>
    have own := walked (id, above) (by simp)
    rcases List.mem_cons.mp member with rfl | member
    · exact own
    · refine inductionHypothesis ?_ member
      intro other inside
      rcases List.mem_append.mp inside with child | later
      · obtain ⟨child, listed, below⟩ := List.mem_filterMap.mp child
        cases child with
        | resolved next =>
          obtain rfl := Option.some.inj below
          exact .step next id above own ⟨_, List.getElem?_eq_getElem fresh.1, listed⟩
        | unresolved path => simp [below?] at below
        | blank => simp [below?] at below
      · exact walked other (by simp [later])
  | case3 met id above agenda stale inductionHypothesis =>
    exact inductionHypothesis (fun other inside => walked other (by simp [inside])) member

/-- The root leads to everything on a branch. -/
theorem reachable_of_isBranch {chain : Chain} {id : Nat} {above : List Nat}
    (branch : chain.IsBranch (id :: above)) : Relation.ReflTransGen chain.LeadsTo rootId id := by
  generalize walked : id :: above = numbers at branch
  induction branch generalizing id above with
  | root =>
    obtain ⟨rfl, _⟩ := List.cons.inj walked
    exact .refl
  | step next here above' _ leads inductionHypothesis =>
    obtain ⟨rfl, _⟩ := List.cons.inj walked
    exact (inductionHypothesis rfl).tail leads

section Meeting

variable {Holds : List Path → Resolution → Prop} {chain : Chain}

/-- A node that is met on a branch and was made from a file with a property below that branch. -/
def IsMetBelow (Holds : List Path → Resolution → Prop) (chain : Chain)
    (entry : Nat × List Nat) : Prop :=
  ∃ node branch trees, chain.nodes[entry.1]? = some node ∧ chain.Visits entry.2 branch ∧
    Holds branch (.file node.path node.content node.table trees) ∧
    List.Forall₂ (Resolution.Numbered (Resolution.paths chain.nodes)) trees node.children

/-- A walk that goes on with some children below a branch, when just the first nodes have been
met, meets the next nodes one after the other. -/
structure Meets (Holds : List Path → Resolution → Prop) (chain : Chain) (above : List Nat)
    (first count : Nat) (children : List Child) (found : List (Nat × List Nat)) : Prop where
  walks : ∀ agenda, chain.encounter (List.range first).reverse
      (children.filterMap (below? above) ++ agenda) =
    found ++ chain.encounter (List.range (first + count)).reverse agenda
  numbers : found.map (·.1) = List.range' first count
  made : ∀ entry ∈ found, chain.IsMetBelow Holds entry

/-- Nothing is met in a child that is no node. -/
theorem meets_nothing {above : List Nat} {child : Child} (first : Nat)
    (nowhere : below? above child = none) : Meets Holds chain above first 0 [child] [] := by
  refine ⟨?_, rfl, by simp⟩
  intro agenda
  simp [nowhere]

/-- Nothing new is met in a node that has been met. -/
theorem meets_again {above : List Nat} {first id : Nat} (known : id < first) :
    Meets Holds chain above first 0 [.resolved id] [] := by
  refine ⟨?_, rfl, by simp⟩
  intro agenda
  simp [below?, encounter, known]

/-- The children behind the first one are walked when that has been walked. -/
theorem Meets.cons {above : List Nat} {first count more : Nat} {child : Child}
    {children : List Child} {found later : List (Nat × List Nat)}
    (early : Meets Holds chain above first count [child] found)
    (late : Meets Holds chain above (first + count) more children later) :
    Meets Holds chain above first (count + more) (child :: children) (found ++ later) := by
  constructor
  · intro agenda
    have parted : (child :: children).filterMap (below? above) =
        [child].filterMap (below? above) ++ children.filterMap (below? above) := by
      rw [← List.filterMap_append]
      rfl
    rw [parted, List.append_assoc, early.walks, late.walks, List.append_assoc, Nat.add_assoc]
  · rw [List.map_append, early.numbers, late.numbers, List.range'_append_1]
  · intro entry member
    rcases List.mem_append.mp member with inside | inside
    · exact early.made entry inside
    · exact late.made entry inside

/-- A node that is new is met before all that is below it. -/
theorem meets_node {above : List Nat} {first count : Nat} {node : Node}
    {found : List (Nat × List Nat)} (stored : chain.nodes[first]? = some node)
    (made : chain.IsMetBelow Holds (first, above))
    (below : Meets Holds chain (first :: above) (first + 1) count node.children found) :
    Meets Holds chain above first (count + 1) [.resolved first] ((first, above) :: found) := by
  obtain ⟨inside, own⟩ := List.getElem?_eq_some_iff.mp stored
  constructor
  · intro agenda
    have fresh : first < chain.nodes.length ∧ first ∉ (List.range first).reverse :=
      ⟨inside, by simp⟩
    have met : first :: (List.range first).reverse = (List.range (first + 1)).reverse := by
      simp [List.range_succ]
    have listed : [Child.resolved first].filterMap (below? above) ++ agenda =
        (first, above) :: agenda := rfl
    rw [listed, encounter, dif_pos fresh, met, own, below.walks, Nat.add_right_comm]
    rfl
  · rw [List.map_cons, below.numbers, List.range'_succ]
  · intro entry member
    rcases List.mem_cons.mp member with rfl | member
    · exact made
    · exact below.made entry member

/-- A chain that holds some nodes behind others of known paths. Nodes in front may lack children
that the chain has, as a node gets them only when all that is below it is numbered. -/
def Continues (chain : Chain) (nodes added : List Node) : Prop :=
  ∃ front behind, chain.nodes = front ++ added ++ behind ∧
    Resolution.paths front = Resolution.paths nodes

/-- The nodes that two trees add stand behind one another. -/
theorem Continues.parts {nodes first rest : List Node}
    (continues : chain.Continues nodes (first ++ rest)) :
    chain.Continues nodes first ∧ chain.Continues (nodes ++ first) rest := by
  obtain ⟨front, behind, whole, same⟩ := continues
  constructor
  · exact ⟨front, rest ++ behind, by simp [whole], same⟩
  · exact ⟨front ++ first, behind, by simp [whole], by simpa [Resolution.paths] using same⟩

/-- The node of a file stands where it was added, and what is below it behind it. -/
theorem Continues.file {nodes more : List Node} {path : Path} {content : String}
    {table : Option Table} {children : List Child}
    (continues : chain.Continues nodes (⟨path, content, table, children⟩ :: more)) :
    chain.nodes[nodes.length]? = some ⟨path, content, table, children⟩ ∧
      chain.Continues (nodes ++ [⟨path, content, table, []⟩]) more := by
  obtain ⟨front, behind, whole, same⟩ := continues
  have count : front.length = nodes.length := by
    simpa [Resolution.paths] using congrArg List.length same
  constructor
  · simp [whole, ← count]
  · refine ⟨front ++ [⟨path, content, table, children⟩], behind, by simp [whole], ?_⟩
    simpa [Resolution.paths] using same

/-- The paths of the nodes up to some place are the chain's first paths. -/
theorem Continues.exists_paths {nodes added : List Node}
    (continues : chain.Continues nodes added) :
    ∃ behind, Resolution.paths chain.nodes = Resolution.paths (nodes ++ added) ++ behind := by
  obtain ⟨front, behind, whole, same⟩ := continues
  refine ⟨Resolution.paths behind, ?_⟩
  simpa [whole, Resolution.paths] using same

mutual

/-- A tree that is numbered is walked when the nodes in front of its own have been met. What is
met below a branch was resolved below the branch's paths. -/
theorem exists_meets_of_intern
    (hereditary : Resolution.IsHereditary Holds fun _ => True) (nodes added : List Node)
    (child : Child) (above : List Nat) (branch : List Path) (visits : chain.Visits above branch)
    (placed : ∀ path ∈ branch, path ∈ Resolution.paths nodes)
    (continues : chain.Continues nodes added) :
    (tree : Resolution) → Holds branch tree → tree.intern nodes = (nodes ++ added, child) →
      ∃ found, Meets Holds chain above nodes.length added.length [child] found
  | .file path content table trees, holds, done => by
    rcases Resolution.intern_file_cases done with
      ⟨id, known, rfl, rfl⟩ | ⟨_, more, numbers, below, rfl, rfl⟩
    · obtain ⟨stored, _⟩ := List.findIdx?_eq_some_iff_getElem.mp known
      exact ⟨[], meets_again stored⟩
    · obtain ⟨stored, deeper⟩ := continues.file
      have here : (Resolution.paths chain.nodes)[nodes.length]? = some path := by
        simp [Resolution.paths, stored]
      have branchPlaced := Resolution.placed_cons placed ⟨path, content, table, []⟩
      have handed := hereditary.children branch path content table trees holds trivial
      have made : chain.IsMetBelow Holds (nodes.length, above) := by
        have interned := Resolution.internAll_made hereditary _ more numbers (path :: branch)
          branchPlaced trees handed below fun _ _ => trivial
        obtain ⟨behind, parted⟩ := deeper.exists_paths
        refine ⟨_, branch, trees, stored, visits, holds, ?_⟩
        exact parted ▸ interned.numbered.imp fun _ _ each => each.append behind
      obtain ⟨found, meets⟩ := exists_meets_of_internAll hereditary _ more numbers
        (nodes.length :: above) (path :: branch) (.cons here visits) branchPlaced deeper trees
        handed below
      rw [List.length_append] at meets
      exact ⟨_, meets_node stored made meets⟩
  | .ancestor path, holds, done => by
    obtain ⟨id, known, rfl, rfl⟩ :=
      Resolution.intern_ancestor_cases (placed path (hereditary.ancestor branch path holds)) done
    obtain ⟨stored, _⟩ := List.findIdx?_eq_some_iff_getElem.mp known
    exact ⟨[], meets_again stored⟩
  | .unresolved path, _, done => by
    simp only [Resolution.intern, Prod.mk.injEq, List.self_eq_append_right] at done
    obtain ⟨rfl, rfl⟩ := done
    exact ⟨[], meets_nothing _ rfl⟩
  | .blank, _, done => by
    simp only [Resolution.intern, Prod.mk.injEq, List.self_eq_append_right] at done
    obtain ⟨rfl, rfl⟩ := done
    exact ⟨[], meets_nothing _ rfl⟩

/-- Several trees that are numbered one after the other are walked when the nodes in front of theirs
have been met. -/
theorem exists_meets_of_internAll
    (hereditary : Resolution.IsHereditary Holds fun _ => True) (nodes added : List Node)
    (children : List Child) (above : List Nat) (branch : List Path)
    (visits : chain.Visits above branch)
    (placed : ∀ path ∈ branch, path ∈ Resolution.paths nodes)
    (continues : chain.Continues nodes added) :
    (trees : List Resolution) → (∀ tree ∈ trees, Holds branch tree) →
      Resolution.internAll nodes trees = (nodes ++ added, children) →
      ∃ found, Meets Holds chain above nodes.length added.length children found
  | [], _, done => by
    simp only [Resolution.internAll, Prod.mk.injEq, List.self_eq_append_right] at done
    obtain ⟨rfl, rfl⟩ := done
    exact ⟨[], fun _ => rfl, rfl, by simp⟩
  | tree :: trees, hold, done => by
    obtain ⟨first, rest, child, others, firstDone, restDone, rfl, rfl⟩ :=
      Resolution.internAll_cons_cases done
    obtain ⟨own, further⟩ := continues.parts
    obtain ⟨found, early⟩ := exists_meets_of_intern hereditary nodes first child above branch
      visits placed own tree (hold tree (by simp)) firstDone
    obtain ⟨later, late⟩ := exists_meets_of_internAll hereditary (nodes ++ first) rest others above
      branch visits (Resolution.placed_append placed first) further trees
      (fun other member => hold other (by simp [member])) restDone
    rw [List.length_append] at late
    exact ⟨found ++ later, List.length_append ▸ early.cons late⟩

end

end Meeting

/-- A walk through a chain that was built comes to every node, in the order of their numbers,
and each node was made from a file that was resolved below the branch it is met on. -/
theorem encounters_of_chain {workspace : Workspace} {Fits : Path → String → Prop}
    (passes : workspace.Passes Fits fun _ => True) {path : Path} {content : String}
    {chain : Chain} (built : workspace.chain path content = .ok chain) (fits : Fits path content) :
    chain.encounters.map (·.1) = List.range chain.nodes.length ∧
      ∀ entry ∈ chain.encounters, chain.IsMetBelow (workspace.Grown Fits) entry := by
  obtain ⟨depth, tree, resolved, made⟩ := workspace.chain_cases built
  obtain ⟨table, trees, rfl⟩ := workspace.exists_file_of_resolve resolved
  obtain ⟨more, numbers, below⟩ :=
    Resolution.internAll_grows ([] ++ [⟨path, content, table, []⟩]) trees
  have interned := Resolution.intern_file_new content table trees rfl more numbers below
  have nodes : chain.nodes = ⟨path, content, table, numbers⟩ :: more := by
    simp [made, ofTree, interned]
  have whole : chain.Continues [] (⟨path, content, table, numbers⟩ :: more) :=
    ⟨[], [], by simp [nodes], rfl⟩
  have grown : workspace.Grown Fits [] (.file path content table trees) := ⟨fits, depth, resolved⟩
  obtain ⟨found, meets⟩ := exists_meets_of_intern (Workspace.isHereditary_grown passes) [] _ _ []
    [] .nil (by simp) whole _ grown interned
  have walked : chain.encounters = found := by
    simpa [encounters, encounter, below?, rootId] using meets.walks []
  rw [walked]
  refine ⟨?_, meets.made⟩
  rw [meets.numbers, nodes, List.range_eq_range']
  rfl

end Chain

end MapChain
