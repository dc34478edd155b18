import MapChain.Chain.Trace
import MapChain.Proofs.Chain.Described

/-!
# Chains of locations

A chain that is built in a location speaks of locations only: the paths of its nodes and of
its unresolved sources are locations, so tracing ends at locations too. Its tables are in
order. What is said here of a walk is what flattening needs to write its ends down.
-/

namespace MapChain

/-- A hit at a location, on a line counted from one. -/
structure Hit.IsLocated (hit : Hit) : Prop where
  source : hit.location.source.IsLocation
  counted : hit.location.line ≠ 0

/-- Another name changes no location. -/
theorem Hit.IsLocated.named {hit : Hit} (located : hit.IsLocated) (name : Option String) :
    (hit.named name).IsLocated := ⟨located.source, located.counted⟩

/-- The line that follows is one further, or the last that can be counted. -/
theorem nextLine_toNat (line : UInt32) :
    (nextLine line).toNat = min (line.toNat + 1) (UInt32.size - 1) := by
  have bound : line.toNat < UInt32.size := line.toNat_lt
  by_cases last : line = 0xFFFFFFFF
  · simp [nextLine, last, UInt32.size]
  · have less : line.toNat ≠ UInt32.size - 1 := by
      intro same
      exact last (UInt32.toNat_inj.mp same)
    rw [nextLine, if_neg last, UInt32.toNat_add]
    simp only [UInt32.size] at *
    simp only [UInt32.toNat_one]
    omega

/-- A line is followed by the next one, if that can be counted. -/
theorem nextLine_eq {line next : UInt32} (follows : line.toNat + 1 = next.toNat) :
    nextLine line = next := by
  have bound : next.toNat < UInt32.size := next.toNat_lt
  apply UInt32.toNat_inj.mp
  rw [nextLine_toNat]
  omega

/-- No line is followed by line zero. -/
theorem nextLine_ne_zero (line : UInt32) : nextLine line ≠ 0 := by
  intro zero
  have least := nextLine_toNat line
  rw [zero, UInt32.toNat_zero, UInt32.size] at least
  omega

/-- Being at a location passes from a file to those that its map leads to. -/
theorem Workspace.passes_isLocation (workspace : Workspace) :
    workspace.Passes (fun path _ => path.IsLocation) fun _ => True := by
  intro path content link entry text location found _ _ _
  have absolute := workspace.absolute_link_directory found location.absolute
  exact Path.isLocation_resolve _ _ absolute

namespace Chain

/-- A chain that was built, from the file at a path or from a text of its own. -/
def IsBuilt (workspace : Workspace) (chain : Chain) : Prop :=
  (∃ root, build workspace root = .ok chain) ∨
    ∃ content, buildContent workspace content = .ok chain

/-- A chain that speaks of locations and whose tables are in order. -/
structure IsLocated (chain : Chain) : Prop where
  directory : chain.cwd.IsLocation
  nodes : ∀ node ∈ chain.nodes, node.path.IsLocation
  unresolved : ∀ node ∈ chain.nodes, ∀ path, .unresolved path ∈ node.children → path.IsLocation
  ordered : ∀ node ∈ chain.nodes, ∀ table ∈ node.table, table.IsOrdered

/-- A chain below a location is a chain of locations. -/
theorem isLocated_of_chain {workspace : Workspace} {path : Path} {content : String}
    {chain : Chain} (directory : workspace.provider.cwd.IsLocation) (location : path.IsLocation)
    (built : workspace.chain path content = .ok chain) : chain.IsLocated := by
  have described := isDescribed_of_chain workspace.passes_isLocation built location
    fun _ _ => trivial
  refine ⟨?_, fun node member => (described.nodes node member).1, ?_, ?_⟩
  · obtain ⟨_, _, _, rfl⟩ := workspace.chain_cases built
    exact directory
  · intro node member path unresolved
    obtain ⟨location, describes⟩ := described.nodes node member
    cases describes with
    | leaf _ _ childless => simp [childless] at unresolved
    | mapped link found _ children =>
      obtain ⟨entry, _, became⟩ := Itemwise.exists_of_mem_right children unresolved
      have absolute := workspace.absolute_link_directory found location.absolute
      cases became
      exact Path.isLocation_resolve _ _ absolute
  · intro node member table has
    cases (described.nodes node member).2 with
    | leaf _ bare _ => simp [bare] at has
    | mapped link found own _ =>
      obtain rfl : link.table = table := by simpa [own] using has
      exact (workspace.isWellFormed_link_table found).ordered

/-- A chain that was built for the file at `path`: the file that was asked for, or the one that
a text without a file stands for. -/
def IsBuiltAt (workspace : Workspace) (path : Path) (chain : Chain) : Prop :=
  (∃ root, path = workspace.provider.cwd.resolve root ∧ build workspace root = .ok chain) ∨
    path = workspace.provider.cwd.under .anonymous ∧
      ∃ content, buildContent workspace content = .ok chain

/-- A chain that was built was built for some file. -/
theorem IsBuilt.exists_isBuiltAt {workspace : Workspace} {chain : Chain}
    (built : IsBuilt workspace chain) : ∃ path, IsBuiltAt workspace path chain := by
  rcases built with ⟨root, built⟩ | ⟨content, built⟩
  · exact ⟨_, .inl ⟨root, rfl, built⟩⟩
  · exact ⟨_, .inr ⟨rfl, content, built⟩⟩

/-- A chain that was built for a file is the chain of the file with some text. -/
theorem IsBuiltAt.exists_chain {workspace : Workspace} {path : Path} {chain : Chain}
    (built : IsBuiltAt workspace path chain) :
    ∃ content, workspace.chain path content = .ok chain := by
  rcases built with ⟨root, rfl, built⟩ | ⟨rfl, content, built⟩
  · obtain ⟨content, _, rest⟩ := Itemwise.exists_of_bind_eq_ok built
    exact ⟨content, rest⟩
  · exact ⟨content, built⟩

/-- The file that a chain was built for lies at a location if the working directory does. -/
theorem IsBuiltAt.isLocation {workspace : Workspace} {path : Path} {chain : Chain}
    (built : IsBuiltAt workspace path chain) (directory : workspace.provider.cwd.IsLocation) :
    path.IsLocation := by
  rcases built with ⟨root, rfl, _⟩ | ⟨rfl, _⟩
  · exact Path.isLocation_resolve _ root directory.absolute
  · exact Path.isLocation_under _ .anonymous directory Path.named_anonymous

/-- A chain that is built in a location is a chain of locations. -/
theorem isLocated_of_built {workspace : Workspace} {chain : Chain}
    (directory : workspace.provider.cwd.IsLocation) (built : IsBuilt workspace chain) :
    chain.IsLocated := by
  obtain ⟨path, built⟩ := built.exists_isBuiltAt
  obtain ⟨content, made⟩ := built.exists_chain
  exact isLocated_of_chain directory (built.isLocation directory) made

/-- Walks in a chain of locations end at locations, on a line that is counted. -/
theorem isLocated_of_follow {chain : Chain} (located : chain.IsLocated) {visited : List Nat}
    {node : Node} {segment : Segment} {hit : Hit} (member : node ∈ chain.nodes)
    (found : chain.follow visited node segment = some hit) : hit.IsLocated := by
  fun_induction follow chain visited node segment generalizing hit with
  | case3 visited node segment table origin =>
    rename_i path child
    obtain rfl := Option.some.inj found
    have inside : .unresolved path ∈ node.children := List.mem_of_getElem? child
    exact ⟨located.unresolved node member path inside, nextLine_ne_zero origin.line⟩
  | case4 visited node segment table origin =>
    rename_i stored _ _
    obtain rfl := Option.some.inj found
    exact ⟨located.nodes _ (List.getElem_mem stored), nextLine_ne_zero origin.line⟩
  | case5 visited node segment table origin =>
    rename_i stored _ _ _ _
    obtain rfl := Option.some.inj found
    exact ⟨located.nodes _ (List.getElem_mem stored), nextLine_ne_zero origin.line⟩
  | case7 =>
    rename_i name _ _ stored _ _ _ _ _ _ inductionHypothesis
    obtain ⟨deeper, walked, rfl⟩ := Option.map_eq_some_iff.mp found
    exact (inductionHypothesis (List.getElem_mem stored) walked).named name
  | _ => simp at found

end Chain

end MapChain
