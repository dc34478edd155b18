import MapChain.Proofs.Chain.Located
import MapChain.Store.Memory

/-!
# Tracing from file to file

Tracing can do without a chain. At a file it takes the map of the file and the segment that
covers the position, goes to the source that the segment names, and goes on in there with
the files on its branch kept in mind. It stops at a source that has no map to follow or
that is on the branch. `Traces` is this way of tracing, one `stride` at a file.

Where no map carries the texts of its sources, the text of a path does not hang on where
the path was met. Then tracing the numbered files of a chain comes to the same ends: the
chain has one node for a path, whose children are what every file at the path leads to,
and a walk has come through a node exactly if the branch holds its path.
-/

namespace MapChain

/-- The location with a name for want of a deeper one. -/
def Location.named (location : Location) (name : Option String) : Location :=
  { location with name := location.name <|> name }

/-- What tracing comes to at one file. -/
inductive Stride where
  | ends (result : Option Location)
  /-- Tracing goes on at a location, whose name is the one met so far. -/
  | enters (next : Location)

namespace Workspace

variable (workspace : Workspace)

/-- The map of the file at a path, if there is text at the path and the text has a map. -/
def mapOf? (path : Path) : Option Link :=
  match workspace.text path with
  | .error _ => none
  | .ok content =>
    match workspace.link? path content with
    | .error _ => none
    | .ok link => link

/-- What a segment of a map comes to. `branch` holds the paths from the file with the map up
to the root. -/
def strideFrom (branch : List Path) (link : Link) (segment : Segment) : Stride :=
  match segment.origin with
  | none => .ends none
  | some origin =>
    match link.table.source? origin.source with
    | none => .ends none
    | some source =>
      if source.toList.all Text.isBlank then .ends none
      else
        let target := link.directory.resolve (.ofText source)
        let location : Location :=
          ⟨target, nextLine origin.line, origin.column, origin.name.bind link.table.name?⟩
        if target ∈ branch ∨ workspace.mapOf? target = none then .ends (some location)
        else .enters location

/-- What a position of the file that a branch starts with comes to. -/
def stride (branch : List Path) (path : Path) (line column : UInt32) : Stride :=
  match workspace.mapOf? path with
  | none => .ends none
  | some link =>
    match link.table.lookup line column with
    | none => .ends none
    | some segment => workspace.strideFrom branch link segment

/-- Where tracing a position of a file below a branch ends, from file to file. -/
inductive Traces : List Path → Path → UInt32 → UInt32 → Option Location → Prop where
  | ends (above : List Path) (path : Path) (line column : UInt32) (result : Option Location)
      (last : workspace.stride (path :: above) path line column = .ends result) :
      Traces above path line column result
  | enters (above : List Path) (path : Path) (line column : UInt32) (next : Location)
      (result : Option Location)
      (step : workspace.stride (path :: above) path line column = .enters next)
      (deeper : Traces (path :: above) next.source next.line next.column result) :
      Traces above path line column (result.map (·.named next.name))

variable {workspace}

/-- Tracing from file to file ends at one place at most. -/
theorem Traces.unique {above : List Path} {path : Path} {line column : UInt32}
    {first second : Option Location} (one : workspace.Traces above path line column first)
    (other : workspace.Traces above path line column second) : first = second := by
  induction one generalizing second with
  | ends above path line column result last =>
    cases other with
    | ends _ _ _ _ _ otherLast => exact Stride.ends.inj (last.symm.trans otherLast)
    | enters _ _ _ _ _ _ step _ => exact absurd (last.symm.trans step) (by simp)
  | enters above path line column next result step deeper inductionHypothesis =>
    cases other with
    | ends _ _ _ _ _ otherLast => exact absurd (step.symm.trans otherLast) (by simp)
    | enters _ _ _ _ otherNext _ otherStep otherDeeper =>
      obtain rfl := Stride.enters.inj (step.symm.trans otherStep)
      rw [inductionHypothesis otherDeeper]

/-- Without a text to be had, there is no map. -/
theorem mapOf?_eq_none_of_sourceText? {path : Path}
    (missing : workspace.sourceText? path none = .ok none) : workspace.mapOf? path = none := by
  simp only [sourceText?] at missing
  simp only [mapOf?, text]
  cases given : workspace.given? path with
  | some text => simp [given] at missing
  | none =>
    simp only [given] at missing ⊢
    split at missing
    · simp at missing
    · simp at missing
    · rename_i read
      simp [read]

/-- Where no texts are carried, every file that a map leads to has the text at its path. -/
theorem passes_text (workspace : Workspace) :
    workspace.Passes (fun path content => workspace.text path = .ok content)
      fun table => ∀ own ∈ table, ∀ carried ∈ own.contents, carried = none := by
  intro path content link entry text _ _ bare listed found
  have carried : entry.2 = none := bare link.table rfl entry.2 (List.of_mem_zip listed).2
  exact (workspace.sourceText?_cases found).resolve_right (by simp [carried])

/-- At a file with a map, a stride is that from the segment that covers the position. -/
theorem stride_eq_strideFrom {branch : List Path} {path : Path} {line column : UInt32}
    {link : Link} {segment : Segment} (mapped : workspace.mapOf? path = some link)
    (covering : link.table.lookup line column = some segment) :
    workspace.stride branch path line column = workspace.strideFrom branch link segment := by
  simp only [stride, mapped, covering]

/-- A position that nothing covers ends a trace without a location. -/
theorem stride_uncovered {branch : List Path} {path : Path} {line column : UInt32} {link : Link}
    (mapped : workspace.mapOf? path = some link)
    (uncovered : link.table.lookup line column = none) :
    workspace.stride branch path line column = .ends none := by
  simp only [stride, mapped, uncovered]

/-- A marker ends a trace without a location. -/
theorem strideFrom_unmapped (branch : List Path) (link : Link) {segment : Segment}
    (unmapped : segment.origin = none) :
    workspace.strideFrom branch link segment = .ends none := by
  simp only [strideFrom, unmapped]

/-- A source without a name ends a trace without a location. -/
theorem strideFrom_blank (branch : List Path) {link : Link} {segment : Segment}
    {origin : Origin} {source : String} (mapped : segment.origin = some origin)
    (has : link.table.source? origin.source = some source)
    (void : source.toList.all Text.isBlank = true) :
    workspace.strideFrom branch link segment = .ends none := by
  simp only [strideFrom, mapped, has, void, if_true]

/-- At a source with a name a trace stops, if it is on the branch or has no map, or goes on. -/
theorem strideFrom_named (branch : List Path) {link : Link} {segment : Segment}
    {origin : Origin} {source : String} (mapped : segment.origin = some origin)
    (has : link.table.source? origin.source = some source)
    (named : ¬source.toList.all Text.isBlank = true) {target : Path}
    (seen : target = link.directory.resolve (.ofText source)) {location : Location}
    (same : location = ⟨target, nextLine origin.line, origin.column,
      origin.name.bind link.table.name?⟩) :
    workspace.strideFrom branch link segment =
      if target ∈ branch ∨ workspace.mapOf? target = none then .ends (some location)
      else .enters location := by
  subst seen same
  simp only [strideFrom, mapped, has, if_neg named]

end Workspace

namespace Chain

variable {workspace : Workspace} {Fits : Path → String → Prop} {path : Path} {content : String}
  {chain : Chain}

/-- The origin of a well-formed table that carries no texts names a source, and the source
became a child. -/
theorem exists_child_of_origin {known : List Path} {directory : Path} {table : Table}
    {children : List Child} (wellFormed : table.IsWellFormed)
    (bare : ∀ carried ∈ table.contents, carried = none)
    (became : List.Forall₂ (workspace.Becomes known directory)
      (table.sources.zip table.contents) children) {origin : Origin}
    (inside : origin.source.toNat < table.sources.length) :
    ∃ source child, table.source? origin.source = some source ∧
      children[origin.source.toNat]? = some child ∧
      workspace.Becomes known directory (source, none) child := by
  have carries : origin.source.toNat < table.contents.length := wellFormed.carried ▸ inside
  have entry : (table.sources.zip table.contents)[origin.source.toNat]? =
      some (table.sources[origin.source.toNat], none) := by
    have listed : origin.source.toNat < (table.sources.zip table.contents).length := by
      rw [List.length_zip]
      omega
    rw [List.getElem?_eq_getElem listed, List.getElem_zip, bare _ (List.getElem_mem carries)]
  have related := Itemwise.rel_getElem? became origin.source.toNat
  rw [entry] at related
  generalize has : children[origin.source.toNat]? = child at related
  cases related with
  | some became => exact ⟨_, _, List.getElem?_eq_getElem inside, rfl, became⟩

/-- A node without a table is of a file without a map. -/
theorem mapOf?_of_leaf (described : chain.IsDescribed workspace
      (fun path content => workspace.text path = .ok content) path content) {node : Node}
    (member : node ∈ chain.nodes) (leaf : node.table = none) :
    workspace.mapOf? node.path = none := by
  obtain ⟨text, describes⟩ := described.nodes node member
  cases describes with
  | leaf unmapped _ _ => simp [Workspace.mapOf?, text, unmapped]
  | mapped _ _ has _ => simp [leaf] at has

/-- A node with a table is of a file with a map. -/
theorem exists_mapOf?_of_table (described : chain.IsDescribed workspace
      (fun path content => workspace.text path = .ok content) path content) {node : Node}
    (member : node ∈ chain.nodes) {table : Table} (has : node.table = some table) :
    ∃ link, workspace.mapOf? node.path = some link ∧ link.table = table ∧
      table.IsWellFormed ∧ List.Forall₂
        (workspace.Becomes (Resolution.paths chain.nodes) link.directory)
        (table.sources.zip table.contents) node.children := by
  obtain ⟨text, describes⟩ := described.nodes node member
  cases describes with
  | leaf _ bare _ => simp [bare] at has
  | mapped link found own children =>
    obtain rfl : link.table = table := by simpa [own] using has
    refine ⟨link, ?_, rfl, workspace.isWellFormed_link_table found, children⟩
    simp [Workspace.mapOf?, text, found]

/-- The nodes that a walk has come through are those of the paths on a branch. -/
def Visits (chain : Chain) (visited : List Nat) (branch : List Path) : Prop :=
  List.Forall₂ (fun id path => (Resolution.paths chain.nodes)[id]? = some path) visited branch

/-- The node that stands at a number has the number's path. -/
theorem getElem?_paths (chain : Chain) {id : Nat} (stored : id < chain.nodes.length) :
    (Resolution.paths chain.nodes)[id]? = some chain.nodes[id].path := by
  simp [Resolution.paths, List.getElem?_eq_getElem stored]

/-- A node is visited exactly if its path is on the branch. -/
theorem mem_branch_iff (distinct : (Resolution.paths chain.nodes).Nodup) {visited : List Nat}
    {branch : List Path} (visits : chain.Visits visited branch) {id : Nat}
    (stored : id < chain.nodes.length) : chain.nodes[id].path ∈ branch ↔ id ∈ visited := by
  constructor
  · intro member
    obtain ⟨other, inside, found⟩ := Itemwise.exists_of_mem_right visits member
    have known : id < (Resolution.paths chain.nodes).length := by
      simpa [Resolution.paths] using stored
    have same := (List.getElem?_inj known distinct).mp
      ((chain.getElem?_paths stored).trans found.symm)
    exact same ▸ inside
  · intro member
    obtain ⟨path, inside, found⟩ := Itemwise.exists_of_mem_right (List.Forall₂.flip visits) member
    obtain rfl := Option.some.inj ((chain.getElem?_paths stored).symm.trans found)
    exact inside

section Strides

variable (described : chain.IsDescribed workspace
    (fun path content => workspace.text path = .ok content) path content)
  (bare : ∀ node ∈ chain.nodes, ∀ table ∈ node.table, ∀ carried ∈ table.contents, carried = none)
  {node : Node} (member : node ∈ chain.nodes) {table : Table} (has : node.table = some table)
  {line column : UInt32} {segment : Segment} (covering : table.lookup line column = some segment)
  {origin : Origin} (mapped : segment.origin = some origin)

include described bare member has covering mapped

/-- The segment that covers a position of a node names a source of the file's map, and the
source became a child of the node. -/
theorem exists_source_of_origin : ∃ link source child,
    workspace.mapOf? node.path = some link ∧ link.table = table ∧
      table.source? origin.source = some source ∧
      node.children[origin.source.toNat]? = some child ∧
      workspace.Becomes (Resolution.paths chain.nodes) link.directory (source, none) child := by
  obtain ⟨link, found, same, wellFormed, became⟩ := exists_mapOf?_of_table described member has
  obtain ⟨segments, listed, inside⟩ := Table.exists_line_of_lookup covering
  have valid := (wellFormed.valid segments listed segment inside origin mapped).1
  obtain ⟨source, child, named, stands, each⟩ :=
    exists_child_of_origin wellFormed (bare node member table has) became valid
  exact ⟨link, source, child, found, same, named, stands, each⟩

/-- At a node, a stride to a source without a name ends nowhere. -/
theorem stride_of_blank (branch : List Path)
    (blank : node.children[origin.source.toNat]? = some .blank) :
    workspace.stride branch node.path line column = .ends none := by
  obtain ⟨link, source, child, found, rfl, named, stands, became⟩ :=
    exists_source_of_origin described bare member has covering mapped
  obtain rfl := Option.some.inj (blank.symm.trans stands)
  rw [Workspace.stride_eq_strideFrom found covering]
  cases became with
  | blank void => exact Workspace.strideFrom_blank branch mapped named void

/-- A stride to a source without text ends there. -/
theorem stride_of_unresolved (branch : List Path) {target : Path}
    (unresolved : node.children[origin.source.toNat]? = some (.unresolved target)) :
    workspace.stride branch node.path line column = .ends (some
      ⟨target, nextLine origin.line, origin.column, origin.name.bind table.name?⟩) := by
  obtain ⟨link, source, child, found, rfl, named, stands, became⟩ :=
    exists_source_of_origin described bare member has covering mapped
  obtain rfl := Option.some.inj (unresolved.symm.trans stands)
  rw [Workspace.stride_eq_strideFrom found covering]
  cases became with
  | unresolved visible missing =>
    rw [Workspace.strideFrom_named branch mapped named visible rfl rfl]
    exact if_pos (.inr (Workspace.mapOf?_eq_none_of_sourceText? missing))

/-- A stride to a source with a node stops there if the node is on the branch or has no map,
and goes on otherwise. -/
theorem stride_of_resolved (branch : List Path) {id : Nat}
    (resolved : node.children[origin.source.toNat]? = some (.resolved id))
    (stored : id < chain.nodes.length) {location : Location}
    (same : location = ⟨chain.nodes[id].path, nextLine origin.line, origin.column,
      origin.name.bind table.name?⟩) :
    workspace.stride branch node.path line column =
      if chain.nodes[id].path ∈ branch ∨ workspace.mapOf? chain.nodes[id].path = none then
        .ends (some location)
      else .enters location := by
  obtain ⟨link, source, child, found, rfl, named, stands, became⟩ :=
    exists_source_of_origin described bare member has covering mapped
  obtain rfl := Option.some.inj (resolved.symm.trans stands)
  rw [Workspace.stride_eq_strideFrom found covering]
  cases became with
  | resolved _ visible known =>
    have target := Option.some.inj ((chain.getElem?_paths stored).symm.trans known)
    exact Workspace.strideFrom_named branch mapped named visible target same

end Strides

/-- A walk from node to node ends where tracing from file to file does. -/
theorem traces_follow (described : chain.IsDescribed workspace
      (fun path content => workspace.text path = .ok content) path content)
    (bare : ∀ node ∈ chain.nodes, ∀ table ∈ node.table, ∀ carried ∈ table.contents, carried = none)
    {visited : List Nat} {node : Node} {segment : Segment} (member : node ∈ chain.nodes)
    {above : List Path} (visits : chain.Visits visited (node.path :: above)) {table : Table}
    (has : node.table = some table) {line column : UInt32}
    (covering : table.lookup line column = some segment) :
    workspace.Traces above node.path line column
      ((chain.follow visited node segment).map (·.location)) := by
  fun_induction follow chain visited node segment generalizing above table line column with
  | case1 visited node segment own origin mapped hasOwn missing =>
    obtain ⟨_, _, child, _, _, _, stands, _⟩ :=
      exists_source_of_origin described bare member has covering mapped
    simp [missing] at stands
  | case2 visited node segment own origin mapped hasOwn blank =>
    exact .ends _ _ _ _ _ (stride_of_blank described bare member has covering mapped _ blank)
  | case3 visited node segment own origin mapped hasOwn =>
    rename_i target unresolved
    obtain rfl := Option.some.inj (has.symm.trans hasOwn)
    exact .ends _ _ _ _ _
      (stride_of_unresolved described bare member has covering mapped _ unresolved)
  | case4 visited node segment own origin mapped hasOwn =>
    rename_i id resolved stored child leaf
    obtain rfl := Option.some.inj (has.symm.trans hasOwn)
    have unmapped := mapOf?_of_leaf described (List.getElem_mem stored) leaf
    refine .ends _ _ _ _ _ ?_
    rw [stride_of_resolved described bare member has covering mapped _ resolved stored rfl]
    exact if_pos (.inr unmapped)
  | case5 visited node segment own origin mapped hasOwn =>
    rename_i id resolved stored child inner _ seen
    obtain rfl := Option.some.inj (has.symm.trans hasOwn)
    have known := (mem_branch_iff described.distinct visits stored).mpr seen
    refine .ends _ _ _ _ _ ?_
    rw [stride_of_resolved described bare member has covering mapped _ resolved stored rfl]
    exact if_pos (.inl known)
  | case6 visited node segment own origin mapped hasOwn =>
    rename_i line id resolved stored child inner hasInner new uncovered
    obtain rfl := Option.some.inj (has.symm.trans hasOwn)
    obtain ⟨link, found, rfl, _, _⟩ :=
      exists_mapOf?_of_table described (List.getElem_mem stored) hasInner
    have step := stride_of_resolved described bare member has covering mapped
      (node.path :: above) resolved stored rfl
    rw [if_neg (by simp [mem_branch_iff described.distinct visits stored, new, found])] at step
    exact .enters _ _ _ _ _ none step (.ends _ _ _ _ _ (Workspace.stride_uncovered found uncovered))
  | case7 visited node segment own origin mapped hasOwn =>
    rename_i line name id resolved stored child inner hasInner new next covers inductionHypothesis
    obtain rfl := Option.some.inj (has.symm.trans hasOwn)
    obtain ⟨link, found, rfl, _, _⟩ :=
      exists_mapOf?_of_table described (List.getElem_mem stored) hasInner
    have step := stride_of_resolved described bare member has covering mapped
      (node.path :: above) resolved stored rfl
    rw [if_neg (by simp [mem_branch_iff described.distinct visits stored, new, found])] at step
    have deeper := inductionHypothesis (List.getElem_mem stored)
      (.cons (chain.getElem?_paths stored) visits) hasInner covers
    have whole := Workspace.Traces.enters _ _ _ _ _ _ step deeper
    rw [Option.map_map] at whole ⊢
    exact whole
  | case8 visited node segment own origin mapped hasOwn id resolved missing =>
    obtain ⟨link, source, child, found, rfl, named, stands, became⟩ :=
      exists_source_of_origin described bare member has covering mapped
    obtain rfl := Option.some.inj (resolved.symm.trans stands)
    cases became with
    | resolved _ _ known =>
      have stored := (List.getElem?_eq_some_iff.mp known).1
      exact absurd (by simpa [Resolution.paths] using stored) missing
  | case9 visited node segment incomplete =>
    obtain ⟨link, found, rfl, _, _⟩ := exists_mapOf?_of_table described member has
    cases mapped : segment.origin with
    | some origin => exact absurd mapped (incomplete _ origin has)
    | none =>
      refine .ends _ _ _ _ _ ?_
      rw [Workspace.stride_eq_strideFrom found covering]
      exact Workspace.strideFrom_unmapped _ link mapped

/-- Tracing through a chain ends where tracing from file to file does. -/
theorem traces_trace (described : chain.IsDescribed workspace
      (fun path content => workspace.text path = .ok content) path content)
    (bare : ∀ node ∈ chain.nodes, ∀ table ∈ node.table, ∀ carried ∈ table.contents, carried = none)
    (line column : UInt32) : workspace.Traces [] path line column (chain.trace line column) := by
  obtain ⟨root, first, rfl, _⟩ := described.root
  have member : root ∈ chain.nodes := List.mem_of_getElem? first
  cases has : root.table with
  | none =>
    have unmapped := mapOf?_of_leaf described member has
    have nowhere : chain.trace line column = none := by simp [trace, first, has]
    exact nowhere ▸ .ends _ _ _ _ _ (by simp [Workspace.stride, unmapped])
  | some table =>
    obtain ⟨link, found, rfl, _, _⟩ := exists_mapOf?_of_table described member has
    cases covering : link.table.lookup line column with
    | none =>
      have nowhere : chain.trace line column = none := by simp [trace, first, has, covering]
      exact nowhere ▸ .ends _ _ _ _ _ (Workspace.stride_uncovered found covering)
    | some segment =>
      have walked : chain.trace line column =
          (chain.follow [rootId] root segment).map (·.location) := by
        simp only [trace, followRoot, first, has, covering, Option.bind_eq_bind, Option.bind_some,
          Option.pure_def, Option.map_eq_bind, Function.comp_def]
      have visits : chain.Visits [rootId] [root.path] := by
        refine .cons ?_ .nil
        simpa [Resolution.paths] using ⟨root, first, rfl⟩
      exact walked ▸ traces_follow described bare member visits has covering

/-- Where no map of a chain that was built carries the text of a source, tracing a position
through the chain is tracing it from file to file: the one result of `Workspace.Traces`
for the root is the chain's. -/
theorem traces_iff_trace_eq (workspace : Workspace) (root : Path) (chain : Chain)
    (built : build workspace root = .ok chain)
    (bare : ∀ node ∈ chain.nodes, ∀ table ∈ node.table, ∀ carried ∈ table.contents, carried = none)
    (line column : UInt32) (result : Option Location) :
    workspace.Traces [] (workspace.provider.cwd.resolve root) line column result ↔
      chain.trace line column = result := by
  obtain ⟨content, required, rest⟩ := Itemwise.exists_of_bind_eq_ok built
  have text : workspace.text (workspace.provider.cwd.resolve root) = .ok content :=
    eq_ok_of_mapError_eq_ok required
  have described := isDescribed_of_chain workspace.passes_text rest text bare
  have ends := traces_trace described bare line column
  constructor
  · intro traced
    exact ends.unique traced
  · rintro rfl
    exact ends

/-- Two files whose maps list each other, and the second a file that is missing. -/
def circle : Workspace where
  provider := ((Memory.put {} (.ofText "/a.js") []).put (.ofText "/b.js") []).provider
  overrides :=
    { maps :=
        [(.ofText "a.js", { version := 3, sources := ["b.js"], mappings := "AAAA;AACA" }),
         (.ofText "b.js",
          { version := 3, sources := ["a.js", "c.js"], names := ["n"],
            mappings := "AAECA;ACAA" })] }

/-- The chain of the two files. -/
def circleChain : Chain where
  nodes :=
    [⟨.ofText "/a.js", "", some ⟨["b.js"], [none], [],
        [[⟨0, some ⟨0, 0, 0, none⟩⟩], [⟨0, some ⟨0, 1, 0, none⟩⟩]]⟩, [.resolved 1]⟩,
     ⟨.ofText "/b.js", "", some ⟨["a.js", "c.js"], [none, none], ["n"],
        [[⟨0, some ⟨0, 2, 1, some 0⟩⟩], [⟨0, some ⟨1, 2, 1, none⟩⟩]]⟩,
        [.resolved 0, .unresolved (.ofText "/c.js")]⟩]
  cwd := .root

/-- From the first file to the second and back, tracing stops at the file it started from. -/
theorem traces_circle :
    circle.Traces [] (circle.provider.cwd.resolve (.ofText "a.js")) 1 4
      (some ⟨.ofText "/a.js", 3, 1, some "n"⟩) :=
  (traces_iff_trace_eq circle (.ofText "a.js") circleChain (by decide +kernel)
    (by decide +kernel) 1 4 _).mpr (by decide +kernel)

end Chain

end MapChain
