import MapChain.Proofs.Chain.Acyclic
import MapChain.Proofs.Chain.Reloaded
import MapChain.Proofs.Chain.Reopened

/-!
# Traces survive writing

A chain without cycles can be written to a store and built again from there. The chain that
is built has the flattened map for its only map. A position that the first chain traces
finds there the record of the same walk, which leads to the same location: its file, line,
column and name.

Nothing is given when the chain is built again, so every text has to come from the store or
from the map. The map carries all texts at which walks end, and none of them has a map of
its own, as walks without cycles only end where there is none.
-/

namespace MapChain

/-- The lists of a table are countable if those of its document are, as they are the same. -/
theorem AreCountable.of_table {document : Document} {table : Table}
    (made : document.table = .ok table)
    (countable : AreCountable document.sources document.names) :
    AreCountable table.sources table.names := by
  obtain ⟨sources, names, _⟩ := Document.lists_of_table made
  rw [sources, names]
  exact countable

namespace Chain

variable {workspace : Workspace} {chain : Chain}

/-- The nodes of the chain of a text say what the maps of their files say. -/
theorem isDescribed_of_made {path : Path} {content : String}
    (made : workspace.chain path content = .ok chain) :
    chain.IsDescribed workspace (fun _ _ => True) path content := by
  have passes : workspace.Passes (fun _ _ => True) fun _ => True := by
    intro _ _ _ _ _ _ _ _ _ _
    trivial
  exact isDescribed_of_chain passes made trivial fun _ _ => trivial

/-- The nodes of a chain that was built say what the maps of their files say. -/
theorem exists_isDescribed_of_built (built : IsBuilt workspace chain) :
    ∃ path content, chain.IsDescribed workspace (fun _ _ => True) path content := by
  obtain ⟨path, built⟩ := built.exists_isBuiltAt
  obtain ⟨content, made⟩ := built.exists_chain
  exact ⟨path, content, isDescribed_of_made made⟩

/-- A chain that was built in a location is written to a location. -/
theorem isLocation_destination (directory : workspace.provider.cwd.IsLocation)
    (built : IsBuilt workspace chain) (given : Option Path) :
    (chain.destination given).IsLocation := by
  have located := isLocated_of_built directory built
  cases given with
  | some path => exact Path.isLocation_resolve _ path located.directory.absolute
  | none =>
    obtain ⟨_, _, described⟩ := exists_isDescribed_of_built built
    obtain ⟨root, first, _⟩ := described.root
    simpa [destination, rootPath, first] using located.nodes root (List.mem_of_getElem? first)

/-- A text that a flattened map carries, the chain having no cycle, has no map of its own. A
source without text was without text when the chain was built. -/
theorem final_of_mem_reached (built : IsBuilt workspace chain) (acyclic : chain.IsAcyclic)
    {source : Path × Option String} (member : source ∈ chain.reached.sources) :
    (∀ text ∈ source.2, Reference.locate text = none) ∧
      (source.2 = none → (∃ node ∈ chain.nodes, .unresolved source.1 ∈ node.children) ∧
        ∃ fault, workspace.provider.readText source.1 = .error fault ∧
          ∀ cause, fault ≠ .refused cause) := by
  obtain ⟨_, _, described⟩ := exists_isDescribed_of_built built
  obtain ⟨segment, hit, found, rfl⟩ := chain.isRecorded_reached.hits source member
  cases endsAt_of_followRoot acyclic found with
  | leaf node inside bare path content =>
    rw [content]
    refine ⟨?_, by simp⟩
    intro text carried
    obtain rfl : node.content = text := Option.some.inj carried
    cases (described.nodes node inside).2 with
    | leaf unmapped _ _ => exact workspace.locate_of_link?_eq_none unmapped
    | mapped link _ tabled _ => simp [bare] at tabled
  | unresolved node inside child missing =>
    rw [missing]
    refine ⟨by simp, fun _ => ⟨⟨node, inside, child⟩, ?_⟩⟩
    cases (described.nodes node inside).2 with
    | leaf _ _ childless => simp [childless] at child
    | mapped link _ _ children =>
      obtain ⟨entry, _, became⟩ := Itemwise.exists_of_mem_right children child
      generalize place : hit.location.source = target at became
      cases became with
      | unresolved _ missing => exact workspace.readText_of_sourceText?_eq_none missing

/-- A position that is traced finds in the flattened map the record of the hit that it is
traced to. -/
theorem exists_records_of_trace {options : FlattenOptions} {table : Table}
    (located : chain.IsLocated) (flattened : chain.IsFlattened options table)
    {line column : UInt32} {location : Location}
    (traced : chain.trace line column = some location) : ∃ segment hit origin,
      table.lookup line column = some ⟨segment, some origin⟩ ∧ hit.location = location ∧
        hit.IsLocated ∧ chain.reached.Records hit origin := by
  rw [trace_eq] at traced
  obtain ⟨segment, covering, ends⟩ := Option.bind_eq_some_iff.mp traced
  obtain ⟨hit, followed, rfl⟩ := Option.map_eq_some_iff.mp ends
  obtain ⟨counted, _, _⟩ := exists_root_of_covering? covering
  have related := lookup_flatten located flattened line column counted
  rw [lastKept?_of_keeps covering (by simp [keeps, followed])] at related
  generalize found : table.lookup line column = result at related
  cases related with
  | some writes =>
    cases writes with
    | marker unmapped => simp [followRoot_unmapped chain unmapped] at followed
    | hit other origin ends records =>
      obtain rfl : hit = other := Option.some.inj (followed.symm.trans ends)
      exact ⟨_, hit, origin, rfl, rfl, isLocated_of_followRoot located followed, records⟩

/-- A position that a chain traces is traced alike by a chain that was built from the flattened
map. -/
theorem trace_of_isHeld {held : Workspace} {path : Path} {content : String} {table : Table}
    {reloaded : Chain} {options : FlattenOptions} (located : chain.IsLocated)
    (flattened : chain.IsFlattened options table)
    (holds : chain.IsHeld held path content table)
    (rebuilt : held.chain path content = .ok reloaded)
    (countable : AreCountable table.sources table.names)
    {line column : UInt32} {location : Location}
    (traced : chain.trace line column = some location)
    (named : ¬(location.source.relativeTo path.parent).text.toList.all Text.isBlank = true) :
    reloaded.trace line column = some location := by
  obtain ⟨start, hit, origin, found, rfl, ends, records⟩ :=
    exists_records_of_trace located flattened traced
  obtain ⟨root, first, _, _, tabled, _⟩ := holds.root rebuilt
  obtain ⟨text, followed, _⟩ :=
    holds.followRoot_of_records rebuilt start records countable ends.counted named
  simp [trace, first, tabled, found, followed]

/-- The sources of a map that is written are seen from the directory of its root. -/
theorem flattenBase_parent (chain : Chain) {path : Path} (location : path.IsLocation)
    (includeContent : Bool) :
    chain.flattenBase ⟨some path.parent, includeContent⟩ = path.parent :=
  Path.resolve_eq_self _ _ (Path.isLocation_parent path location)

/-- The file that a map names plays no part in its table, so a written map has the table of the
flattened one. -/
theorem table_outputMap (chain : Chain) (path : Path) (inline absolutePath : Bool) :
    (chain.outputMap path { inline, absolutePath }).table =
      (chain.flatten ⟨some path.parent, true⟩).table := by
  simp only [outputMap, Document.table]

section Written

variable (directory : workspace.provider.cwd.IsLocation) (built : IsBuilt workspace chain)
  (acyclic : chain.IsAcyclic) (given : Option Path) (inline absolutePath : Bool)

include directory built acyclic in
/-- A store to which a chain was written holds the root with the flattened map. -/
theorem isHeld_persist (store : Memory)
    (plain : (chain.destination given).looksInline = false)
    (missing : ∀ source ∈ chain.reached.sources, source.2 = none →
      (store.persist (chain.render given { inline, absolutePath })).workspace.sourceText?
        source.1 none = .ok none) :
    ∃ table, (chain.render given { inline, absolutePath }).map.table = .ok table ∧
      chain.IsFlattened ⟨some (chain.destination given).parent, true⟩ table ∧
      chain.IsHeld (store.persist (chain.render given { inline, absolutePath })).workspace
        (chain.destination given) (chain.render given { inline, absolutePath }).content table := by
  have location := isLocation_destination directory built given
  have located := isLocated_of_built directory built
  obtain ⟨table, own, flattened⟩ :=
    chain.table_flatten ⟨some (chain.destination given).parent, true⟩ located
  have flat := (chain.table_outputMap (chain.destination given) inline absolutePath).trans own
  have sources := flattened.sources
  rw [flattenBase_parent chain location true] at sources
  refine ⟨table, flat, flattened, ⟨rfl, location, link?_render store location plain flat, sources,
    contents_of_table_flatten rfl own, flattened.names, flattened.lines, ?_, ?_, missing⟩⟩
  · intro source member
    obtain ⟨segment, hit, found, rfl⟩ := chain.isRecorded_reached.hits source member
    exact (isLocated_of_followRoot located found).source
  · exact fun source member => (final_of_mem_reached built acyclic member).1

include directory built in
/-- Building the written root starts from the content that was written. -/
theorem build_persist (store : Memory) (options : OutputOptions) :
    build (store.persist (chain.render given options)).workspace (chain.render given options).path =
      (store.persist (chain.render given options)).workspace.chain (chain.destination given)
        (chain.render given options).content := by
  have location := isLocation_destination directory built given
  have placed : (chain.render given options).IsPlaced := isPlaced_render location
  have seen : (store.persist (chain.render given options)).workspace.provider.cwd.resolve
      (chain.destination given) = chain.destination given := Path.resolve_eq_self _ _ location
  have found : (store.persist (chain.render given options)).workspace.required
      (chain.destination given) = .ok (chain.render given options).content :=
    congrArg (Except.mapError _) (Output.readText_content store placed)
  rw [show (chain.render given options).path = chain.destination given from rfl]
  generalize (store.persist (chain.render given options)).workspace = workspace at seen found ⊢
  simp only [build, seen, found]
  rfl

end Written

/-- Writing keeps traces. A chain without cycles whose sources are all files or void is
written to a store, under a file name that does not start like a data URL; the store may
have changed since the chain was built. Building the written root with nothing given
succeeds, and every position that the first chain traces is traced to the same location
by the new one, provided that the name of no such location, as seen from the destination,
is blank. The locations need lists that an index can count. -/
theorem trace_reloaded (memory store : Memory) (overrides : Overrides) (chain : Chain)
    (directory : memory.cwd.IsLocation) (built : IsBuilt ⟨memory.provider, overrides⟩ chain)
    (acyclic : chain.IsAcyclic)
    (resolved : ∀ node ∈ chain.nodes, ∀ path, Child.unresolved path ∉ node.children)
    (given : Option Path) (inline absolutePath : Bool)
    (plain : (chain.destination given).looksInline = false)
    (named : ∀ line column location, chain.trace line column = some location →
      ¬(location.source.relativeTo (chain.destination given).parent).text.toList.all
        Text.isBlank = true) :
    let output := chain.render given { inline, absolutePath }
    ∃ reloaded, build (store.persist output).workspace output.path = .ok reloaded ∧
      (AreCountable output.map.sources output.map.names → ∀ line column location,
        chain.trace line column = some location →
          reloaded.trace line column = some location) := by
  intro output
  have located := isLocated_of_built directory built
  have missing : ∀ source ∈ chain.reached.sources, source.2 = none →
      (store.persist output).workspace.sourceText? source.1 none = .ok none := by
    intro source member none
    obtain ⟨⟨node, inside, child⟩, _⟩ := (final_of_mem_reached built acyclic member).2 none
    exact absurd child (resolved node inside source.1)
  obtain ⟨table, flat, flattened, held⟩ :=
    isHeld_persist directory built acyclic given inline absolutePath store plain missing
  obtain ⟨reloaded, rebuilt⟩ := held.exists_chain
  refine ⟨reloaded, (build_persist directory built given store _).trans rebuilt, ?_⟩
  intro countable line column location traced
  exact trace_of_isHeld located flattened held rebuilt (countable.of_table flat) traced
    (named line column location traced)

/-- Two maps behind one another, and the file that the second one leads to. -/
def stacked : Memory :=
  ((Memory.put {} (.ofText "/src/out.js") (bytesOfText "f();")).put (.ofText "/src/mid.js") []).put
    (.ofText "/src/lib/a.ts") (bytesOfText "let f;")

/-- The maps of the two files. -/
def stackedMaps : Overrides where
  maps :=
    [(.ofText "src/out.js",
      { version := 3, sources := ["mid.js"], names := ["f"], mappings := "AAAAA;KACA" }),
     (.ofText "src/mid.js",
      { version := 3, sources := ["lib/a.ts"], mappings := "AAGE;AACA" })]

/-- The chain of the three files. -/
def stackedChain : Chain where
  nodes :=
    [⟨.ofText "/src/out.js", "f();", some ⟨["mid.js"], [none], ["f"],
        [[⟨0, some ⟨0, 0, 0, some 0⟩⟩], [⟨5, some ⟨0, 1, 0, none⟩⟩]]⟩, [.resolved 1]⟩,
     ⟨.ofText "/src/mid.js", "", some ⟨["lib/a.ts"], [none], [],
        [[⟨0, some ⟨0, 3, 2, none⟩⟩], [⟨0, some ⟨0, 4, 2, none⟩⟩]]⟩, [.resolved 2]⟩,
     ⟨.ofText "/src/lib/a.ts", "let f;", none, []⟩]
  cwd := .root

/-- The chain of the three files is built from them and has no cycle. -/
theorem isBuilt_stacked : IsBuilt ⟨stacked.provider, stackedMaps⟩ stackedChain ∧
    stackedChain.IsAcyclic :=
  ⟨.inl ⟨.ofText "src/out.js", by decide +kernel⟩, isAcyclic_of_isBehind (by decide +kernel)⟩

/-- Written elsewhere and built again, the chain traces a position through what were two maps
to the same place, with the name that the first of them has. -/
theorem trace_reloaded_stacked :
    let output := stackedChain.render (some (.ofText "dist/out.js")) { absolutePath := true }
    ∃ reloaded, build (stacked.persist output).workspace output.path = .ok reloaded ∧
      reloaded.trace 1 3 = some ⟨.ofText "/src/lib/a.ts", 4, 2, some "f"⟩ := by
  intro output
  have resolved : ∀ node ∈ stackedChain.nodes, ∀ path, Child.unresolved path ∉ node.children := by
    simp [stackedChain]
  have named (line column : UInt32) (location : Location)
      (traced : stackedChain.trace line column = some location) :
      ¬(location.source.relativeTo (.ofText "/dist")).text.toList.all Text.isBlank = true := by
    obtain ⟨segment, _, ends⟩ := Option.bind_eq_some_iff.mp (trace_eq _ line column ▸ traced)
    obtain ⟨hit, followed, rfl⟩ := Option.map_eq_some_iff.mp ends
    have each : ∀ node ∈ stackedChain.nodes,
        ¬(node.path.relativeTo (.ofText "/dist")).text.toList.all Text.isBlank = true := by
      decide +kernel
    cases endsAt_of_followRoot isBuilt_stacked.2 followed with
    | unresolved node inside child _ => exact absurd child (resolved node inside _)
    | leaf node inside _ path _ => exact path ▸ each node inside
  obtain ⟨reloaded, rebuilt, kept⟩ :=
    trace_reloaded stacked stacked stackedMaps stackedChain Path.isLocation_root
      isBuilt_stacked.1 isBuilt_stacked.2 resolved (some (.ofText "dist/out.js")) false true
      (by decide +kernel) named
  have countable : AreCountable output.map.sources output.map.names :=
    ⟨by decide +kernel, by decide +kernel⟩
  exact ⟨reloaded, rebuilt, kept countable 1 3 _ (by decide +kernel)⟩

end Chain

end MapChain
