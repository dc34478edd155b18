import MapChain.Proofs.Chain.Hits
import MapChain.Proofs.Chain.RoundTrip
import MapChain.Proofs.Mapping.Canonical

/-!
# A flattened map holds no more than it needs

The segments of a flattened map that are mapped record the hits of the root's map one by one.
So what its lists hold is what these segments use, each source and name once, in the order
in which the lines come to use it. Two paths that are told apart are still told apart when
they are written as seen from a directory, because what is written leads back to the path.

Each line is the root's own without the segments that lead nowhere.
-/

namespace MapChain

/-- Entries that some indices use, listed once each in the order of their first use. -/
def ListsUses [BEq α] (entries : List α) (indices : List UInt32) : Prop :=
  ∃ used, List.Forall₂ (StandsFor entries) indices used ∧ used.eraseDups = entries

namespace ListsUses

variable [BEq α] {entries : List α} {indices : List UInt32}

/-- In lists that indices can count the indices are found to use the entries in this order. -/
theorem eraseDups_filterMap (uses : ListsUses entries indices)
    (countable : entries.length ≤ UInt32.size) :
    (indices.filterMap fun index => entries[index.toNat]?).eraseDups = entries := by
  obtain ⟨used, stand, listed⟩ := uses
  have found : (indices.filterMap fun index => entries[index.toNat]?) = used := by
    clear listed
    induction stand with
    | nil => rfl
    | cons stands _ inductionHypothesis =>
      have first := stands.getElem?_eq_some countable
      simp only [List.filterMap_cons, first, inductionHypothesis]
  rw [found, listed]

variable [LawfulBEq α]

/-- No entry is listed twice. -/
theorem nodup (uses : ListsUses entries indices) : entries.Nodup := by
  obtain ⟨used, _, rfl⟩ := uses
  exact FirstUses.nodup_eraseDups used

/-- Every entry is used. -/
theorem exists_standsFor (uses : ListsUses entries indices) {entry : α}
    (member : entry ∈ entries) : ∃ index ∈ indices, StandsFor entries index entry := by
  obtain ⟨used, stand, listed⟩ := uses
  rw [← listed] at member
  exact Itemwise.exists_of_mem_right stand (List.mem_eraseDups.mp member)

/-- Entries that are told apart when they are turned into others are used alike. -/
theorem map [BEq β] [LawfulBEq β] (turn : α → β) {used : List α}
    (stand : List.Forall₂ (StandsFor entries) indices used) (listed : used.eraseDups = entries)
    (apart : ∀ first ∈ used, ∀ second ∈ used, turn first = turn second → first = second) :
    ListsUses (entries.map turn) indices := by
  refine ⟨used.map turn, ?_, listed ▸ FirstUses.eraseDups_map turn used apart⟩
  exact List.forall₂_map_right_iff.mpr (stand.imp fun _ _ stands => stands.map turn)

end ListsUses

/-- The origins of a table's segments, the lines from top to bottom and each from left to
right. -/
def Table.origins (table : Table) : List Origin := table.lines.flatten.filterMap (·.origin)

/-- A document that lists what its segments use and nothing else, in the order of first uses,
with one text for each source. The table is what it reads back as. -/
structure Document.IsMinimal (document : Document) (table : Table) : Prop where
  sources : ListsUses document.sources (table.origins.map (·.source))
  names : ListsUses document.names (table.origins.filterMap (·.name))
  distinctSources : document.sources.Nodup
  distinctNames : document.names.Nodup
  usedSources : ∀ source ∈ document.sources, ∃ index ∈ table.origins.map (·.source),
    StandsFor document.sources index source
  usedNames : ∀ name ∈ document.names, ∃ index ∈ table.origins.filterMap (·.name),
    StandsFor document.names index name
  contents : ∃ contents, document.contents = some contents ∧
    contents.length = document.sources.length
  lists : table.sources = document.sources ∧ table.names = document.names ∧
    table.contents.length = document.sources.length

/-- Segments on one column that are both mapped or both markers. -/
structure Segment.IsLike (first second : Segment) : Prop where
  column : first.column = second.column
  mapped : first.origin.isSome = second.origin.isSome

/-- A line that is written with all its markers and some of its other segments. -/
def Segment.IsThinned (line written : List Segment) : Prop :=
  ∃ kept, kept.Sublist line ∧
    kept.filter (·.origin.isNone) = line.filter (·.origin.isNone) ∧
      List.Forall₂ Segment.IsLike kept written

/-- The table of a document has at least one line. -/
theorem Document.lines_ne_nil_of_table {document : Document} {table : Table}
    (made : document.table = .ok table) : table.lines ≠ [] := by
  obtain ⟨lines, read, fits⟩ := Document.exists_make_of_table made
  rw [Table.eq_of_make fits]
  simpa using Codec.ne_nil_of_decode read

namespace Chain

variable {chain : Chain}

/-- A segment is written as one of its kind. -/
theorem Writes.isLike {reached : Reached} {segment written : Segment}
    (writes : chain.Writes reached segment written) : segment.IsLike written := by
  cases writes with
  | marker unmapped => exact ⟨rfl, by simp [unmapped, Segment.unmapped]⟩
  | hit hit origin followed records =>
    refine ⟨rfl, ?_⟩
    cases mapped : segment.origin with
    | none => simp [followRoot_unmapped chain mapped] at followed
    | some own => rfl

/-- A segment records its hit, if it has one. -/
theorem Writes.rel_origin {reached : Reached} {segment written : Segment}
    (writes : chain.Writes reached segment written) :
    Option.Rel reached.Records (chain.followRoot segment) written.origin := by
  cases writes with
  | marker unmapped =>
    rw [followRoot_unmapped chain unmapped]
    exact .none
  | hit hit origin followed records =>
    rw [followed]
    exact .some records

/-- Writing a line drops segments that lead nowhere and keeps the markers. -/
theorem isThinned_of_writes {reached : Reached} {line written : List Segment}
    (writes : List.Forall₂ (chain.Writes reached) (line.filter chain.keeps) written) :
    Segment.IsThinned line written := by
  refine ⟨line.filter chain.keeps, List.filter_sublist, ?_, writes.imp fun _ _ => Writes.isLike⟩
  rw [List.filter_filter]
  refine List.filter_congr fun segment _ => ?_
  simp only [keeps]
  cases segment.origin <;> simp

/-- A segment that is not kept has no hit. -/
theorem filterMap_filter_keeps (chain : Chain) (segments : List Segment) :
    (segments.filter chain.keeps).filterMap chain.followRoot =
      segments.filterMap chain.followRoot := by
  rw [List.filterMap_filter]
  refine List.filterMap_congr fun segment _ => ?_
  split
  · rfl
  · rename_i dropped
    simp only [keeps, Bool.or_eq_true, not_or, Bool.not_eq_true, Option.isSome_eq_false_iff,
      Option.isNone_iff_eq_none] at dropped
    exact dropped.2.symm

/-- The mapped segments that are written record the hits of the root's map one by one. -/
theorem records_rootHits (chain : Chain) :
    List.Forall₂ chain.reached.Records chain.rootHits
      (chain.writtenLines.flatten.filterMap (·.origin)) := by
  have lines := (chain.flattenLines_spec {} chain.rootLines).2
  have all := List.rel_flatten (List.forall₂_map_left_iff.mpr lines)
  rw [← List.filter_flatten] at all
  have hits := List.rel_filterMap (fun _ _ writes => Writes.rel_origin writes) all
  rw [filterMap_filter_keeps] at hits
  have same : chain.writtenLines.flatten = (chain.flattenLines {} chain.rootLines).2.flatten := by
    simp only [writtenLines]
    split
    · rename_i none
      simp [none]
    · rename_i written
      rw [written]
  rw [same]
  exact hits

/-- Two paths that hits end at are told apart when they are written as seen from the directory
of a flattened map. -/
theorem relativeTo_injective_of_mem_rootHits (located : chain.IsLocated)
    (options : FlattenOptions) {first second : Hit} (early : first ∈ chain.rootHits)
    (late : second ∈ chain.rootHits)
    (same : (first.location.source.relativeTo (chain.flattenBase options)).text =
      (second.location.source.relativeTo (chain.flattenBase options)).text) :
    first.location.source = second.location.source := by
  obtain ⟨_, _, here⟩ := List.mem_filterMap.mp early
  obtain ⟨_, _, there⟩ := List.mem_filterMap.mp late
  obtain ⟨root, found, _⟩ := Option.bind_eq_some_iff.mp here
  have base := isLocation_flattenBase located found options
  have one := Path.resolve_relativeTo _ _ (isLocated_of_followRoot located here).source base
  have other := Path.resolve_relativeTo _ _ (isLocated_of_followRoot located there).source base
  rw [← one, same, other]

/-- The sources of a flattened map are those that its segments use. -/
theorem listsUses_sources (located : chain.IsLocated) {options : FlattenOptions} {table : Table}
    (flattened : chain.IsFlattened options table) :
    ListsUses table.sources (table.origins.map (·.source)) := by
  have paths : (chain.rootHits.map (·.location.source)).eraseDups =
      chain.reached.sources.map (·.1) := by
    rw [reached_eq_ofHits, Reached.paths_ofHits]
  have texts : table.sources = (chain.reached.sources.map (·.1)).map fun path =>
      (path.relativeTo (chain.flattenBase options)).text := by
    rw [flattened.sources, List.map_map]
    rfl
  rw [texts, Table.origins, flattened.lines]
  refine ListsUses.map _ ?_ paths ?_
  · refine List.forall₂_map_left_iff.mpr (List.forall₂_map_right_iff.mpr ?_)
    exact (List.Forall₂.flip (chain.records_rootHits)).imp fun _ _ records => records.source
  · intro first early second late same
    obtain ⟨one, inside, rfl⟩ := List.mem_map.mp early
    obtain ⟨other, within, rfl⟩ := List.mem_map.mp late
    exact relativeTo_injective_of_mem_rootHits located options inside within same

/-- The names of a flattened map are those that its segments use. -/
theorem listsUses_names {options : FlattenOptions} {table : Table}
    (flattened : chain.IsFlattened options table) :
    ListsUses table.names (table.origins.filterMap (·.name)) := by
  refine ⟨chain.rootHits.filterMap (·.location.name), ?_, ?_⟩
  · rw [flattened.names, Table.origins, flattened.lines]
    exact List.rel_filterMap (fun _ _ records => records.name)
      (List.Forall₂.flip chain.records_rootHits)
  · rw [flattened.names, reached_eq_ofHits]
    rfl

/-- A flattened map lists what its segments use. -/
theorem isMinimal_of_isFlattened (located : chain.IsLocated) {options : FlattenOptions}
    {table : Table} (flat : (chain.flatten options).table = .ok table)
    (flattened : chain.IsFlattened options table) :
    (chain.flatten options).IsMinimal table := by
  have sources : table.sources = (chain.flatten options).sources := flattened.sources
  have names : table.names = (chain.flatten options).names := flattened.names
  have sourcesUsed := sources ▸ listsUses_sources located flattened
  have namesUsed := names ▸ listsUses_names flattened
  have carried := (Document.isWellFormed_of_table flat).carried
  refine ⟨sourcesUsed, namesUsed, sourcesUsed.nodup, namesUsed.nodup, ?_, ?_, ⟨_, rfl, ?_⟩,
    sources, names, carried.trans (congrArg List.length sources)⟩
  · exact fun _ member => sourcesUsed.exists_standsFor member
  · exact fun _ member => namesUsed.exists_standsFor member
  · simp [flatten]

/-- The lines of a flattened map are those of the root's map, thinned out. -/
theorem forall₂_isThinned {workspace : Workspace} (built : IsBuilt workspace chain)
    {options : FlattenOptions} {table : Table} (flattened : chain.IsFlattened options table)
    {root : Node} (first : chain.root? = some root) {own : Table} (has : root.table = some own) :
    List.Forall₂ Segment.IsThinned own.lines table.lines := by
  obtain ⟨_, _, described⟩ := exists_isDescribed_of_built built
  have lines : chain.rootLines = own.lines := by simp [rootLines, first, has]
  have inhabited : own.lines ≠ [] := by
    cases (described.nodes root (List.mem_of_getElem? first)).2 with
    | leaf _ bare _ => simp [bare] at has
    | mapped link found tabled _ =>
      obtain rfl : link.table = own := Option.some.inj (tabled.symm.trans has)
      obtain ⟨_, _, _, made, _⟩ := workspace.link_cases found
      exact Document.lines_ne_nil_of_table made
  rw [flattened.lines, writtenLines_eq (lines ▸ inhabited), ← lines]
  exact (chain.flattenLines_spec {} chain.rootLines).2.imp fun _ _ => isThinned_of_writes

/-- A flattened map is well formed and holds no more than it needs. Flattening a chain always
gives one, and it reads back as a table. Its sources are distinct, its names are distinct,
its segments use each of them, and both are listed in the order of their first use; in lists
that an index can count, the indices lead to them in this order. There is one text, or none,
for each source. If the root has a map, each of its lines is written with all its markers and
some of its other segments, on their columns. -/
theorem isMinimal_flatten (workspace : Workspace) (chain : Chain)
    (directory : workspace.provider.cwd.IsLocation) (built : IsBuilt workspace chain)
    (options : FlattenOptions) :
    ∃ table, (chain.flatten options).table = .ok table ∧
      (chain.flatten options).IsMinimal table ∧
      (AreCountable table.sources table.names →
        ((table.origins.map (·.source)).filterMap table.source?).eraseDups = table.sources ∧
        ((table.origins.filterMap (·.name)).filterMap table.name?).eraseDups = table.names) ∧
      ∀ root own, chain.root? = some root → root.table = some own →
        List.Forall₂ Segment.IsThinned own.lines table.lines := by
  have located := isLocated_of_built directory built
  obtain ⟨table, flat, flattened⟩ := chain.table_flatten options located
  refine ⟨table, flat, isMinimal_of_isFlattened located flat flattened, ?_, ?_⟩
  · intro countable
    constructor
    · exact (listsUses_sources located flattened).eraseDups_filterMap countable.sources
    · exact (listsUses_names flattened).eraseDups_filterMap countable.names
  · exact fun root own first has => forall₂_isThinned built flattened first has

/-- A map with markers, a segment that leads to a source without a name, and sources that are
not used in the order in which it lists them. -/
def scattered : Workspace where
  provider := (Memory.put {} (.ofText "/out.js") []).provider
  overrides :=
    { maps := [(.ofText "out.js",
        { version := 3, sources := ["a.ts", "", "b.ts"], names := ["f", "g"],
          mappings := "A,EEAA,EDAA;ADAAC,GEAA,E" })] }

/-- The lines of the map. -/
def scatteredLines : List (List Segment) :=
  [[.unmapped 0, ⟨2, some ⟨2, 0, 0, none⟩⟩, ⟨4, some ⟨1, 0, 0, none⟩⟩],
    [⟨0, some ⟨0, 0, 0, some 1⟩⟩, ⟨3, some ⟨2, 0, 0, none⟩⟩, .unmapped 5]]

/-- The chain of the map. -/
def scatteredChain : Chain where
  nodes :=
    [⟨.ofText "/out.js", "",
      some ⟨["a.ts", "", "b.ts"], [none, none, none], ["f", "g"], scatteredLines⟩,
      [.unresolved (.ofText "/a.ts"), .blank, .unresolved (.ofText "/b.ts")]⟩]
  cwd := .root

/-- The flattened map lacks the segment without an end and the name that nothing uses. -/
theorem isMinimal_flatten_scattered :
    ∃ table, (scatteredChain.flatten {}).table = .ok table ∧
      (scatteredChain.flatten {}).IsMinimal table ∧
      table.sources = ["b.ts", "a.ts"] ∧ table.names = ["g"] ∧
      List.Forall₂ Segment.IsThinned scatteredLines table.lines := by
  obtain ⟨table, flat, minimal, listed, thinned⟩ :=
    isMinimal_flatten scattered scatteredChain Path.isLocation_root
      (.inl ⟨.ofText "out.js", by decide +kernel⟩) {}
  obtain ⟨sources, names, _⟩ := minimal.lists
  have sourcesRead : (scatteredChain.flatten {}).sources = ["b.ts", "a.ts"] := by decide +kernel
  have namesRead : (scatteredChain.flatten {}).names = ["g"] := by decide +kernel
  exact ⟨table, flat, minimal, sources.trans sourcesRead, names.trans namesRead,
    thinned _ _ rfl rfl⟩

end Chain

end MapChain
