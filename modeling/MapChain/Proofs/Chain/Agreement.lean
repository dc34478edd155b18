import MapChain.Proofs.Chain.Walk
import MapChain.Proofs.Chain.Written
import MapChain.Store.Memory

/-!
# Flattening agrees with tracing

A position that tracing leads to a location is led there by the flattened map as well. The
converse holds up to dropped segments: what the flattened map says of a position is the
end of the last kept segment at or before it, which is what tracing says unless the
root's own segment there leads nowhere.

Indices of a map have 32 bits. The rank of an entry is cut to them, and the index leads
back to the entry in lists that 32 bits can count.
-/

namespace MapChain

/-- An origin that was written for a location: its indices are the ranks of the location's
source, as seen from a directory, and of its name. -/
structure Table.Marks (table : Table) (base : Path) (origin : Origin) (location : Location) :
    Prop where
  source : ∃ text, StandsFor table.sources origin.source text ∧
    base.resolve (.ofText text) = location.source
  line : origin.line.toNat + 1 = location.line.toNat
  column : origin.column = location.column
  name : Option.Rel (StandsFor table.names) origin.name location.name

/-- An origin that leads to a location, its source being seen from a directory. -/
structure Table.Denotes (table : Table) (base : Path) (origin : Origin) (location : Location) :
    Prop where
  source : ∃ text, table.source? origin.source = some text ∧
    base.resolve (.ofText text) = location.source
  line : origin.line.toNat + 1 = location.line.toNat
  column : origin.column = location.column
  name : origin.name.map table.name? = location.name.map some

/-- Lists of sources and of names whose entries can all be counted by an index. -/
structure AreCountable (sources names : List String) : Prop where
  sources : sources.length ≤ UInt32.size
  names : names.length ≤ UInt32.size

/-- In a table with countable lists an origin leads to the location that it was written for. -/
theorem Table.Marks.denotes {table : Table} {base : Path} {origin : Origin}
    {location : Location} (marks : table.Marks base origin location)
    (countable : AreCountable table.sources table.names) : table.Denotes base origin location := by
  obtain ⟨⟨text, stands, resolved⟩, line, column, named⟩ := marks
  refine ⟨⟨text, stands.getElem?_eq_some countable.sources, resolved⟩, line, column, ?_⟩
  generalize origin.name = index, location.name = entry at named ⊢
  cases named with
  | none => rfl
  | some stands => exact congrArg some (stands.getElem?_eq_some countable.names)

namespace Chain

/-- The sources of a flattened map are seen from a location. -/
theorem isLocation_flattenBase {chain : Chain} (located : chain.IsLocated) {root : Node}
    (first : chain.root? = some root) (options : FlattenOptions) :
    (chain.flattenBase options).IsLocation := by
  simp only [flattenBase]
  split
  · exact Path.isLocation_resolve _ _ located.directory.absolute
  · have member : root ∈ chain.nodes := List.mem_of_getElem? first
    simpa [rootPath, first] using Path.isLocation_parent _ (located.nodes root member)

/-- What records a hit in the flattened map was written for the hit's location. -/
theorem marks_of_records {chain : Chain} (located : chain.IsLocated) {root : Node}
    (first : chain.root? = some root) (options : FlattenOptions) {table : Table}
    (flattened : chain.IsFlattened options table) {hit : Hit} (ends : hit.IsLocated)
    {origin : Origin} (records : chain.reached.Records hit origin) :
    table.Marks (chain.flattenBase options) origin hit.location := by
  have line := records.line_add_one ends.counted
  obtain ⟨source, _, column, name⟩ := records
  have base := isLocation_flattenBase located first options
  refine ⟨⟨(hit.location.source.relativeTo (chain.flattenBase options)).text, ?_, ?_⟩, line,
    column, flattened.names ▸ name⟩
  · have written := source.map fun path => (path.relativeTo (chain.flattenBase options)).text
    rw [List.map_map] at written
    exact flattened.sources ▸ written
  · exact Path.resolve_relativeTo _ _ ends.source base

/-- The segment of the root's map that covers a position. -/
def covering? (chain : Chain) (line column : UInt32) : Option Segment :=
  (chain.root?.bind (·.table)).bind fun table => table.lookup line column

/-- A position is traced by following the root's segment that covers it. -/
theorem trace_eq (chain : Chain) (line column : UInt32) :
    chain.trace line column = (chain.covering? line column).bind fun segment =>
      (chain.followRoot segment).map (·.location) := by
  simp only [trace, covering?, Option.bind_eq_bind, Option.pure_def, Option.bind_assoc]
  cases chain.root? with
  | none => rfl
  | some root => simp only [Option.map_eq_bind, Function.comp_def]

/-- A position that is covered is on a line that is counted, and there is a root. -/
theorem exists_root_of_covering? {chain : Chain} {line column : UInt32} {segment : Segment}
    (covering : chain.covering? line column = some segment) :
    line ≠ 0 ∧ ∃ root, chain.root? = some root := by
  obtain ⟨table, has, found⟩ := Option.bind_eq_some_iff.mp covering
  obtain ⟨root, first, _⟩ := Option.bind_eq_some_iff.mp has
  refine ⟨?_, root, first⟩
  rintro rfl
  simp [Table.lookup_zero] at found

/-- What covers a position is the last segment at or before it. -/
theorem covering?_eq_getLast? (chain : Chain) (line column : UInt32) (counted : line ≠ 0) :
    chain.covering? line column = (chain.rootCovered line column).getLast? := by
  simp only [covering?, rootCovered]
  cases chain.root?.bind (·.table) with
  | none => rfl
  | some table => exact table.lookup_eq_getLast?_covered line column counted

/-- Where the segment that covers a position is kept, it is the last one that is. -/
theorem lastKept?_of_keeps {chain : Chain} {line column : UInt32} {segment : Segment}
    (covering : chain.covering? line column = some segment)
    (kept : chain.keeps segment = true) : chain.lastKept? line column = some segment := by
  obtain ⟨counted, _⟩ := exists_root_of_covering? covering
  rw [covering?_eq_getLast? chain line column counted] at covering
  obtain ⟨front, covered⟩ := List.getLast?_eq_some_iff.mp covering
  simp [lastKept?, covered, kept]

/-- A position with a kept segment at or before it is covered. -/
theorem exists_covering?_of_lastKept? {chain : Chain} {line column : UInt32}
    {segment : Segment} (counted : line ≠ 0)
    (last : chain.lastKept? line column = some segment) :
    ∃ covering, chain.covering? line column = some covering := by
  have member : segment ∈ chain.rootCovered line column := by
    simpa using List.mem_of_find?_eq_some last
  rw [covering?_eq_getLast? chain line column counted]
  exact ⟨_, List.getLast?_eq_some_getLast (List.ne_nil_of_mem member)⟩

/-- Following a marker leads nowhere. -/
theorem followRoot_unmapped (chain : Chain) {segment : Segment} (unmapped : segment.origin = none) :
    chain.followRoot segment = none := by
  simp only [followRoot, Option.bind_eq_bind]
  cases chain.root? with
  | none => rfl
  | some root => exact follow_unmapped unmapped

/-- A hit of the root's map is a hit on a location. -/
theorem isLocated_of_followRoot {chain : Chain} (located : chain.IsLocated) {segment : Segment}
    {hit : Hit} (followed : chain.followRoot segment = some hit) : hit.IsLocated := by
  obtain ⟨root, first, walked⟩ := Option.bind_eq_some_iff.mp followed
  exact isLocated_of_follow located (List.mem_of_getElem? first) walked

/-- Flattening keeps what can be traced: a position that is traced to a location is covered,
in the flattened map's table, by a segment that was written for this location. As long
as indices can count the table's sources and names, the segment leads to the location. -/
theorem lookup_flatten_of_trace (workspace : Workspace) (chain : Chain)
    (directory : workspace.provider.cwd.IsLocation) (built : IsBuilt workspace chain)
    (options : FlattenOptions) (line column : UInt32) (location : Location)
    (traced : chain.trace line column = some location) :
    ∃ table segment origin, (chain.flatten options).table = .ok table ∧
      table.lookup line column = some segment ∧ segment.origin = some origin ∧
      table.Marks (chain.flattenBase options) origin location ∧
      (AreCountable table.sources table.names →
        table.Denotes (chain.flattenBase options) origin location) := by
  have located := isLocated_of_built directory built
  rw [trace_eq] at traced
  obtain ⟨segment, covering, ends⟩ := Option.bind_eq_some_iff.mp traced
  obtain ⟨hit, followed, rfl⟩ := Option.map_eq_some_iff.mp ends
  obtain ⟨counted, root, first⟩ := exists_root_of_covering? covering
  obtain ⟨table, flat, flattened⟩ := chain.table_flatten options located
  have related := lookup_flatten located flattened line column counted
  rw [lastKept?_of_keeps covering (by simp [keeps, followed])] at related
  generalize found : table.lookup line column = result at related
  cases related with
  | some writes =>
    cases writes with
    | marker unmapped => simp [followRoot_unmapped chain unmapped] at followed
    | hit other origin ends records =>
      obtain rfl : hit = other := Option.some.inj (followed.symm.trans ends)
      have marks := marks_of_records located first options flattened
        (isLocated_of_followRoot located followed) records
      exact ⟨table, _, origin, flat, found, rfl, marks, marks.denotes⟩

/-- Two maps behind one another, the second of which lists the root again. -/
def twoLayers : Workspace where
  provider := ((Memory.put {} (.ofText "/out.js") []).put (.ofText "/mid.js") []).provider
  overrides :=
    { maps :=
        [(.ofText "out.js",
          { version := 3, sources := ["mid.js"], names := ["f"], mappings := "AAAAA;KACA" }),
         (.ofText "mid.js",
          { version := 3, sources := ["lib/a.ts", "out.js"], mappings := "AAGE;ACAA" })] }

/-- The chain of two maps behind one another. -/
def twoLayersChain : Chain where
  nodes :=
    [⟨.ofText "/out.js", "", some ⟨["mid.js"], [none], ["f"],
        [[⟨0, some ⟨0, 0, 0, some 0⟩⟩], [⟨5, some ⟨0, 1, 0, none⟩⟩]]⟩, [.resolved 1]⟩,
     ⟨.ofText "/mid.js", "", some ⟨["lib/a.ts", "out.js"], [none, none], [],
        [[⟨0, some ⟨0, 3, 2, none⟩⟩], [⟨0, some ⟨1, 3, 2, none⟩⟩]]⟩,
        [.unresolved (.ofText "/lib/a.ts"), .resolved 0]⟩]
  cwd := .root

/-- A position that is traced through two maps is led to the same place, whose name the
first of them has, by the flattened map. -/
theorem lookup_flatten_twoLayers : ∃ table segment origin,
    (twoLayersChain.flatten { base := some (.ofText "maps") }).table = .ok table ∧
      table.lookup 1 7 = some segment ∧ segment.origin = some origin ∧
      table.Marks (.ofText "/maps") origin ⟨.ofText "/lib/a.ts", 4, 2, some "f"⟩ ∧
      (AreCountable table.sources table.names →
        table.Denotes (.ofText "/maps") origin ⟨.ofText "/lib/a.ts", 4, 2, some "f"⟩) :=
  lookup_flatten_of_trace twoLayers twoLayersChain Path.isLocation_root
    (.inl ⟨.ofText "out.js", by decide +kernel⟩) { base := some (.ofText "maps") } 1 7
    ⟨.ofText "/lib/a.ts", 4, 2, some "f"⟩ (by decide +kernel)

/-- Flattening invents no location: a mapped segment that covers a position of the flattened
map was written for the end of the last kept segment of the root's map at or before the
position. Tracing comes to the same end unless the root's own segment there is mapped
and leads nowhere. -/
theorem trace_of_lookup_flatten (workspace : Workspace) (chain : Chain)
    (directory : workspace.provider.cwd.IsLocation) (built : IsBuilt workspace chain)
    (options : FlattenOptions) (table : Table) (flat : (chain.flatten options).table = .ok table)
    (line column : UInt32) (segment : Segment) (origin : Origin)
    (found : table.lookup line column = some segment) (mapped : segment.origin = some origin) :
    ∃ kept hit, chain.lastKept? line column = some kept ∧ chain.followRoot kept = some hit ∧
      table.Marks (chain.flattenBase options) origin hit.location ∧
      (AreCountable table.sources table.names →
        table.Denotes (chain.flattenBase options) origin hit.location) ∧
      (chain.trace line column = some hit.location ∨
        chain.trace line column = none ∧ ∃ dropped,
          chain.covering? line column = some dropped ∧ dropped.origin.isSome = true ∧
          chain.followRoot dropped = none) := by
  have located := isLocated_of_built directory built
  obtain ⟨_, same, flattened⟩ := chain.table_flatten options located
  obtain rfl := Except.ok.inj (flat.symm.trans same)
  have counted : line ≠ 0 := by
    rintro rfl
    simp [Table.lookup_zero] at found
  have related := lookup_flatten located flattened line column counted
  rw [found] at related
  generalize last : chain.lastKept? line column = result at related
  cases related with
  | @some kept _ writes =>
    cases writes with
    | marker unmapped => simp [Segment.unmapped] at mapped
    | hit hit written followed records =>
      obtain rfl : written = origin := by simpa using mapped
      obtain ⟨root, first, _⟩ := Option.bind_eq_some_iff.mp followed
      have marks := marks_of_records located first options flattened
        (isLocated_of_followRoot located followed) records
      refine ⟨kept, hit, rfl, followed, marks, marks.denotes, ?_⟩
      obtain ⟨own, covering⟩ := exists_covering?_of_lastKept? counted last
      by_cases keep : chain.keeps own = true
      · -- The segment that covers the position is the one that was written.
        obtain rfl : own = kept :=
          Option.some.inj ((lastKept?_of_keeps covering keep).symm.trans last)
        exact .inl (by simp [trace_eq, covering, followed])
      · simp only [keeps, Bool.or_eq_true, not_or, Option.isNone_iff_eq_none, Bool.not_eq_true,
          Option.isSome_eq_false_iff] at keep
        obtain ⟨mapped, lost⟩ := keep
        refine .inr ⟨by simp [trace_eq, covering, lost], own, covering, ?_, lost⟩
        exact Option.isSome_iff_ne_none.mpr mapped

/-- A map whose last segment leads to a source without a name. -/
def namelessEnd : Workspace where
  provider := (Memory.put {} (.ofText "/out.js") []).provider
  overrides :=
    { maps := [(.ofText "out.js",
        { version := 3, sources := ["a.ts", ""], mappings := "AAAA,KCAA" })] }

/-- The chain of a map with a nameless end. -/
def namelessEndChain : Chain where
  nodes :=
    [⟨.ofText "/out.js", "", some ⟨["a.ts", ""], [none, none], [],
        [[⟨0, some ⟨0, 0, 0, none⟩⟩, ⟨5, some ⟨1, 0, 0, none⟩⟩]]⟩,
      [.unresolved (.ofText "/a.ts"), .blank]⟩]
  cwd := .root

/-- The table of the flattened map, which lacks the last segment. -/
def namelessEndTable : Table where
  sources := ["a.ts"]
  contents := [none]
  names := []
  lines := [[⟨0, some ⟨0, 0, 0, none⟩⟩]]

/-- Behind the end the flattened map leads to where the segment in front of it leads. -/
theorem trace_of_lookup_flatten_namelessEnd : ∃ kept hit,
    namelessEndChain.lastKept? 1 6 = some kept ∧
      namelessEndChain.followRoot kept = some hit ∧
      namelessEndTable.Marks .root ⟨0, 0, 0, none⟩ hit.location ∧
      (AreCountable namelessEndTable.sources namelessEndTable.names →
        namelessEndTable.Denotes .root ⟨0, 0, 0, none⟩ hit.location) ∧
      (namelessEndChain.trace 1 6 = some hit.location ∨
        namelessEndChain.trace 1 6 = none ∧ ∃ dropped,
          namelessEndChain.covering? 1 6 = some dropped ∧ dropped.origin.isSome = true ∧
          namelessEndChain.followRoot dropped = none) :=
  trace_of_lookup_flatten namelessEnd namelessEndChain Path.isLocation_root
    (.inl ⟨.ofText "out.js", by decide +kernel⟩) {} namelessEndTable (by decide +kernel) 1 6
    ⟨0, some ⟨0, 0, 0, none⟩⟩ ⟨0, 0, 0, none⟩ (by decide +kernel) rfl

/-- A flattened map can cover a position with a location that tracing does not find. -/
theorem exists_lookup_flatten_untraced : ∃ workspace chain table segment,
    Path.IsLocation workspace.provider.cwd ∧ IsBuilt workspace chain ∧
      (chain.flatten {}).table = .ok table ∧ table.lookup 1 6 = some segment ∧
      segment.origin.isSome = true ∧ chain.trace 1 6 = none :=
  ⟨namelessEnd, namelessEndChain, namelessEndTable, ⟨0, some ⟨0, 0, 0, none⟩⟩,
    Path.isLocation_root, .inl ⟨.ofText "out.js", by decide +kernel⟩, by decide +kernel,
    by decide +kernel, rfl, by decide +kernel⟩

end Chain

end MapChain
