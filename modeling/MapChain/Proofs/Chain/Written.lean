import MapChain.Proofs.Chain.Located
import MapChain.Proofs.Chain.Reached
import MapChain.Proofs.Mapping.Codec
import MapChain.Proofs.Path.Relative

/-!
# What flattening writes

The lines of a flattened map correspond to those of the root's map without the segments
that lead nowhere: a marker is written as itself, and any other segment as one that
records its hit on the same column. So the written lines are in order and all their
indices point somewhere, and the map reads back as a table with these very lines. A
position finds in it the counterpart of the last kept segment of the root at or before
the position.
-/

namespace MapChain

/-- A document whose mappings are the text of ordered lines that point into its lists has
a table of these lines. -/
theorem Document.table_eq_ok (document : Document) (lines : List (List Segment))
    (written : document.mappings = Codec.encode lines) (inhabited : lines ≠ [])
    (ordered : ∀ line ∈ lines, Segment.Ordered line)
    (valid : ∀ segments ∈ lines, ∀ segment ∈ segments, ∀ origin ∈ segment.origin,
      Table.PointsInto document.sources.length document.names.length origin) :
    document.table = .ok
      { sources := document.sources
        contents := Table.resize document.sources.length (document.contents.getD [])
        names := document.names
        lines } := by
  have sorted : lines.map Segment.sort = lines := by
    refine Eq.trans (List.map_congr_left fun line member => ?_) (List.map_id lines)
    exact Segment.sort_eq_self line (ordered line member)
  have read : Codec.decode document.mappings = .ok lines := by
    rw [written, Codec.decode_encode lines inhabited, sorted]
  simp only [table, read, Table.make_eq_ok _ _ _ lines ordered valid]

namespace Chain

/-- Whether flattening keeps a segment of the root's map. Markers are kept, and segments
that lead somewhere. -/
def keeps (chain : Chain) (segment : Segment) : Bool :=
  segment.origin.isNone || (chain.followRoot segment).isSome

/-- What a kept segment is written as. -/
inductive Writes (chain : Chain) (reached : Reached) : Segment → Segment → Prop where
  | marker (segment : Segment) (unmapped : segment.origin = none) :
      Writes chain reached segment (.unmapped segment.column)
  | hit (segment : Segment) (hit : Hit) (origin : Origin)
      (found : chain.followRoot segment = some hit) (records : reached.Records hit origin) :
      Writes chain reached segment ⟨segment.column, some origin⟩

/-- What was written stays right when more is reached. -/
theorem Writes.mono {chain : Chain} {before after : Reached} {segment written : Segment}
    (writes : chain.Writes before segment written) (grows : before.Grows after) :
    chain.Writes after segment written := by
  cases writes with
  | marker unmapped => exact .marker segment unmapped
  | hit hit origin found records => exact .hit segment hit origin found (records.mono grows)

/-- Segments are written on their own columns. -/
theorem Writes.column_eq {chain : Chain} {reached : Reached} {segment written : Segment}
    (writes : chain.Writes reached segment written) : segment.column = written.column := by
  cases writes <;> rfl

/-- The segments of a line that are kept are written one by one. -/
theorem flattenLine_spec (chain : Chain) (reached : Reached) (line : List Segment) :
    reached.Grows (chain.flattenLine reached line).1 ∧
      List.Forall₂ (chain.Writes (chain.flattenLine reached line).1) (line.filter chain.keeps)
        (chain.flattenLine reached line).2 := by
  induction line generalizing reached with
  | nil => exact ⟨.refl reached, .nil⟩
  | cons segment line inductionHypothesis =>
    by_cases unmapped : segment.origin.isNone = true
    · obtain ⟨grows, written⟩ := inductionHypothesis reached
      simp only [flattenLine, unmapped, if_true]
      refine ⟨grows, ?_⟩
      rw [List.filter_cons_of_pos (by simp [keeps, unmapped])]
      exact .cons (.marker segment (Option.isNone_iff_eq_none.mp unmapped)) written
    · simp only [flattenLine, unmapped, Bool.false_eq_true, if_false]
      cases found : chain.followRoot segment with
      | none =>
        rw [List.filter_cons_of_neg (by simp [keeps, unmapped, found])]
        exact inductionHypothesis reached
      | some hit =>
        obtain ⟨early, records⟩ := reached.origin_spec hit
        obtain ⟨late, written⟩ := inductionHypothesis (reached.origin hit).1
        rw [List.filter_cons_of_pos (by simp [keeps, found])]
        exact ⟨early.trans late, .cons (.hit segment hit _ found (records.mono late)) written⟩

/-- Lines are written one by one. -/
theorem flattenLines_spec (chain : Chain) (reached : Reached) (lines : List (List Segment)) :
    reached.Grows (chain.flattenLines reached lines).1 ∧
      List.Forall₂ (fun line written =>
          List.Forall₂ (chain.Writes (chain.flattenLines reached lines).1)
            (line.filter chain.keeps) written)
        lines (chain.flattenLines reached lines).2 := by
  induction lines generalizing reached with
  | nil => exact ⟨.refl reached, .nil⟩
  | cons line lines inductionHypothesis =>
    obtain ⟨early, first⟩ := chain.flattenLine_spec reached line
    obtain ⟨late, rest⟩ := inductionHypothesis (chain.flattenLine reached line).1
    exact ⟨early.trans late, .cons (first.imp fun _ _ each => each.mono late) rest⟩

/-- The sources and names that are reached when the root's map is written. -/
def reached (chain : Chain) : Reached := (chain.flattenLines {} chain.rootLines).1

/-- The segments of the root's map at or before a position. -/
def rootCovered (chain : Chain) (line column : UInt32) : List Segment :=
  ((chain.root?.bind (·.table)).map fun table => table.covered line column).getD []

/-- A line in order is written in order. -/
theorem ordered_of_writes {chain : Chain} {reached : Reached} {line written : List Segment}
    (writes : List.Forall₂ (chain.Writes reached) line written) (ordered : Segment.Ordered line) :
    Segment.Ordered written := by
  have columns : written.map (·.column) = line.map (·.column) := by
    induction writes with
    | nil => rfl
    | cons first _ inductionHypothesis =>
      rw [List.map_cons, List.map_cons, inductionHypothesis (List.Pairwise.of_cons ordered),
        first.column_eq]
  have sorted : (line.map (·.column)).Pairwise (· ≤ ·) := List.pairwise_map.mpr ordered
  exact List.pairwise_map.mp (columns ▸ sorted)

/-- The indices of what is written point into what was reached. -/
theorem pointsInto_of_writes {chain : Chain} {reached : Reached} {segment written : Segment}
    (writes : chain.Writes reached segment written) {origin : Origin}
    (has : origin ∈ written.origin) :
    Table.PointsInto reached.sources.length reached.names.length origin := by
  cases writes with
  | marker unmapped => simp [Segment.unmapped] at has
  | hit hit written found records =>
    obtain rfl : written = origin := by simpa using has
    obtain ⟨source, _, _, named⟩ := records
    refine ⟨by simpa using source.toNat_lt, ?_⟩
    intro index given
    rw [Option.mem_def.mp given] at named
    generalize hit.location.name = entry at named
    cases named with
    | some stands => exact stands.toNat_lt

/-- The lines of the root's map are in order. -/
theorem ordered_of_mem_rootLines {chain : Chain} (located : chain.IsLocated)
    {line : List Segment} (member : line ∈ chain.rootLines) : Segment.Ordered line := by
  simp only [rootLines, root?, node?] at member
  cases first : chain.nodes[rootId]? with
  | none => simp [first] at member
  | some root =>
    cases has : root.table with
    | none => simp [first, has] at member
    | some table =>
      have inside : root ∈ chain.nodes := List.mem_of_getElem? first
      exact located.ordered root inside table has line (by simpa [first, has] using member)

/-- The lines that the root's map is written as, of which there is always one. -/
def writtenLines (chain : Chain) : List (List Segment) :=
  match (chain.flattenLines {} chain.rootLines).2 with
  | [] => [[]]
  | line :: lines => line :: lines

/-- Where the root's map has lines, these are the ones that are written. -/
theorem writtenLines_eq {chain : Chain} (inhabited : chain.rootLines ≠ []) :
    chain.writtenLines = (chain.flattenLines {} chain.rootLines).2 := by
  have related := (chain.flattenLines_spec {} chain.rootLines).2
  simp only [writtenLines]
  split
  · rename_i empty
    exact absurd (by simpa [empty] using related.length_eq) inhabited
  · rename_i same
    exact same.symm

/-- A line that is written comes from a line of the root's map, or stands for none. -/
theorem exists_rootLine_of_mem_writtenLines {chain : Chain} {written : List Segment}
    (member : written ∈ chain.writtenLines) : written = [] ∨ ∃ line ∈ chain.rootLines,
      List.Forall₂ (chain.Writes chain.reached) (line.filter chain.keeps) written := by
  simp only [writtenLines] at member
  split at member
  · exact .inl (by simpa using member)
  · rename_i same
    have spec := (chain.flattenLines_spec {} chain.rootLines).2
    exact .inr (Itemwise.exists_of_mem_right spec (same ▸ member))

/-- The lines that are written are in order. -/
theorem ordered_of_mem_writtenLines {chain : Chain} (located : chain.IsLocated)
    {written : List Segment} (member : written ∈ chain.writtenLines) :
    Segment.Ordered written := by
  rcases exists_rootLine_of_mem_writtenLines member with rfl | ⟨line, inside, writes⟩
  · exact .nil
  · have ordered := ordered_of_mem_rootLines located inside
    exact ordered_of_writes writes (Segment.ordered_filter line chain.keeps ordered)

/-- A table of what flattening a chain writes. -/
structure IsFlattened (chain : Chain) (options : FlattenOptions) (table : Table) : Prop where
  sources : table.sources = chain.reached.sources.map fun source =>
    (source.1.relativeTo (chain.flattenBase options)).text
  names : table.names = chain.reached.names
  lines : table.lines = chain.writtenLines

/-- The flattened map reads back as a table of what was written. -/
theorem table_flatten (chain : Chain) (options : FlattenOptions) (located : chain.IsLocated) :
    ∃ table, (chain.flatten options).table = .ok table ∧ chain.IsFlattened options table := by
  have text : (chain.flatten options).mappings = Codec.encode chain.writtenLines := by
    simp only [flatten, writtenLines]
    -- No lines have the text of one empty line.
    cases (chain.flattenLines {} chain.rootLines).2 <;> rfl
  have inhabited : chain.writtenLines ≠ [] := by
    simp only [writtenLines]
    split <;> simp
  refine ⟨_, Document.table_eq_ok _ _ text inhabited ?_ ?_, rfl, rfl, rfl⟩
  · exact fun written member => ordered_of_mem_writtenLines located member
  · intro written member segment inner origin has
    rcases exists_rootLine_of_mem_writtenLines member with rfl | ⟨line, _, writes⟩
    · simp at inner
    · obtain ⟨own, _, wrote⟩ := Itemwise.exists_of_mem_right writes inner
      simpa [flatten, reached] using pointsInto_of_writes wrote has

/-- A table whose lines are all empty covers nothing. -/
theorem covered_eq_nil (table : Table) (empty : ∀ segments ∈ table.lines, segments = [])
    (line column : UInt32) : table.covered line column = [] := by
  have own : table.line line = [] := by
    simp only [Table.line]
    split
    · rfl
    · cases found : table.lines[line.toNat - 1]? with
      | none => rfl
      | some segments => exact empty segments (List.mem_of_getElem? found)
  have before : (table.lines.take (line.toNat - 1)).flatten = [] := by
    rw [List.flatten_eq_nil_iff]
    exact fun segments member => empty segments (List.mem_of_mem_take member)
  simp [Table.covered, own, before]

/-- The last segment of the root's map at or before a position that flattening keeps. -/
def lastKept? (chain : Chain) (line column : UInt32) : Option Segment :=
  (chain.rootCovered line column).reverse.find? chain.keeps

/-- A position finds in the flattened map what the last kept segment of the root's map at
or before the position is written as. -/
theorem lookup_flatten {chain : Chain} (located : chain.IsLocated) {options : FlattenOptions}
    {table : Table} (flattened : chain.IsFlattened options table) (line column : UInt32)
    (counted : line ≠ 0) :
    Option.Rel (chain.Writes chain.reached) (chain.lastKept? line column)
      (table.lookup line column) := by
  rw [table.lookup_eq_getLast?_covered line column counted, lastKept?, ← List.getLast?_filter]
  apply Itemwise.rel_getLast?
  have ordered : table.IsOrdered := fun segments member =>
    ordered_of_mem_writtenLines located (flattened.lines ▸ member)
  by_cases none : chain.rootLines = []
  · have lines : table.lines = [[]] := by
      simp [flattened.lines, writtenLines, none, flattenLines]
    have covered : chain.rootCovered line column = [] := by
      simp only [rootCovered]
      cases has : chain.root?.bind (·.table) with
      | none => rfl
      | some root => exact covered_eq_nil root (by simp_all [rootLines]) line column
    simp [covered, covered_eq_nil table (by simp [lines])]
  · have related := (chain.flattenLines_spec {} chain.rootLines).2
    have same := writtenLines_eq none
    cases has : chain.root?.bind (·.table) with
    | none => simp [rootLines, has] at none
    | some root =>
      have lines : chain.rootLines = root.lines := by simp [rootLines, has]
      have rootOrdered : root.IsOrdered := fun segments member =>
        ordered_of_mem_rootLines located (lines ▸ member)
      simp only [rootCovered, has, Option.map_some, Option.getD_some]
      refine Table.forall₂_covered root table line column (fun _ _ writes => writes.column_eq)
        rootOrdered ordered ?_
      rw [flattened.lines, same, ← lines]
      exact related

end Chain

end MapChain
