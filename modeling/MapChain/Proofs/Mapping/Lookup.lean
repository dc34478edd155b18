import MapChain.Mapping.Table
import MapChain.Proofs.Itemwise

/-!
# What a position looks up

The segments at or before a position are all those of earlier lines and, of the
position's own line, those that start no later than it. Looking a position up finds the
last of them. A table that was made holds its lines in order, so on a line these are
simply the segments with a small enough column.

Where the segments of one table correspond to those of another that are kept, line by
line and on the same columns, so do the segments that both find.
-/

namespace MapChain

namespace Segment

/-- On an ordered line the segments that start no later than a column stand in front. -/
theorem takeWhile_eq_filter (line : List Segment) (column : UInt32) (ordered : Ordered line) :
    line.takeWhile (fun segment => segment.column ≤ column) =
      line.filter fun segment => segment.column ≤ column := by
  induction line with
  | nil => rfl
  | cons segment line inductionHypothesis =>
    obtain ⟨least, rest⟩ := List.pairwise_cons.mp ordered
    by_cases before : segment.column ≤ column
    · simp [before, inductionHypothesis rest]
    · have none : ∀ later ∈ line, ¬later.column ≤ column := by
        intro later member atMost
        exact before (UInt32.le_trans (least later member) atMost)
      simp only [List.takeWhile_cons, List.filter_cons, before, decide_false, Bool.false_eq_true,
        if_false]
      exact (List.filter_eq_nil_iff.mpr (by simpa using none)).symm

/-- A part of an ordered line is ordered. -/
theorem ordered_filter (line : List Segment) (kept : Segment → Bool) (ordered : Ordered line) :
    Ordered (line.filter kept) := List.Pairwise.filter kept ordered

end Segment

namespace Table

/-- All lines of a table are in order. -/
def IsOrdered (table : Table) : Prop := ∀ line ∈ table.lines, Segment.Ordered line

/-- The segments at or before a position, in the order of the table. -/
def covered (table : Table) (line column : UInt32) : List Segment :=
  (table.lines.take (line.toNat - 1)).flatten ++
    (table.line line).takeWhile fun segment => segment.column ≤ column

/-- The last element of some lists one behind the other is that of the last list with one. -/
theorem getLast?_flatten (lists : List (List α)) :
    lists.flatten.getLast? = lists.reverse.findSome? List.getLast? := by
  induction lists with
  | nil => rfl
  | cons first lists inductionHypothesis =>
    rw [List.flatten_cons, List.getLast?_append, inductionHypothesis, List.reverse_cons,
      List.findSome?_append]
    cases lists.reverse.findSome? List.getLast? <;> simp

/-- Looking a position up finds the last segment at or before it. -/
theorem lookup_eq_getLast?_covered (table : Table) (line column : UInt32) (counted : line ≠ 0) :
    table.lookup line column = (table.covered line column).getLast? := by
  simp only [lookup, covered, if_neg counted, List.getLast?_append, getLast?_flatten]
  cases ((table.line line).takeWhile fun segment => segment.column ≤ column).getLast? <;> rfl

/-- Nothing stands in front of the first line. -/
theorem lookup_zero (table : Table) (column : UInt32) : table.lookup 0 column = none := rfl

/-- Lines that correspond to the kept part of others do so on every line of the tables. -/
theorem forall₂_line {Related : Segment → Segment → Prop} {kept : Segment → Bool}
    (table other : Table)
    (related : List.Forall₂ (fun line later => List.Forall₂ Related (line.filter kept) later)
      table.lines other.lines) (line : UInt32) :
    List.Forall₂ Related ((table.line line).filter kept) (other.line line) := by
  have at_index : ∀ (lines others : List (List Segment)) (index : Nat),
      List.Forall₂ (fun line later => List.Forall₂ Related (line.filter kept) later) lines others →
      List.Forall₂ Related (((lines[index]?).getD []).filter kept) ((others[index]?).getD []) := by
    intro lines others index related
    induction related generalizing index with
    | nil => simp
    | cons first rest inductionHypothesis =>
      cases index with
      | zero => simpa using first
      | succ index => simpa using inductionHypothesis index
  simp only [Table.line]
  split
  · exact .nil
  · exact at_index _ _ _ related

/-- Where lines correspond to the kept part of others, so do as many lines from the front, one
behind the other. -/
theorem forall₂_flatten {Related : Segment → Segment → Prop} {kept : Segment → Bool}
    (lines others : List (List Segment))
    (related : List.Forall₂ (fun line later => List.Forall₂ Related (line.filter kept) later)
      lines others) (count : Nat) :
    List.Forall₂ Related ((lines.take count).flatten.filter kept) (others.take count).flatten := by
  induction related generalizing count with
  | nil => simp
  | cons first rest inductionHypothesis =>
    cases count with
    | zero => simp
    | succ count =>
      simp only [List.take_succ_cons, List.flatten_cons, List.filter_append]
      exact List.rel_append first (inductionHypothesis count)

/-- Filtering by a column commutes with a correspondence that keeps columns. -/
theorem forall₂_filter_column {Related : Segment → Segment → Prop} (line later : List Segment)
    (column : UInt32) (aligned : ∀ first second, Related first second →
      first.column = second.column)
    (related : List.Forall₂ Related line later) :
    List.Forall₂ Related (line.filter fun segment => segment.column ≤ column)
      (later.filter fun segment => segment.column ≤ column) := by
  induction related with
  | nil => exact .nil
  | @cons segment other _ _ first rest inductionHypothesis =>
    have same : segment.column = other.column := aligned segment other first
    by_cases before : other.column ≤ column
    · simpa [same, before] using List.Forall₂.cons first inductionHypothesis
    · simpa [same, before] using inductionHypothesis

/-- Each line of a table in order is in order, and so is one that the table does not have. -/
theorem ordered_line {table : Table} (ordered : table.IsOrdered) (line : UInt32) :
    Segment.Ordered (table.line line) := by
  by_cases zero : line = 0
  · rw [Table.line, if_pos zero]
    exact .nil
  · rw [Table.line, if_neg zero]
    cases found : table.lines[line.toNat - 1]? with
    | none => exact .nil
    | some segments => exact ordered segments (List.mem_of_getElem? found)

/-- Segments at or before a position correspond if the tables do. -/
theorem forall₂_covered {Related : Segment → Segment → Prop} {kept : Segment → Bool}
    (table other : Table) (line column : UInt32)
    (aligned : ∀ first second, Related first second → first.column = second.column)
    (ordered : table.IsOrdered) (otherOrdered : other.IsOrdered)
    (related : List.Forall₂ (fun line later => List.Forall₂ Related (line.filter kept) later)
      table.lines other.lines) :
    List.Forall₂ Related ((table.covered line column).filter kept) (other.covered line column) := by
  have own := forall₂_filter_column _ _ column aligned (forall₂_line table other related line)
  simp only [covered, List.filter_append]
  refine List.rel_append (forall₂_flatten _ _ related _) ?_
  rw [Segment.takeWhile_eq_filter _ column (ordered_line ordered line),
    Segment.takeWhile_eq_filter _ column (ordered_line otherOrdered line), List.filter_filter]
  simpa only [List.filter_filter, Bool.and_comm] using own

/-- An origin whose indices both point somewhere. -/
def PointsInto (sources names : Nat) (origin : Origin) : Prop :=
  origin.source.toNat < sources ∧ ∀ name ∈ origin.name, name.toNat < names

/-- A table as it can be made: its lines are in order, it has an entry for the text of every
source, and its origins all point somewhere. -/
structure IsWellFormed (table : Table) : Prop where
  ordered : table.IsOrdered
  carried : table.contents.length = table.sources.length
  valid : ∀ segments ∈ table.lines, ∀ segment ∈ segments, ∀ origin ∈ segment.origin,
    PointsInto table.sources.length table.names.length origin

/-- An origin whose first index that points nowhere is missing points somewhere. -/
theorem pointsInto_of_danglingOf {sources names line : Nat} {origin : Origin}
    (none : danglingOf sources names line origin = none) : PointsInto sources names origin := by
  by_cases behind : sources ≤ origin.source.toNat
  · simp [danglingOf, behind] at none
  · rw [danglingOf, if_neg behind] at none
    refine ⟨by omega, ?_⟩
    intro name named
    rw [Option.mem_def.mp named] at none
    by_contra outside
    simp [Nat.le_of_not_lt outside] at none

/-- Where nothing dangles all origins point somewhere. -/
theorem pointsInto_of_dangling? {sources names line : Nat} {lines : List (List Segment)}
    (none : dangling? sources names line lines = none) :
    ∀ segments ∈ lines, ∀ segment ∈ segments, ∀ origin ∈ segment.origin,
      PointsInto sources names origin := by
  induction lines generalizing line with
  | nil => simp
  | cons first lines inductionHypothesis =>
    simp only [dangling?] at none
    split at none
    · simp at none
    · rename_i clean
      intro segments member segment inside origin has
      rcases List.mem_cons.mp member with rfl | member
      · have listed : origin ∈ segments.filterMap (·.origin) :=
          List.mem_filterMap.mpr ⟨segment, inside, has⟩
        exact pointsInto_of_danglingOf (List.findSome?_eq_none_iff.mp clean origin listed)
      · exact inductionHypothesis none segments member segment inside origin has

/-- Resizing gives as many texts as are asked for. -/
theorem length_resize (length : Nat) (contents : List (Option String)) :
    (resize length contents).length = length := by
  simp only [resize, List.length_append, List.length_take, List.length_replicate]
  omega

/-- A table that was made holds the lists that it was made of, one text for each source, and
the lines sorted. -/
theorem eq_of_make {sources : List String} {contents : List (Option String)}
    {names : List String} {lines : List (List Segment)} {table : Table}
    (made : make sources contents names lines = .ok table) :
    table = ⟨sources, resize sources.length contents, names, lines.map Segment.sort⟩ := by
  simp only [make] at made
  split at made
  · simp at made
  · exact (Except.ok.inj made).symm

/-- A table that was made is well formed. -/
theorem isWellFormed_of_make (sources : List String) (contents : List (Option String))
    (names : List String) (lines : List (List Segment)) (table : Table)
    (made : make sources contents names lines = .ok table) : table.IsWellFormed := by
  simp only [make] at made
  split at made
  · simp at made
  · rename_i clean
    obtain rfl := Except.ok.inj made
    refine ⟨?_, ?_, pointsInto_of_dangling? clean⟩
    · intro line member
      obtain ⟨given, _, rfl⟩ := List.mem_map.mp member
      exact Segment.ordered_sort given
    · exact length_resize sources.length contents

/-- What covers a position is a segment of the table. -/
theorem exists_line_of_lookup {table : Table} {line column : UInt32} {segment : Segment}
    (found : table.lookup line column = some segment) :
    ∃ segments ∈ table.lines, segment ∈ segments := by
  have counted : line ≠ 0 := by
    rintro rfl
    simp [lookup_zero] at found
  rw [lookup_eq_getLast?_covered table line column counted] at found
  rcases List.mem_append.mp (List.mem_of_getLast? found) with earlier | own
  · obtain ⟨segments, member, inside⟩ := List.mem_flatten.mp earlier
    exact ⟨segments, List.mem_of_mem_take member, inside⟩
  · have inside := List.takeWhile_subset _ own
    simp only [Table.line, if_neg counted] at inside
    cases has : table.lines[line.toNat - 1]? with
    | none => simp [has] at inside
    | some segments => exact ⟨segments, List.mem_of_getElem? has, by simpa [has] using inside⟩

/-- Nothing dangles on lines whose origins all point somewhere. -/
theorem dangling?_eq_none (sources names line : Nat) (lines : List (List Segment))
    (valid : ∀ segments ∈ lines, ∀ segment ∈ segments, ∀ origin ∈ segment.origin,
      PointsInto sources names origin) : dangling? sources names line lines = none := by
  induction lines generalizing line with
  | nil => rfl
  | cons segments lines inductionHypothesis =>
    have first : (segments.filterMap (·.origin)).findSome? (danglingOf sources names line) =
        none := by
      rw [List.findSome?_eq_none_iff]
      intro origin member
      obtain ⟨segment, inside, found⟩ := List.mem_filterMap.mp member
      obtain ⟨sourceValid, nameValid⟩ := valid segments (by simp) segment inside origin found
      rw [danglingOf, if_neg (by omega)]
      cases named : origin.name with
      | none => rfl
      | some name =>
        have inRange : name.toNat < names := nameValid name named
        simp only
        rw [if_neg (by omega)]
    simp only [dangling?, first]
    exact inductionHypothesis (line + 1) fun later member => valid later (by simp [member])

/-- Ordered lines whose origins all point somewhere make a table as they are. -/
theorem make_eq_ok (sources : List String) (contents : List (Option String))
    (names : List String) (lines : List (List Segment))
    (ordered : ∀ line ∈ lines, Segment.Ordered line)
    (valid : ∀ segments ∈ lines, ∀ segment ∈ segments, ∀ origin ∈ segment.origin,
      PointsInto sources.length names.length origin) :
    make sources contents names lines =
      .ok ⟨sources, resize sources.length contents, names, lines⟩ := by
  have same : lines.map Segment.sort = lines := by
    refine Eq.trans (List.map_congr_left fun line member => ?_) (List.map_id lines)
    exact Segment.sort_eq_self line (ordered line member)
  simp only [make, same, dangling?_eq_none _ _ _ lines valid]

end Table

end MapChain
