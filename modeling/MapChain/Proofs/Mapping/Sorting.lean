import MapChain.Proofs.Itemwise
import MapChain.Proofs.Mapping.Codec

/-!
# Written lines read back in stable order

Sorting a line is stable: the segments of one column keep the order in which they stand.
Being in order and stable decides a line, so the sorted line is the only one that is both.
Lines of any segments, written as a mappings text, read back as these lines.
-/

namespace MapChain

namespace Segment

/-- The segments on one column, in the order of the line. -/
def onColumn (line : List Segment) (column : UInt32) : List Segment :=
  line.filter fun segment => segment.column = column

/-- A line in the order of its columns that has on each column what a given line has there,
in the given order. -/
structure IsStableSort (line sorted : List Segment) : Prop where
  ordered : Ordered sorted
  stable : ∀ column, onColumn sorted column = onColumn line column

/-- A segment in front of a line is in front of those on its column. -/
theorem onColumn_cons (segment : Segment) (line : List Segment) (column : UInt32) :
    onColumn (segment :: line) column =
      if segment.column = column then segment :: onColumn line column
      else onColumn line column := by
  by_cases same : segment.column = column <;> simp [onColumn, same]

/-- Inserting a segment puts it in front of those on its column. -/
theorem onColumn_insert (segment : Segment) (line : List Segment) (column : UInt32) :
    onColumn (insert segment line) column = onColumn (segment :: line) column := by
  induction line with
  | nil => rfl
  | cons next line inductionHypothesis =>
    by_cases before : segment.column ≤ next.column
    · rw [insert, if_pos before]
    · -- What is passed over lies on a smaller column, so it is not among the same ones.
      have apart : ¬(segment.column = column ∧ next.column = column) := by
        rintro ⟨same, other⟩
        exact before (same.trans other.symm ▸ UInt32.le_refl _)
      rw [insert, if_neg before, onColumn_cons, inductionHypothesis]
      simp only [onColumn_cons]
      split <;> split <;> simp_all

/-- Sorting is stable. -/
theorem isStableSort_sort (line : List Segment) : IsStableSort line (sort line) := by
  refine ⟨ordered_sort line, ?_⟩
  intro column
  induction line with
  | nil => rfl
  | cons segment line inductionHypothesis =>
    rw [sort, onColumn_insert, onColumn_cons, onColumn_cons, inductionHypothesis]

/-- The first segment of an ordered line starts no later than any segment that stands on a
column of the line. -/
theorem column_le_of_onColumn {first segment : Segment} {line : List Segment}
    (ordered : Ordered (first :: line))
    (stands : segment ∈ onColumn (first :: line) segment.column) :
    first.column ≤ segment.column := by
  obtain ⟨least, _⟩ := List.pairwise_cons.mp ordered
  rcases List.mem_cons.mp (List.mem_filter.mp stands).1 with rfl | later
  · exact UInt32.le_refl _
  · exact least segment later

/-- A segment stands on its own column. -/
theorem mem_onColumn_cons (segment : Segment) (line : List Segment) :
    segment ∈ onColumn (segment :: line) segment.column := by
  simp [onColumn]

/-- Two ordered lines with the same segments on each column are the same. -/
theorem eq_of_onColumn_eq {first second : List Segment} (firstOrdered : Ordered first)
    (secondOrdered : Ordered second)
    (same : ∀ column, onColumn first column = onColumn second column) : first = second := by
  induction first generalizing second with
  | nil =>
    cases second with
    | nil => rfl
    | cons segment second =>
      have stands := mem_onColumn_cons segment second
      rw [← same] at stands
      simp [onColumn] at stands
  | cons segment first inductionHypothesis =>
    cases second with
    | nil =>
      have stands := mem_onColumn_cons segment first
      rw [same] at stands
      simp [onColumn] at stands
    | cons other second =>
      have later : other.column ≤ segment.column :=
        column_le_of_onColumn secondOrdered (same _ ▸ mem_onColumn_cons segment first)
      have earlier : segment.column ≤ other.column :=
        column_le_of_onColumn firstOrdered (same _ ▸ mem_onColumn_cons other second)
      have column : other.column = segment.column := UInt32.le_antisymm later earlier
      have heads := same segment.column
      simp only [onColumn_cons, column, if_true, List.cons.injEq] at heads
      obtain ⟨rfl, _⟩ := heads
      have tails : ∀ column, onColumn first column = onColumn second column := by
        intro column
        have whole := same column
        simp only [onColumn_cons] at whole
        split at whole
        · exact (List.cons.inj whole).2
        · exact whole
      rw [inductionHypothesis firstOrdered.of_cons secondOrdered.of_cons tails]

/-- The sorted line is the only one in order and stable. -/
theorem isStableSort_iff (line sorted : List Segment) :
    IsStableSort line sorted ↔ sorted = sort line := by
  constructor
  · rintro ⟨ordered, stable⟩
    have sort := isStableSort_sort line
    exact eq_of_onColumn_eq ordered sort.ordered fun column =>
      (stable column).trans (sort.stable column).symm
  · rintro rfl
    exact isStableSort_sort line

end Segment

namespace Codec

/-- Lines of any segments read back from their mappings text, each of them sorted by column
with the segments of one column in the given order. Lines in order read back as they are. -/
theorem decode_encode_isStableSort (lines : List (List Segment)) (inhabited : lines ≠ []) :
    ∃ read, decode (encode lines) = .ok read ∧ List.Forall₂ Segment.IsStableSort lines read ∧
      ((∀ line ∈ lines, Segment.Ordered line) → read = lines) := by
  refine ⟨lines.map Segment.sort, decode_encode lines inhabited, ?_, ?_⟩
  · rw [List.forall₂_map_right_iff, List.forall₂_same]
    exact fun line _ => Segment.isStableSort_sort line
  · intro ordered
    refine Eq.trans (List.map_congr_left fun line member => ?_) (List.map_id lines)
    exact Segment.sort_eq_self line (ordered line member)

/-- Lines with falling columns, two segments on one column, an empty line, and fields from
one end of their range to the other. -/
def scattered : List (List Segment) :=
  [[⟨9, some ⟨4294967295, 0, 4294967295, some 7⟩⟩, ⟨4294967295, none⟩,
      ⟨2, some ⟨0, 4294967295, 0, none⟩⟩, ⟨9, none⟩],
    [], [⟨0, some ⟨1, 1, 1, some 0⟩⟩]]

/-- The scattered lines read back, each of them sorted. -/
theorem decode_encode_scattered : scattered ≠ [] ∧
    ∃ read, decode (encode scattered) = .ok read ∧
      List.Forall₂ Segment.IsStableSort scattered read ∧
      ((∀ line ∈ scattered, Segment.Ordered line) → read = scattered) :=
  ⟨by decide, decode_encode_isStableSort scattered (by decide)⟩

end Codec

end MapChain
