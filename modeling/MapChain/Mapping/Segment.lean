/-!
# Segments

A segment is one entry of a map. It starts at a column of a generated line and either
names the position in a source that the text from there on came from, or marks that
text as unmapped. Columns and lines of sources count from zero. A line of segments is
kept in the order of its columns; segments on one column keep the order they were
given in.
-/

namespace MapChain

/-- Where generated text came from. Source and name are indices into the lists of
their map. -/
structure Origin where
  source : UInt32
  line : UInt32
  column : UInt32
  name : Option UInt32
  deriving DecidableEq, Repr, Inhabited

/-- One entry of a generated line. -/
structure Segment where
  column : UInt32
  origin : Option Origin
  deriving DecidableEq, Repr, Inhabited

namespace Segment

/-- A marker from which on the text has no origin. -/
def unmapped (column : UInt32) : Segment := ⟨column, none⟩

/-- Puts a segment in front of the first one that does not start before it. -/
def insert (segment : Segment) : List Segment → List Segment
  | [] => [segment]
  | next :: rest =>
    if segment.column ≤ next.column then segment :: next :: rest
    else next :: insert segment rest

/-- The segments in the order of their columns, ties in the given order. -/
def sort : List Segment → List Segment
  | [] => []
  | segment :: rest => insert segment (sort rest)

/-- Inserting a segment adds it and nothing else. -/
theorem insert_perm (segment : Segment) (line : List Segment) :
    (insert segment line).Perm (segment :: line) := by
  induction line with
  | nil => exact .refl _
  | cons next rest ih =>
    simp only [insert]
    split
    · exact .refl _
    · exact (ih.cons next).trans (.swap segment next rest)

/-- Sorting loses and doubles nothing. -/
theorem sort_perm (line : List Segment) : (sort line).Perm line := by
  induction line with
  | nil => exact .refl _
  | cons segment rest ih => exact (insert_perm segment (sort rest)).trans (ih.cons segment)

/-- A line whose columns never fall. -/
def Ordered (line : List Segment) : Prop :=
  line.Pairwise fun first second => first.column ≤ second.column

/-- Inserting keeps the order. -/
theorem ordered_insert (segment : Segment) (line : List Segment) (ordered : Ordered line) :
    Ordered (insert segment line) := by
  induction line with
  | nil => simp [insert, Ordered]
  | cons next rest ih =>
    obtain ⟨least, rest_ordered⟩ := List.pairwise_cons.mp ordered
    simp only [insert]
    split
    · rename_i before
      refine List.pairwise_cons.mpr ⟨?_, ordered⟩
      intro later member
      rcases List.mem_cons.mp member with rfl | member
      · exact before
      · exact UInt32.le_trans before (least later member)
    · rename_i after
      have next_before : next.column ≤ segment.column := by
        rcases UInt32.le_total segment.column next.column with before | before
        · exact absurd before after
        · exact before
      refine List.pairwise_cons.mpr ⟨?_, ih rest_ordered⟩
      intro later member
      rcases List.mem_cons.mp ((insert_perm segment rest).mem_iff.mp member) with rfl | member
      · exact next_before
      · exact least later member

/-- A sorted line is in order. -/
theorem ordered_sort (line : List Segment) : Ordered (sort line) := by
  induction line with
  | nil => exact .nil
  | cons segment rest ih => exact ordered_insert segment (sort rest) ih

/-- A line in order is left as it is. -/
theorem sort_eq_self (line : List Segment) (ordered : Ordered line) : sort line = line := by
  induction line with
  | nil => rfl
  | cons segment rest ih =>
    obtain ⟨least, rest_ordered⟩ := List.pairwise_cons.mp ordered
    rw [sort, ih rest_ordered]
    cases rest with
    | nil => rfl
    | cons next rest => simp [insert, least next (by simp)]

end Segment

end MapChain
