import MapChain.Proofs.Mapping.Lookup
import MapChain.Proofs.Mapping.Sorting

/-!
# What making a table comes to

A table can be made of lines exactly if every index of every segment points into its list.
It then holds the given lists and the given lines, each line sorted by column with ties in
the given order, and an entry for the text of each source.

Otherwise the first index that points nowhere is reported. Making sorts a line before it
looks at it, so what comes first is a matter of the line, then of the column, and only then of
the place at which a segment was given. Which segment this is can be said without sorting, since
the segments on one column of a sorted line stand there in the order in which they were given.
-/

namespace MapChain

namespace Segment

/-- A segment whose indices all point into lists of some lengths. A marker has none. -/
def PointsInto (sources names : Nat) (segment : Segment) : Prop :=
  ∀ origin ∈ segment.origin, Table.PointsInto sources names origin

/-- A segment of a sorted line was given at some place. Whatever was given on a smaller column,
or on the same column at an earlier place, stands in front of it. -/
theorem exists_place_of_sort {given front behind : List Segment} {segment : Segment}
    (sorted : sort given = front ++ segment :: behind) :
    ∃ place : Nat, given[place]? = some segment ∧
      ∀ (otherPlace : Nat) (other : Segment), given[otherPlace]? = some other →
        (other.column < segment.column ∨
          other.column = segment.column ∧ otherPlace < place) → other ∈ front := by
  have stable : onColumn given segment.column =
      onColumn front segment.column ++ segment :: onColumn behind segment.column := by
    rw [← (isStableSort_sort given).stable, sorted, onColumn, List.filter_append,
      List.filter_cons_of_pos (by simp)]
    rfl
  obtain ⟨before, rest, rfl, ahead, own⟩ := List.filter_eq_append_iff.mp stable
  obtain ⟨others, after, rfl, apart, -, -⟩ := List.filter_eq_cons_iff.mp own
  refine ⟨(before ++ others).length, by simp [← List.append_assoc], ?_⟩
  rintro otherPlace other stands (smaller | ⟨same, earlier⟩)
  · have member : other ∈ front ++ segment :: behind := by
      rw [← sorted, (sort_perm _).mem_iff]
      exact List.mem_of_getElem? stands
    rcases List.mem_append.mp member with inside | later
    · exact inside
    · -- What does not stand in front of the segment starts no earlier.
      have ordered := ordered_sort (before ++ (others ++ segment :: after))
      rw [sorted] at ordered
      have least : segment.column ≤ other.column := by
        rcases List.mem_cons.mp later with rfl | later
        · exact UInt32.le_refl _
        · exact (List.pairwise_cons.mp (List.pairwise_append.mp ordered).2.1).1 other later
      exact absurd least (UInt32.not_le.mpr smaller)
  · rw [← List.append_assoc, List.getElem?_append_left earlier] at stands
    rcases List.mem_append.mp (List.mem_of_getElem? stands) with inside | between
    · have listed : other ∈ onColumn front segment.column := by
        rw [← ahead]
        exact List.mem_filter.mpr ⟨inside, by simpa using same⟩
      exact (List.mem_filter.mp listed).1
    · exact absurd same (by simpa using apart other between)

end Segment

namespace Table

/-- An index of an origin that points nowhere, as it is reported for a line. The name is looked
at only if the source points somewhere. -/
inductive Blames (sources names line : Nat) (origin : Origin) : Dangling → Prop where
  | source (behind : sources ≤ origin.source.toNat) :
      Blames sources names line origin ⟨line, .source, origin.source, sources⟩
  | name (name : UInt32) (inside : origin.source.toNat < sources)
      (named : origin.name = some name) (behind : names ≤ name.toNat) :
      Blames sources names line origin ⟨line, .name, name, names⟩

/-- A segment of some lines, with the number of its line, counted from zero, and the place in
the line at which it was given. -/
structure Entry (lines : List (List Segment)) where
  line : Nat
  place : Nat
  segment : Segment
  segments : List Segment
  listed : lines[line]? = some segments
  given : segments[place]? = some segment

/-- An entry comes before another one on an earlier line, on a smaller column of the same line,
or at an earlier place on the same column. -/
def Entry.Precedes {lines : List (List Segment)} (first second : Entry lines) : Prop :=
  first.line < second.line ∨
    first.line = second.line ∧
      (first.segment.column < second.segment.column ∨
        first.segment.column = second.segment.column ∧ first.place < second.place)

/-- What is reported of lines, which are counted from one: an index of an entry behind entries
whose indices all point somewhere. -/
def Reports (sources names : Nat) (lines : List (List Segment)) (dangling : Dangling) : Prop :=
  ∃ (entry : Entry lines) (origin : Origin), entry.segment.origin = some origin ∧
    Blames sources names (entry.line + 1) origin dangling ∧
    ∀ other : Entry lines, other.Precedes entry → other.segment.PointsInto sources names

/-- A table that holds given lists and lines. Each line is sorted and has lost and doubled
nothing, and each source has the text that was given at its place, if any. -/
structure Holds (sources : List String) (contents : List (Option String)) (names : List String)
    (lines : List (List Segment)) (table : Table) : Prop where
  counted : table.contents.length = sources.length
  texts : ∀ rank < sources.length, table.contents[rank]? = some (contents[rank]?).join
  sources : table.sources = sources
  names : table.names = names
  lines : List.Forall₂ (fun given stored => Segment.IsStableSort given stored ∧ stored.Perm given)
    lines table.lines

/-- What making a table of lists and lines comes to: a table that holds them exactly if all
segments point into the lists, and otherwise a report of the first index that does not. -/
structure IsMaking (sources : List String) (contents : List (Option String))
    (names : List String) (lines : List (List Segment)) (result : Except Dangling Table) :
    Prop where
  accepts : (∃ table, result = .ok table) ↔
    ∀ line ∈ lines, ∀ segment ∈ line, segment.PointsInto sources.length names.length
  keeps : ∀ table, result = .ok table → Holds sources contents names lines table
  blames : ∀ dangling, result = .error dangling →
    Reports sources.length names.length lines dangling

variable {sources names line : Nat} {origin : Origin} {dangling : Dangling}

/-- The first index of an origin that points nowhere is what is reported of it. -/
theorem blames_of_danglingOf (found : danglingOf sources names line origin = some dangling) :
    Blames sources names line origin dangling := by
  rw [danglingOf] at found
  split at found
  · rename_i behind
    obtain rfl := Option.some.inj found
    exact .source behind
  · rename_i inside
    split at found
    · simp at found
    · rename_i name named
      split at found
      · rename_i behind
        obtain rfl := Option.some.inj found
        exact .name name (Nat.lt_of_not_le inside) named behind
      · simp at found

/-- An origin of which something is reported does not point into both lists. -/
theorem Blames.not_pointsInto (blames : Blames sources names line origin dangling) :
    ¬PointsInto sources names origin := by
  rintro ⟨source, name⟩
  cases blames with
  | source behind => omega
  | name own _ named behind =>
    have inside := name own named
    omega

/-- The first index on a line that points nowhere is that of a segment behind segments whose
indices all point somewhere. -/
theorem exists_segment_of_findSome? {segments : List Segment}
    (found : (segments.filterMap (·.origin)).findSome? (danglingOf sources names line) =
      some dangling) :
    ∃ front segment behind origin, segments = front ++ segment :: behind ∧
      segment.origin = some origin ∧ Blames sources names line origin dangling ∧
      ∀ other ∈ front, other.PointsInto sources names := by
  obtain ⟨earlier, origin, later, listed, own, clean⟩ := List.findSome?_eq_some_iff.mp found
  obtain ⟨before, rest, rfl, front, cut⟩ := List.filterMap_eq_append_iff.mp listed
  obtain ⟨markers, segment, behind, rfl, unmapped, mapped, -⟩ := List.filterMap_eq_cons_iff.mp cut
  refine ⟨before ++ markers, segment, behind, origin, by simp, mapped,
    blames_of_danglingOf own, ?_⟩
  intro other member inner has
  rcases List.mem_append.mp member with inside | marker
  · have among : inner ∈ earlier := front ▸ List.mem_filterMap.mpr ⟨other, inside, has⟩
    exact pointsInto_of_danglingOf (clean inner among)
  · simp [unmapped other marker] at has

/-- The first index on several lines that points nowhere is the first one of a line behind
lines without any. -/
theorem exists_line_of_dangling? {lines : List (List Segment)}
    (found : dangling? sources names line lines = some dangling) :
    ∃ before segments below, lines = before ++ segments :: below ∧
      (segments.filterMap (·.origin)).findSome?
        (danglingOf sources names (line + before.length)) = some dangling ∧
      ∀ other ∈ before, ∀ segment ∈ other, segment.PointsInto sources names := by
  fun_induction dangling? sources names line lines with
  | case1 => simp at found
  | case2 line segments below first own =>
    obtain rfl := Option.some.inj found
    exact ⟨[], segments, below, rfl, own, by simp⟩
  | case3 line segments below clean inductionHypothesis =>
    obtain ⟨before, culprit, rest, rfl, own, sound⟩ := inductionHypothesis found
    refine ⟨segments :: before, culprit, rest, rfl, ?_, ?_⟩
    · rw [List.length_cons, Nat.add_comm before.length, ← Nat.add_assoc]
      exact own
    · refine List.forall_mem_cons.mpr ⟨?_, sound⟩
      intro segment member origin has
      have listed : origin ∈ segments.filterMap (·.origin) :=
        List.mem_filterMap.mpr ⟨segment, member, has⟩
      exact pointsInto_of_danglingOf (List.findSome?_eq_none_iff.mp clean origin listed)

/-- What dangles first on sorted lines is reported of the lines as they were given. -/
theorem reports_of_dangling? {lines : List (List Segment)}
    (found : dangling? sources names 1 (lines.map Segment.sort) = some dangling) :
    Reports sources names lines dangling := by
  obtain ⟨before, sorted, below, cut, own, sound⟩ := exists_line_of_dangling? found
  obtain ⟨earlier, rest, rfl, rfl, turned⟩ := List.map_eq_append_iff.mp cut
  obtain ⟨given, later, rfl, rfl, -⟩ := List.map_eq_cons_iff.mp turned
  obtain ⟨front, segment, behind, origin, whole, mapped, blames, clean⟩ :=
    exists_segment_of_findSome? own
  obtain ⟨place, stands, preceding⟩ := Segment.exists_place_of_sort whole
  let entry : Entry (earlier ++ given :: later) :=
    ⟨earlier.length, place, segment, given, by simp, stands⟩
  refine ⟨entry, origin, mapped, ?_, ?_⟩
  · rw [List.length_map, Nat.add_comm] at blames
    exact blames
  · rintro ⟨index, otherPlace, other, segments, listed, has⟩ (above | ⟨same, ahead⟩)
    · -- An earlier line has the same segments sorted or not.
      have inside : segments ∈ earlier := by
        rw [List.getElem?_append_left above] at listed
        exact List.mem_of_getElem? listed
      have member : other ∈ Segment.sort segments :=
        (Segment.sort_perm segments).mem_iff.mpr (List.mem_of_getElem? has)
      exact sound _ (List.mem_map_of_mem inside) other member
    · obtain rfl : index = earlier.length := same
      obtain rfl : given = segments := by simpa using listed
      exact clean other (preceding otherPlace other has ahead)

/-- A text that is given for a source stays at its place, and the places behind the given ones
have none. -/
theorem getElem?_resize {length rank : Nat} (contents : List (Option String))
    (inside : rank < length) : (resize length contents)[rank]? = some (contents[rank]?).join := by
  rw [resize, List.getElem?_append, List.length_take]
  split
  · rename_i within
    have stored : rank < contents.length := by omega
    simp [inside, List.getElem?_eq_getElem stored]
  · rename_i outside
    have missing : contents.length ≤ rank := by omega
    have padded : rank - min length contents.length < length - contents.length := by omega
    simp [List.getElem?_eq_none missing, padded]

/-- Making a table gives one that holds the given lists and lines exactly if all segments point
into the lists. Otherwise it reports the first index that points nowhere, by line, then by
column, then by given place. -/
theorem isMaking_make (sources : List String) (contents : List (Option String))
    (names : List String) (lines : List (List Segment)) :
    IsMaking sources contents names lines (make sources contents names lines) := by
  rw [make]
  cases found : dangling? sources.length names.length 1 (lines.map Segment.sort) with
  | none =>
    refine ⟨⟨fun _ => ?_, fun _ => ⟨_, rfl⟩⟩, ?_, by simp⟩
    · intro line member segment inside
      have sorted : segment ∈ Segment.sort line := (Segment.sort_perm line).mem_iff.mpr inside
      exact pointsInto_of_dangling? found _ (List.mem_map_of_mem member) segment sorted
    · rintro table made
      obtain rfl := Except.ok.inj made
      refine ⟨length_resize sources.length contents,
        fun rank inside => getElem?_resize contents inside, rfl, rfl, ?_⟩
      rw [List.forall₂_map_right_iff, List.forall₂_same]
      exact fun line _ => ⟨Segment.isStableSort_sort line, Segment.sort_perm line⟩
  | some dangling =>
    have reports := reports_of_dangling? found
    refine ⟨⟨by simp, fun valid => ?_⟩, by simp, ?_⟩
    · obtain ⟨entry, origin, mapped, blames, -⟩ := reports
      have inside := valid entry.segments (List.mem_of_getElem? entry.listed) entry.segment
        (List.mem_of_getElem? entry.given) origin mapped
      exact absurd inside blames.not_pointsInto
    · rintro own same
      exact Except.error.inj same ▸ reports

/-- Of two segments on one line that both point nowhere, the one on the smaller column is
reported although it was given last, and of its two indices the source. -/
example : make ["a.ts"] [] [] [[⟨7, some ⟨0, 0, 0, some 4⟩⟩, ⟨2, some ⟨9, 0, 0, some 5⟩⟩]] =
    .error ⟨1, .source, 9, 1⟩ := by decide

end Table

end MapChain
