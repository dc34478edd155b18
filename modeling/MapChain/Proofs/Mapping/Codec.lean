import MapChain.Mapping.Codec
import MapChain.Proofs.Mapping.Vlq
import MapChain.Proofs.Text.Split

/-!
# Reading written mappings

Lines of segments that are written as a mappings text read back as the same lines, each
of them sorted. Every total that a segment leaves behind is a 32-bit index, so the
differences between two of them stay far inside what a written value can hold.

No lines at all are written like one empty line and therefore excluded.
-/

namespace MapChain.Codec

/-- A running total that is an index. -/
def IsIndex (total : Int) : Prop := 0 ≤ total ∧ total < 2 ^ 32

/-- Totals that are indices. -/
structure Totals.AreIndices (totals : Totals) : Prop where
  source : IsIndex totals.source
  line : IsIndex totals.line
  column : IsIndex totals.column
  name : IsIndex totals.name

/-- An index is a total in range. -/
theorem isIndex_total (index : UInt32) : IsIndex (total index) := by
  have bound : index.toNat < 2 ^ 32 := index.toNat_lt
  simp only [IsIndex, total]
  omega

/-- An index reads back from its total. -/
theorem index_total (field : Field) (value : UInt32) : index field (total value) = .ok value := by
  have bound : value.toNat < UInt32.size := value.toNat_lt
  have range : 0 ≤ total value ∧ total value < UInt32.size := by
    simp only [total]
    omega
  rw [index, if_pos range]
  simp [total]

/-- Totals at the start of a text are indices. -/
theorem areIndices_start : ({} : Totals).AreIndices := by
  constructor <;> simp [IsIndex]

/-- The totals behind a segment are indices if those in front of it are. -/
theorem areIndices_differences (generated : Int) (totals : Totals) (segment : Segment)
    (ranged : totals.AreIndices) : (differences generated totals segment).2.AreIndices := by
  obtain ⟨column, origin⟩ := segment
  cases origin with
  | none => exact ranged
  | some origin =>
    obtain ⟨source, line, inner, name⟩ := origin
    have named : IsIndex ((name.map total).getD totals.name) := by
      cases name with
      | none => exact ranged.name
      | some name => exact isIndex_total name
    cases name <;>
      exact ⟨isIndex_total source, isIndex_total line, isIndex_total inner, named⟩

/-- Two indices differ by less than 33 bits can count. -/
theorem natAbs_sub_lt (first second : Int) (firstRanged : IsIndex first)
    (secondRanged : IsIndex second) : (first - second).natAbs < 2 ^ 32 := by
  simp only [IsIndex] at firstRanged secondRanged
  omega

/-- Every difference that a segment is written as is one of two indices. -/
theorem natAbs_lt_of_mem_differences (generated : Int) (totals : Totals) (segment : Segment)
    (generatedRanged : IsIndex generated) (ranged : totals.AreIndices) (value : Int)
    (member : value ∈ (differences generated totals segment).1) : value.natAbs < 2 ^ 32 := by
  obtain ⟨column, origin⟩ := segment
  have first := natAbs_sub_lt _ _ (isIndex_total column) generatedRanged
  cases origin with
  | none =>
    simp only [differences, List.mem_singleton] at member
    exact member ▸ first
  | some origin =>
    obtain ⟨source, line, inner, name⟩ := origin
    have second := natAbs_sub_lt _ _ (isIndex_total source) ranged.source
    have third := natAbs_sub_lt _ _ (isIndex_total line) ranged.line
    have fourth := natAbs_sub_lt _ _ (isIndex_total inner) ranged.column
    cases name with
    | none =>
      simp only [differences, List.mem_cons, List.not_mem_nil, or_false] at member
      rcases member with rfl | rfl | rfl | rfl <;> assumption
    | some name =>
      have fifth := natAbs_sub_lt _ _ (isIndex_total name) ranged.name
      simp only [differences, Option.map_some, Option.getD_some, List.cons_append,
        List.nil_append, List.mem_cons, List.not_mem_nil, or_false] at member
      rcases member with rfl | rfl | rfl | rfl | rfl <;> assumption

/-- A segment reads back from its differences, with the totals that were behind it. -/
theorem segment_differences (generated : Int) (totals : Totals) (written : Segment) :
    segment generated totals (differences generated totals written).1 =
      .ok (written, total written.column, (differences generated totals written).2) := by
  obtain ⟨column, origin⟩ := written
  have back (first second : Int) : first + (second - first) = second := by omega
  cases origin with
  | none =>
    simp only [differences, segment, back, index_total]
    rfl
  | some origin =>
    obtain ⟨source, line, inner, name⟩ := origin
    cases name with
    | none =>
      simp only [differences, segment, Totals.move, Totals.origin, back, index_total,
        Option.map_none, Option.getD_none, Int.add_zero]
      rfl
    | some name =>
      simp only [differences, segment, Totals.move, Totals.origin, back, index_total,
        Option.map_some, Option.getD_some, List.cons_append, List.nil_append]
      rfl

/-- A segment starts as far behind the column in front of it as its first value says. -/
theorem exists_differences_cons (generated : Int) (totals : Totals) (written : Segment) :
    ∃ others, (differences generated totals written).1 =
      (total written.column - generated) :: others := by
  obtain ⟨column, origin⟩ := written
  cases origin with
  | none => exact ⟨[], rfl⟩
  | some origin =>
    obtain ⟨_, _, _, name⟩ := origin
    cases name <;> exact ⟨_, rfl⟩

/-- The differences of a segment read back from its text. -/
theorem decode_differences (generated : Int) (totals : Totals) (written : Segment)
    (generatedRanged : IsIndex generated) (ranged : totals.AreIndices) :
    Vlq.decode (Utf8.encode ((differences generated totals written).1.flatMap Vlq.encode)) =
      .ok (differences generated totals written).1 := by
  refine Vlq.decode_encode _ fun value member => ?_
  have small := natAbs_lt_of_mem_differences generated totals written generatedRanged ranged
    value member
  omega

/-- A segment reads back from its text. -/
theorem decodeSegment_differences (generated : Int) (totals : Totals) (written : Segment)
    (generatedRanged : IsIndex generated) (ranged : totals.AreIndices) :
    decodeSegment generated totals
        ((differences generated totals written).1.flatMap Vlq.encode) =
      .ok (written, total written.column, (differences generated totals written).2) := by
  rw [decodeSegment, decode_differences generated totals written generatedRanged ranged]
  exact segment_differences generated totals written

/-- A segment is written with at least one digit. -/
theorem differences_text_ne_nil (generated : Int) (totals : Totals) (written : Segment) :
    (differences generated totals written).1.flatMap Vlq.encode ≠ [] := by
  obtain ⟨others, first⟩ := exists_differences_cons generated totals written
  rw [first, List.flatMap_cons]
  exact List.append_ne_nil_of_left_ne_nil (Vlq.encode_ne_nil _) _

/-- The segments of a line read back from their texts, and so do the totals behind it. -/
theorem decodeLine_encodeLine (line place : Nat) (generated : Int) (totals : Totals)
    (segments : List Segment) (generatedRanged : IsIndex generated)
    (ranged : totals.AreIndices) :
    decodeLine line place generated totals (encodeLine generated totals segments).1 =
        .ok (segments, (encodeLine generated totals segments).2) ∧
      (encodeLine generated totals segments).2.AreIndices := by
  induction segments generalizing place generated totals with
  | nil => exact ⟨rfl, ranged⟩
  | cons segment segments inductionHypothesis =>
    have behind := areIndices_differences generated totals segment ranged
    obtain ⟨read, rest⟩ := inductionHypothesis (place + 1) (total segment.column)
      (differences generated totals segment).2 (isIndex_total segment.column) behind
    refine ⟨?_, rest⟩
    simp only [encodeLine]
    rw [decodeLine, decodeSegment_differences generated totals segment generatedRanged ranged]
    · simp only [read]
      rfl
    · exact differences_text_ne_nil generated totals segment

/-- Texts of segments hold no separator, and neither does a line of them a semicolon. -/
theorem ne_separator_of_mem_encodeLine (generated : Int) (totals : Totals)
    (segments : List Segment) (text : List Char) (c : Char)
    (member : text ∈ (encodeLine generated totals segments).1) (inside : c ∈ text) :
    c ≠ ',' ∧ c ≠ ';' := by
  induction segments generalizing generated totals with
  | nil => simp [encodeLine] at member
  | cons segment segments inductionHypothesis =>
    simp only [encodeLine, List.mem_cons] at member
    rcases member with rfl | member
    · obtain ⟨value, _, digit⟩ := List.mem_flatMap.mp inside
      exact Vlq.ne_separator_of_mem_encode value c digit
    · exact inductionHypothesis _ _ member

/-- The segments of a line read back from its text. -/
theorem decodeLine_join (line : Nat) (totals : Totals) (segments : List Segment)
    (ranged : totals.AreIndices) :
    decodeLine line 0 0 totals
        (Text.split ',' (Text.join ',' (encodeLine 0 totals segments).1)) =
      .ok (segments, (encodeLine 0 totals segments).2) := by
  cases segments with
  | nil => rfl
  | cons segment segments =>
    have start : IsIndex 0 := by simp [IsIndex]
    rw [Text.split_join ',' _ (by simp [encodeLine])]
    · exact (decodeLine_encodeLine line 0 0 totals _ start ranged).1
    · intro text member comma
      exact (ne_separator_of_mem_encodeLine _ _ _ text ',' member comma).1 rfl

/-- Lines read back from their texts, each of them sorted. -/
theorem decodeLines_encodeLines (line : Nat) (totals : Totals) (lines : List (List Segment))
    (ranged : totals.AreIndices) :
    decodeLines line totals (encodeLines totals lines) = .ok (lines.map Segment.sort) := by
  induction lines generalizing line totals with
  | nil => rfl
  | cons segments lines inductionHypothesis =>
    have start : IsIndex 0 := by simp [IsIndex]
    have behind := (decodeLine_encodeLine line 0 0 totals segments start ranged).2
    simp only [encodeLines, decodeLines, decodeLine_join line totals segments ranged,
      inductionHypothesis (line + 1) _ behind]
    rfl

/-- A line's text holds no separator of lines. -/
theorem semicolon_not_mem_encodeLines (totals : Totals) (lines : List (List Segment))
    (text : List Char) (member : text ∈ encodeLines totals lines) : ';' ∉ text := by
  induction lines generalizing totals with
  | nil => simp [encodeLines] at member
  | cons segments lines inductionHypothesis =>
    simp only [encodeLines, List.mem_cons] at member
    rcases member with rfl | member
    · intro inside
      rcases Text.mem_join ',' ';' _ inside with impossible | ⟨piece, segment, inside⟩
      · simp at impossible
      · exact (ne_separator_of_mem_encodeLine _ _ _ piece ';' segment inside).2 rfl
    · exact inductionHypothesis _ member

/-- Lines read back from their mappings text, each of them sorted. -/
theorem decode_encode (lines : List (List Segment)) (inhabited : lines ≠ []) :
    decode (encode lines) = .ok (lines.map Segment.sort) := by
  have texts : encodeLines {} lines ≠ [] := by
    cases lines with
    | nil => exact absurd rfl inhabited
    | cons segments lines => simp [encodeLines]
  rw [decode, encode, String.toList_ofList,
    Text.split_join ';' _ texts (semicolon_not_mem_encodeLines {} lines)]
  exact decodeLines_encodeLines 1 {} lines areIndices_start

end MapChain.Codec
