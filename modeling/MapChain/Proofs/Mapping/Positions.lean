import MapChain.Document.Basic
import MapChain.Proofs.Mapping.Lookup

/-!
# Positions in the order of the whole table

Looking a position up goes back from the position's own line to earlier ones. Over the whole
table it is a single search: number the lines from one on and put their segments one behind the
other, as they are stored. The segment that covers a position is the last one whose line and
column, compared in this order, are at most those of the position. Lines behind the end, empty
lines and several segments on one column are no exceptions.

This needs lines in order, and a table has them whether it was made of lines or of a document.
-/

namespace MapChain

/-- The table of a document is made of its lists and the lines that its mappings stand for. -/
theorem Document.exists_make_of_table {document : Document} {table : Table}
    (made : document.table = .ok table) :
    ∃ lines, Codec.decode document.mappings = .ok lines ∧
      Table.make document.sources (document.contents.getD []) document.names lines =
        .ok table := by
  simp only [Document.table] at made
  split at made
  · simp at made
  · rename_i lines read
    split at made
    · simp at made
    · rename_i fits
      obtain rfl := Except.ok.inj made
      exact ⟨lines, read, fits⟩

/-- The table of a document is well formed. -/
theorem Document.isWellFormed_of_table {document : Document} {table : Table}
    (made : document.table = .ok table) : table.IsWellFormed := by
  obtain ⟨lines, _, fits⟩ := Document.exists_make_of_table made
  exact Table.isWellFormed_of_make _ _ _ _ _ fits

namespace Table

/-- A table that was made, of lines and lists or of a document. -/
inductive IsMade (table : Table) : Prop where
  | ofLines (sources : List String) (contents : List (Option String)) (names : List String)
      (lines : List (List Segment)) (made : make sources contents names lines = .ok table)
  | ofDocument (document : Document) (made : document.table = .ok table)

/-- The segments of some lines one behind the other, each with the number of its line. The
first line has the number `first`. -/
def numbered (first : Nat) (lines : List (List Segment)) : List (Nat × Segment) :=
  (lines.zipIdx first).flatMap fun line => line.1.map fun segment => (line.2, segment)

/-- Whether the line and the column of a segment are at most those of a position, the line
compared first. -/
def isAtMost (line column : UInt32) (entry : Nat × Segment) : Bool :=
  entry.1 < line.toNat || (entry.1 = line.toNat && entry.2.column ≤ column)

variable {table : Table} {line column : UInt32}

/-- A table that was made is well formed. -/
theorem IsMade.isWellFormed (made : table.IsMade) : table.IsWellFormed := by
  cases made with
  | ofLines sources contents names lines made =>
    exact isWellFormed_of_make sources contents names lines table made
  | ofDocument document made => exact Document.isWellFormed_of_table made

/-- The segments of the first line come first, then those of the lines behind it. -/
theorem numbered_cons (first : Nat) (segments : List Segment) (lines : List (List Segment)) :
    numbered first (segments :: lines) =
      segments.map (fun segment => (first, segment)) ++ numbered (first + 1) lines := by
  simp [numbered]

/-- On a line in front of a position's, all segments are at most at the position. -/
theorem filter_isAtMost_of_lt {number : Nat} (earlier : number < line.toNat)
    (segments : List Segment) :
    (segments.map fun segment => (number, segment)).filter (isAtMost line column) =
      segments.map fun segment => (number, segment) := by
  rw [List.filter_eq_self]
  intro entry member
  obtain ⟨segment, _, rfl⟩ := List.mem_map.mp member
  simp [isAtMost, earlier]

/-- On a position's own line, the segments at most at the position are those up to its column. -/
theorem filter_isAtMost_of_eq (segments : List Segment) :
    (segments.map fun segment => (line.toNat, segment)).filter (isAtMost line column) =
      (segments.filter fun segment => segment.column ≤ column).map
        fun segment => (line.toNat, segment) := by
  rw [List.filter_map]
  congr 2
  funext segment
  simp [isAtMost]

/-- On lines behind a position's, no segment is at most at the position. -/
theorem filter_isAtMost_of_gt {first : Nat} (later : line.toNat < first)
    (lines : List (List Segment)) : (numbered first lines).filter (isAtMost line column) = [] := by
  induction lines generalizing first with
  | nil => rfl
  | cons segments lines inductionHypothesis =>
    have none : (segments.map fun segment => (first, segment)).filter (isAtMost line column) =
        [] := by
      rw [List.filter_eq_nil_iff]
      intro entry member
      obtain ⟨segment, _, rfl⟩ := List.mem_map.mp member
      have notBefore : ¬first < line.toNat := by omega
      have notThere : first ≠ line.toNat := by omega
      simp [isAtMost, notBefore, notThere]
    rw [numbered_cons, List.filter_append, none, inductionHypothesis (by omega), List.append_nil]

/-- The segments at most at a position are those of the lines in front of it and, on its own
line, those up to its column. -/
theorem filter_numbered {first : Nat} (reached : first ≤ line.toNat)
    (lines : List (List Segment)) :
    ((numbered first lines).filter (isAtMost line column)).map (·.2) =
      (lines.take (line.toNat - first)).flatten ++
        ((lines[line.toNat - first]?).getD []).filter fun segment => segment.column ≤ column := by
  induction lines generalizing first with
  | nil => simp [numbered]
  | cons segments lines inductionHypothesis =>
    rw [numbered_cons, List.filter_append, List.map_append]
    rcases Nat.eq_or_lt_of_le reached with rfl | earlier
    · rw [filter_isAtMost_of_eq, filter_isAtMost_of_gt (Nat.lt_succ_self _), Nat.sub_self]
      simp [Function.comp_def]
    · obtain ⟨more, steps⟩ : ∃ more, line.toNat - first = more + 1 :=
        ⟨line.toNat - first - 1, by omega⟩
      have fewer : line.toNat - (first + 1) = more := by omega
      rw [filter_isAtMost_of_lt earlier, inductionHypothesis earlier, fewer, steps]
      simp [Function.comp_def]

/-- In a table in order, the segments at or before a position are those at most there. -/
theorem covered_eq_filter (ordered : table.IsOrdered) (counted : line ≠ 0) :
    table.covered line column =
      ((numbered 1 table.lines).filter (isAtMost line column)).map (·.2) := by
  have reached : 1 ≤ line.toNat := by
    have positive : line.toNat ≠ 0 := fun zero => counted (UInt32.toNat_inj.mp zero)
    omega
  have own := ordered_line ordered line
  rw [filter_numbered reached, covered, Segment.takeWhile_eq_filter _ column own, Table.line,
    if_neg counted]

/-- Looking a position up finds the last segment of the whole table, in the table's order, whose
line and column are at most those of the position. There is none for line zero. -/
theorem lookup_eq_getLast?_filter (made : table.IsMade) (line column : UInt32) :
    table.lookup line column =
        (((numbered 1 table.lines).filter (isAtMost line column)).getLast?).map (·.2) ∧
      table.lookup 0 column = none := by
  refine ⟨?_, lookup_zero table column⟩
  by_cases counted : line = 0
  · subst counted
    rw [lookup_zero, filter_isAtMost_of_gt Nat.zero_lt_one]
    rfl
  · rw [lookup_eq_getLast?_covered table line column counted,
      covered_eq_filter made.isWellFormed.ordered counted, List.getLast?_map]

/-- A document whose first line is empty, with two segments on one column and a last line that
starts behind its first column. -/
def sparse : Document :=
  { version := 3, sources := ["a.ts"], mappings := ";AAAA,EACA,AACA;;KACA" }

/-- The table of the document with the empty first line. -/
def sparseTable : Table where
  sources := ["a.ts"]
  contents := [none]
  names := []
  lines := [[],
    [⟨0, some ⟨0, 0, 0, none⟩⟩, ⟨2, some ⟨0, 1, 0, none⟩⟩, ⟨2, some ⟨0, 2, 0, none⟩⟩], [],
    [⟨5, some ⟨0, 3, 0, none⟩⟩]]

/-- In front of the first segment of the last line, a position is covered by the second of those
on one column. -/
theorem lookup_eq_getLast?_filter_sparse : sparseTable.IsMade ∧
    sparseTable.lookup 4 3 =
        (((numbered 1 sparseTable.lines).filter (isAtMost 4 3)).getLast?).map (·.2) ∧
      sparseTable.lookup 0 3 = none :=
  have made : sparseTable.IsMade := .ofDocument sparse (by decide +kernel)
  ⟨made, lookup_eq_getLast?_filter made 4 3⟩

end Table

end MapChain
