import MapChain.Mapping.Segment

/-!
# Mapping tables

A table holds the decoded lines of a map together with the lists that its segments
point into. It can only be made by `Table.make`, which sorts every line and refuses an
index that points nowhere. Generated lines count from one when a table is asked.

The segment that covers a position is the last one that starts at or before it. A line
without one falls back to the lines above, because maps leave out lines whose mapping
has not changed.
-/

namespace MapChain

/-- Which list of a table an index points into. -/
inductive Listing where
  | source
  | name
  deriving DecidableEq, Repr

/-- What a listing's entries are called in messages. -/
def Listing.title : Listing → String
  | .source => "source"
  | .name => "name"

/-- An index of a segment on a generated line that points behind the end of its list. -/
structure Dangling where
  line : Nat
  listing : Listing
  index : UInt32
  count : Nat
  deriving DecidableEq, Repr

/-- Decoded mappings and the lists they point into. -/
structure Table where
  sources : List String
  /-- One entry per source. -/
  contents : List (Option String)
  names : List String
  lines : List (List Segment)
  deriving DecidableEq, Repr

namespace Table

/-- The first index of an origin that points nowhere, the source before the name. -/
def danglingOf (sources names line : Nat) (origin : Origin) : Option Dangling :=
  if sources ≤ origin.source.toNat then some ⟨line, .source, origin.source, sources⟩
  else
    match origin.name with
    | none => none
    | some name => if names ≤ name.toNat then some ⟨line, .name, name, names⟩ else none

/-- The first index on sorted lines, counted from `line` on, that points nowhere. -/
def dangling? (sources names : Nat) : (line : Nat) → List (List Segment) → Option Dangling
  | _, [] => none
  | line, segments :: rest =>
    match (segments.filterMap (·.origin)).findSome? (danglingOf sources names line) with
    | some dangling => some dangling
    | none => dangling? sources names (line + 1) rest

/-- The entries cut or padded with none to a length. -/
def resize (length : Nat) (contents : List (Option String)) : List (Option String) :=
  contents.take length ++ List.replicate (length - contents.length) none

/-- The table of some lines, which it sorts, unless an index points nowhere. -/
def make (sources : List String) (contents : List (Option String)) (names : List String)
    (lines : List (List Segment)) : Except Dangling Table :=
  let lines := lines.map Segment.sort
  match dangling? sources.length names.length 1 lines with
  | some dangling => .error dangling
  | none => .ok ⟨sources, resize sources.length contents, names, lines⟩

/-- The source of an index. -/
def source? (table : Table) (index : UInt32) : Option String := table.sources[index.toNat]?

/-- The text that the map carries for a source. -/
def content? (table : Table) (index : UInt32) : Option String :=
  (table.contents[index.toNat]?).join

/-- The name of an index. -/
def name? (table : Table) (index : UInt32) : Option String := table.names[index.toNat]?

/-- The segments of a generated line; none for a line that does not exist. -/
def line (table : Table) (line : UInt32) : List Segment :=
  if line = 0 then [] else (table.lines[line.toNat - 1]?).getD []

/-- The segment that covers a position. -/
def lookup (table : Table) (line column : UInt32) : Option Segment :=
  if line = 0 then none
  else
    match ((table.line line).takeWhile fun segment => segment.column ≤ column).getLast? with
    | some segment => some segment
    | none => (table.lines.take (line.toNat - 1)).reverse.findSome? List.getLast?

end Table

end MapChain
