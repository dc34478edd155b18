import MapChain.Chain.Basic

/-!
# Tracing positions

A position in the root is followed from map to map until it comes to a file without
one, to a source without text, or back to a file that it has come through. What it
comes to there is its location. Names are found on the way, and the deepest one wins.

Lines of queries and locations count from one, columns from zero. A walk visits every
file at most once, which is also why it ends.
-/

namespace MapChain

/-- A position in a source. -/
structure Location where
  source : Path
  line : UInt32
  column : UInt32
  name : Option String
  deriving DecidableEq

/-- A location and the text of the file it lies in, if that is known. -/
structure Hit where
  location : Location
  content : Option String
  deriving DecidableEq

/-- The hit with a name for want of a deeper one. -/
def Hit.named (hit : Hit) (name : Option String) : Hit :=
  { hit with location.name := hit.location.name <|> name }

/-- The line that follows, except behind the last that can be counted. -/
def nextLine (line : UInt32) : UInt32 := if line = 0xFFFFFFFF then line else line + 1

namespace Chain

/-- The numbers of the nodes that a walk has not come through. -/
def unvisited (chain : Chain) (visited : List Nat) : List Nat :=
  (List.range chain.nodes.length).filter fun id => id ∉ visited

/-- Coming to a new node leaves fewer to come to. -/
theorem unvisited_length_lt (chain : Chain) (visited : List Nat) (id : Nat)
    (stored : id < chain.nodes.length) (fresh : id ∉ visited) :
    (chain.unvisited (id :: visited)).length < (chain.unvisited visited).length := by
  have narrower : chain.unvisited (id :: visited) =
      (chain.unvisited visited).filter fun other => other ≠ id := by
    simp only [unvisited, List.filter_filter]
    apply List.filter_congr
    intro other _
    simp
  rw [narrower]
  refine List.length_filter_lt_length_iff_exists.mpr ⟨id, ?_, by simp⟩
  exact List.mem_filter.mpr ⟨List.mem_range.mpr stored, by simpa using fresh⟩

/-- Follows a segment of the map of `node` to where it ends. `visited` holds the numbers
of the nodes on the walk, that of `node` included. -/
def follow (chain : Chain) (visited : List Nat) (node : Node) (segment : Segment) : Option Hit :=
  match node.table, segment.origin with
  | some table, some origin =>
    let line := nextLine origin.line
    let name := origin.name.bind table.name?
    match node.children[origin.source.toNat]? with
    | none | some .blank => none
    | some (.unresolved path) => some ⟨⟨path, line, origin.column, name⟩, none⟩
    | some (.resolved id) =>
      if stored : id < chain.nodes.length then
        let child := chain.nodes[id]
        match child.table with
        | none => some ⟨⟨child.path, line, origin.column, name⟩, some child.content⟩
        | some inner =>
          if seen : id ∈ visited then
            some ⟨⟨child.path, line, origin.column, name⟩, some child.content⟩
          else
            match inner.lookup line origin.column with
            | none => none
            | some segment => (follow chain (id :: visited) child segment).map (·.named name)
      else none
  | _, _ => none
termination_by (chain.unvisited visited).length
decreasing_by exact unvisited_length_lt chain visited id stored seen

/-- Follows a segment of the root's map to where it ends. -/
def followRoot (chain : Chain) (segment : Segment) : Option Hit := do
  chain.follow [rootId] (← chain.root?) segment

/-- The location that a position of the root comes from. None if the root has no map,
if nothing or an unmapped marker covers the position, or if it comes to a source
without a name. -/
def trace (chain : Chain) (line column : UInt32) : Option Location := do
  let root ← chain.root?
  let segment ← (← root.table).lookup line column
  return (← chain.followRoot segment).location

end Chain

end MapChain
