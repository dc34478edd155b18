import Mathlib.Data.List.Chain
import Mathlib.Data.List.Perm.Subperm
import MapChain.Chain.Trace

/-!
# Traces as walks

Tracing a position is a walk from node to node. A hop leaves a node by the mapped segment of its
map that covers the position come to; the next hop leaves the child for the segment's source, at
the position that the segment names there. A walk never comes to a node twice. It stops at a child
without text, without a map, or that it has come through already, and what it has found is that
child's path, the position that its last segment names, and the last name on the way.

The walk is stated apart from the recursion that follows it: as a list of hops, each of them next
to the one before, all at different nodes. So it has at most as many hops as the chain has nodes.
Nothing is asked of the chain. Nodes may list themselves, or one another in circles, and numbers
that stand for no node end a trace like a source without a name.
-/

namespace MapChain.Chain

/-- A node of a chain with a map, and a mapped segment of the map. -/
structure Hop (chain : Chain) where
  id : Nat
  node : Node
  table : Table
  segment : Segment
  origin : Origin
  stored : chain.node? id = some node
  has : node.table = some table
  mapped : segment.origin = some origin

namespace Hop

variable {chain : Chain}

/-- The line of the segment's origin, counted from one. -/
def line (hop : Hop chain) : UInt32 := nextLine hop.origin.line

/-- The column of the segment's origin. -/
def column (hop : Hop chain) : UInt32 := hop.origin.column

/-- The name that the segment gives its origin. -/
def name? (hop : Hop chain) : Option String := hop.origin.name.bind hop.table.name?

/-- What the segment's source stands for. -/
def child? (hop : Hop chain) : Option Child := hop.node.children[hop.origin.source.toNat]?

/-- The segment is the one that covers a position. -/
def Covers (hop : Hop chain) (line column : UInt32) : Prop :=
  hop.table.lookup line column = some hop.segment

/-- A hop leads to another one if that one leaves the node that it comes to, by the segment that
covers the position that it comes to. -/
structure LeadsTo (hop next : Hop chain) : Prop where
  child : hop.child? = some (.resolved next.id)
  covers : next.Covers hop.line hop.column

end Hop

variable {chain : Chain}

/-- A child at which a walk through some nodes stops, and its path: a source without text, a node
without a map, or one of these nodes. -/
inductive StopsAt (chain : Chain) (passed : List Nat) : Child → Path → Prop where
  | unresolved (path : Path) : StopsAt chain passed (.unresolved path) path
  | leaf (id : Nat) (node : Node) (stored : chain.node? id = some node)
      (bare : node.table = none) : StopsAt chain passed (.resolved id) node.path
  | again (id : Nat) (node : Node) (stored : chain.node? id = some node) (seen : id ∈ passed) :
      StopsAt chain passed (.resolved id) node.path

/-- Hops that lead from each to the next through nodes that are all different, also from those
passed before, up to a location at which the walk stops. -/
structure IsWay (chain : Chain) (passed : List Nat) (hops : List (Hop chain))
    (location : Location) : Prop where
  connected : hops.IsChain Hop.LeadsTo
  distinct : (hops.map Hop.id ++ passed).Nodup
  stops : ∃ last child, hops.getLast? = some last ∧ last.child? = some child ∧
    chain.StopsAt (hops.map Hop.id ++ passed) child location.source ∧
    location.line = last.line ∧ location.column = last.column
  name : location.name = (hops.filterMap Hop.name?).getLast?

/-- The walk from a position of the root to a location: a way that starts at the root, by the
segment that covers the position. -/
structure IsWalk (chain : Chain) (line column : UInt32) (hops : List (Hop chain))
    (location : Location) : Prop where
  starts : ∃ first, hops.head? = some first ∧ first.id = rootId ∧ first.Covers line column
  way : chain.IsWay [] hops location

/-- A source without text ends a walk. -/
theorem follow_unresolved {visited : List Nat} {node : Node} {table : Table} {segment : Segment}
    {origin : Origin} {target : Path} (has : node.table = some table)
    (mapped : segment.origin = some origin)
    (child : node.children[origin.source.toNat]? = some (.unresolved target)) :
    chain.follow visited node segment =
      some ⟨⟨target, nextLine origin.line, origin.column, origin.name.bind table.name?⟩, none⟩ := by
  rw [follow, has, mapped]
  simp only [child]

/-- A file without a map, or one that the walk has come through, ends a walk. -/
theorem follow_final {visited : List Nat} {node : Node} {table : Table} {segment : Segment}
    {origin : Origin} {id : Nat} (has : node.table = some table)
    (mapped : segment.origin = some origin)
    (child : node.children[origin.source.toNat]? = some (.resolved id))
    (stored : id < chain.nodes.length)
    (final : chain.nodes[id].table = none ∨ id ∈ visited) :
    chain.follow visited node segment =
      some ⟨⟨chain.nodes[id].path, nextLine origin.line, origin.column,
        origin.name.bind table.name?⟩, some chain.nodes[id].content⟩ := by
  rw [follow, has, mapped]
  simp only [child, stored, dif_pos]
  cases inner : chain.nodes[id].table with
  | none => rfl
  | some deeper =>
    have seen : id ∈ visited := final.resolve_left (by simp [inner])
    simp only [dif_pos seen]

/-- From a file with a map that is new to the walk, this goes on by the segment that covers the
position there. -/
theorem follow_hop {visited : List Nat} {hop next : Hop chain} (leads : hop.LeadsTo next)
    (new : next.id ∉ visited) : chain.follow visited hop.node hop.segment =
      (chain.follow (next.id :: visited) next.node next.segment).map (·.named hop.name?) := by
  obtain ⟨stored, node⟩ := List.getElem?_eq_some_iff.mp next.stored
  have child : hop.node.children[hop.origin.source.toNat]? = some (.resolved next.id) :=
    leads.child
  have covers : next.table.lookup (nextLine hop.origin.line) hop.origin.column =
      some next.segment := leads.covers
  rw [follow, hop.has, hop.mapped]
  simp only [child, stored, dif_pos, node, next.has, new, dif_neg, not_false_eq_true, covers]
  rfl

/-- The last name of a list of hops is the first one's only if no other has one. -/
theorem getLast?_names_cons (hop : Hop chain) (hops : List (Hop chain)) :
    ((hop :: hops).filterMap Hop.name?).getLast? =
      ((hops.filterMap Hop.name?).getLast? <|> hop.name?) := by
  cases named : hop.name? with
  | none => simp [named]
  | some name =>
    rw [List.filterMap_cons_some named, List.getLast?_cons]
    cases (hops.filterMap Hop.name?).getLast? <;> rfl

/-- Where a walk stops does not hang on the order in which it has come through nodes. -/
theorem StopsAt.mono {passed more : List Nat} {child : Child} {path : Path}
    (stops : chain.StopsAt passed child path) (wider : passed ⊆ more) :
    chain.StopsAt more child path := by
  cases stops with
  | unresolved => exact .unresolved path
  | leaf id node stored bare => exact .leaf id node stored bare
  | again id node stored seen => exact .again id node stored (wider seen)

variable {passed : List Nat} {hop next : Hop chain} {rest : List (Hop chain)}
  {location deeper : Location}

/-- The nodes of a way that starts with a hop are those of the way behind it, which has passed the
hop's node. -/
theorem perm_ids (passed : List Nat) (hop : Hop chain) (hops : List (Hop chain)) :
    (hops.map Hop.id ++ hop.id :: passed).Perm ((hop :: hops).map Hop.id ++ passed) :=
  List.perm_middle

/-- A way of a single hop stops at what its source stands for. -/
theorem isWay_singleton_iff : chain.IsWay passed [hop] location ↔
    (hop.id :: passed).Nodup ∧ ∃ child, hop.child? = some child ∧
      ∃ path, chain.StopsAt (hop.id :: passed) child path ∧
        location = ⟨path, hop.line, hop.column, hop.name?⟩ := by
  have name : ([hop].filterMap Hop.name?).getLast? = hop.name? := by
    rw [getLast?_names_cons]
    rfl
  constructor
  · rintro ⟨_, distinct, ⟨last, child, same, stands, stops, line, column⟩, named⟩
    obtain rfl : hop = last := by simpa using same
    refine ⟨distinct, child, stands, location.source, stops, ?_⟩
    rw [← line, ← column, ← name, ← named]
  · rintro ⟨distinct, child, stands, path, stops, rfl⟩
    exact ⟨.singleton hop, distinct, ⟨hop, child, rfl, stands, stops, rfl, rfl⟩, name.symm⟩

/-- A way of several hops is a hop and a way from where it leads to, which does not come back to
it. The hop's name counts for want of a deeper one. -/
theorem isWay_cons_iff : chain.IsWay passed (hop :: next :: rest) location ↔
    hop.LeadsTo next ∧ ∃ deeper, chain.IsWay (hop.id :: passed) (next :: rest) deeper ∧
      location = { deeper with name := deeper.name <|> hop.name? } := by
  have ids := perm_ids passed hop (next :: rest)
  constructor
  · rintro ⟨connected, distinct, ⟨last, child, final, stands, stops, line, column⟩, named⟩
    obtain ⟨leads, behind⟩ := List.isChain_cons_cons.mp connected
    rw [List.getLast?_cons_cons] at final
    rw [getLast?_names_cons] at named
    refine ⟨leads, { location with name := ((next :: rest).filterMap Hop.name?).getLast? },
      ⟨behind, ids.nodup_iff.mpr distinct, ?_, rfl⟩, ?_⟩
    · exact ⟨last, child, final, stands, stops.mono ids.symm.subset, line, column⟩
    · rw [← named]
  · rintro ⟨leads, deeper, ⟨connected, distinct, stopping, named⟩, rfl⟩
    obtain ⟨last, child, final, stands, stops, line, column⟩ := stopping
    refine ⟨.cons_cons leads connected, ids.nodup_iff.mp distinct, ?_, ?_⟩
    · exact ⟨last, child, by rw [List.getLast?_cons_cons, final], stands, stops.mono ids.subset,
        line, column⟩
    · rw [getLast?_names_cons, named]

/-- A marker leads nowhere. -/
theorem follow_unmapped {visited : List Nat} {node : Node} {segment : Segment}
    (unmapped : segment.origin = none) : chain.follow visited node segment = none := by
  rw [follow, unmapped]
  cases node.table <;> rfl

/-- What following a hop to a hit comes to first: a child at which the walk stops, or another
hop, from which it goes on. -/
theorem cases_of_follow {visited : List Nat} {hit : Hit}
    (found : chain.follow visited hop.node hop.segment = some hit) :
    (∃ child, hop.child? = some child ∧ ∃ path, chain.StopsAt visited child path ∧
        hit.location = ⟨path, hop.line, hop.column, hop.name?⟩) ∨
      ∃ next deeper, hop.LeadsTo next ∧ next.id ∉ visited ∧
        chain.follow (next.id :: visited) next.node next.segment = some deeper ∧
        hit = deeper.named hop.name? := by
  rw [follow, hop.has, hop.mapped] at found
  simp only at found
  split at found
  · simp at found
  · simp at found
  · rename_i path child
    obtain rfl := Option.some.inj found
    exact .inl ⟨_, child, path, .unresolved path, rfl⟩
  · rename_i id child
    split at found
    · rename_i inside
      have stored : chain.node? id = some chain.nodes[id] := List.getElem?_eq_getElem inside
      split at found
      · rename_i bare
        obtain rfl := Option.some.inj found
        exact .inl ⟨_, child, _, .leaf id _ stored bare, rfl⟩
      · rename_i table has
        split at found
        · rename_i seen
          obtain rfl := Option.some.inj found
          exact .inl ⟨_, child, _, .again id _ stored seen, rfl⟩
        · rename_i new
          split at found
          · simp at found
          · rename_i segment covers
            obtain ⟨deeper, followed, rfl⟩ := Option.map_eq_some_iff.mp found
            cases mapped : segment.origin with
            | none => simp [follow_unmapped mapped] at followed
            | some origin =>
              let next : Hop chain := ⟨id, _, table, segment, origin, stored, has, mapped⟩
              exact .inr ⟨next, deeper, ⟨child, covers⟩, new, followed, rfl⟩
    · simp at found

/-- Following a hop to a hit goes along a way. The nodes that have not been visited get fewer from
hop to hop. -/
theorem exists_isWay_of_follow {hit : Hit} (distinct : (hop.id :: passed).Nodup)
    (found : chain.follow (hop.id :: passed) hop.node hop.segment = some hit) :
    ∃ rest, chain.IsWay passed (hop :: rest) hit.location := by
  induction left : (chain.unvisited (hop.id :: passed)).length using Nat.strongRecOn
    generalizing hop passed hit with
  | ind left inductionHypothesis =>
    subst left
    rcases cases_of_follow found with
      ⟨child, stands, path, stops, same⟩ | ⟨next, deeper, leads, new, followed, rfl⟩
    · exact ⟨[], isWay_singleton_iff.mpr ⟨distinct, child, stands, path, stops, same⟩⟩
    · have inside : next.id < chain.nodes.length := (List.getElem?_eq_some_iff.mp next.stored).1
      have fewer := chain.unvisited_length_lt (hop.id :: passed) next.id inside new
      obtain ⟨rest, behind⟩ :=
        inductionHypothesis _ fewer (List.nodup_cons.mpr ⟨new, distinct⟩) followed rfl
      exact ⟨next :: rest, isWay_cons_iff.mpr ⟨leads, deeper.location, behind, rfl⟩⟩

/-- A way is followed to its end. -/
theorem exists_follow_of_isWay (way : chain.IsWay passed (hop :: rest) location) :
    ∃ hit, chain.follow (hop.id :: passed) hop.node hop.segment = some hit ∧
      hit.location = location := by
  induction rest generalizing passed hop location with
  | nil =>
    obtain ⟨_, child, stands, path, stops, rfl⟩ := isWay_singleton_iff.mp way
    cases stops with
    | unresolved => exact ⟨_, follow_unresolved hop.has hop.mapped stands, rfl⟩
    | leaf id node stored bare =>
      obtain ⟨inside, rfl⟩ := List.getElem?_eq_some_iff.mp stored
      exact ⟨_, follow_final hop.has hop.mapped stands inside (.inl bare), rfl⟩
    | again id node stored seen =>
      obtain ⟨inside, rfl⟩ := List.getElem?_eq_some_iff.mp stored
      exact ⟨_, follow_final hop.has hop.mapped stands inside (.inr seen), rfl⟩
  | cons next rest inductionHypothesis =>
    obtain ⟨leads, deeper, behind, rfl⟩ := isWay_cons_iff.mp way
    have new : next.id ∉ hop.id :: passed := by
      have distinct := behind.distinct
      rw [List.map_cons, List.cons_append, List.nodup_cons, List.mem_append, not_or] at distinct
      exact distinct.1.2
    obtain ⟨hit, followed, rfl⟩ := inductionHypothesis behind
    exact ⟨hit.named hop.name?, by rw [follow_hop leads new, followed]; rfl, rfl⟩

/-- A position is traced by following the hop from the root that covers it. -/
theorem trace_eq_some_iff_follow {line column : UInt32} {location : Location} :
    chain.trace line column = some location ↔ ∃ (hop : Hop chain) (hit : Hit),
      hop.id = rootId ∧ hop.Covers line column ∧
        chain.follow [rootId] hop.node hop.segment = some hit ∧ hit.location = location := by
  simp only [trace, followRoot, Option.bind_eq_bind, Option.bind_eq_some_iff, Option.pure_def,
    Option.some.injEq]
  constructor
  · rintro ⟨root, first, table, has, segment, covers, hit, ⟨_, same, found⟩, rfl⟩
    obtain rfl := Option.some.inj (first.symm.trans same)
    cases mapped : segment.origin with
    | none => simp [follow_unmapped mapped] at found
    | some origin =>
      exact ⟨⟨rootId, root, table, segment, origin, first, has, mapped⟩, hit, rfl, covers, found,
        rfl⟩
  · rintro ⟨hop, hit, start, covers, found, rfl⟩
    have first : chain.root? = some hop.node := by
      rw [root?, ← start]
      exact hop.stored
    exact ⟨hop.node, first, hop.table, hop.has, hop.segment, covers, hit,
      ⟨hop.node, first, found⟩, rfl⟩

/-- A way comes through no more nodes than there are. -/
theorem IsWay.length_le {hops : List (Hop chain)} (way : chain.IsWay passed hops location) :
    hops.length ≤ chain.nodes.length := by
  have distinct : (hops.map Hop.id).Nodup := (List.nodup_append.mp way.distinct).1
  have known : hops.map Hop.id ⊆ List.range chain.nodes.length := by
    intro id member
    obtain ⟨hop, _, rfl⟩ := List.mem_map.mp member
    exact List.mem_range.mpr (List.getElem?_eq_some_iff.mp hop.stored).1
  simpa using (List.subperm_of_subset distinct known).length_le

/-- A position is traced to a location exactly if there is a walk from the position to it, and a
walk has at most as many hops as the chain has nodes. -/
theorem trace_eq_some_iff_isWalk (chain : Chain) (line column : UInt32) (location : Location) :
    (chain.trace line column = some location ↔
        ∃ hops, chain.IsWalk line column hops location) ∧
      ∀ hops, chain.IsWalk line column hops location → hops.length ≤ chain.nodes.length := by
  refine ⟨?_, fun hops walk => walk.way.length_le⟩
  rw [trace_eq_some_iff_follow]
  constructor
  · rintro ⟨hop, hit, start, covers, found, rfl⟩
    obtain ⟨rest, way⟩ := exists_isWay_of_follow (by simp) (start ▸ found)
    exact ⟨hop :: rest, ⟨hop, rfl, start, covers⟩, way⟩
  · rintro ⟨hops, ⟨hop, first, start, covers⟩, way⟩
    obtain ⟨rest, rfl⟩ := List.head?_eq_some_iff.mp first
    obtain ⟨hit, found, same⟩ := exists_follow_of_isWay way
    exact ⟨hop, hit, start, covers, start ▸ found, same⟩

/-- Two files whose maps list each other. Only the first map has a name. -/
def turning : Chain where
  nodes :=
    [⟨.ofText "/a.js", "f();", some ⟨["b.js"], [none], ["f"],
        [[⟨0, some ⟨0, 4, 2, some 0⟩⟩]]⟩, [.resolved 1]⟩,
     ⟨.ofText "/b.js", "g();", some ⟨["a.js"], [none], [],
        [[], [], [], [], [⟨1, some ⟨0, 8, 3, none⟩⟩]]⟩, [.resolved 0]⟩]
  cwd := .root

/-- Where a position of the first file is traced to. -/
def turned : Location := ⟨.ofText "/a.js", 9, 3, some "f"⟩

/-- The walk stops where it comes back, with the name that it had on the way. -/
theorem trace_eq_some_iff_isWalk_turning : turning.trace 1 7 = some turned ∧
    ∃ hops, turning.IsWalk 1 7 hops turned ∧ hops.length ≤ 2 := by
  have traced : turning.trace 1 7 = some turned := by decide +kernel
  obtain ⟨walks, bounded⟩ := trace_eq_some_iff_isWalk turning 1 7 turned
  obtain ⟨hops, walk⟩ := walks.mp traced
  exact ⟨traced, hops, walk, bounded hops walk⟩

end MapChain.Chain
