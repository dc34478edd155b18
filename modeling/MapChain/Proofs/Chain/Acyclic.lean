import Mathlib.Logic.Relation
import MapChain.Proofs.Chain.Written

/-!
# Chains without cycles

In a chain without cycles no walk comes back to a file that it has come through, because
every file behind it leads to where it is. So it ends at a file without a map, or at a source
without text, and never with a map left to follow. All texts that a flattened map then
carries are texts without a reference of their own.
-/

namespace MapChain

/-- Whether a child that is a node has a larger number. -/
def Child.isBehind (id : Nat) : Child → Bool
  | .resolved other => id < other
  | _ => true

namespace Chain

/-- A node leads to another if a source of its map stands for it. -/
def LeadsTo (chain : Chain) (first second : Nat) : Prop :=
  ∃ node, chain.nodes[first]? = some node ∧ .resolved second ∈ node.children

/-- No node leads back to itself. -/
def IsAcyclic (chain : Chain) : Prop := ∀ id, ¬Relation.TransGen chain.LeadsTo id id

/-- A chain in which nodes only lead to later ones has no cycle. -/
theorem isAcyclic_of_isBehind {chain : Chain}
    (ascending : ∀ entry ∈ chain.nodes.zipIdx, ∀ child ∈ entry.1.children,
      child.isBehind entry.2 = true) : chain.IsAcyclic := by
  have later (first second : Nat) (step : chain.LeadsTo first second) : first < second := by
    obtain ⟨node, stored, child⟩ := step
    have numbered : (node, first) ∈ chain.nodes.zipIdx :=
      List.mem_zipIdx_iff_getElem?.mpr stored
    simpa [Child.isBehind] using ascending (node, first) numbered _ child
  have further {first second : Nat} (walk : Relation.TransGen chain.LeadsTo first second) :
      first < second := by
    induction walk with
    | single step => exact later _ _ step
    | tail _ step inductionHypothesis => exact Nat.lt_trans inductionHypothesis (later _ _ step)
  intro id walk
  exact Nat.lt_irrefl id (further walk)

/-- Where a walk ends for good: at a source without text or at a file without a map. -/
inductive EndsAt (chain : Chain) (hit : Hit) : Prop where
  | unresolved (node : Node) (member : node ∈ chain.nodes)
      (child : .unresolved hit.location.source ∈ node.children) (missing : hit.content = none)
  | leaf (node : Node) (member : node ∈ chain.nodes) (bare : node.table = none)
      (path : hit.location.source = node.path) (content : hit.content = some node.content)

/-- A name does not matter to where a walk ends. -/
theorem EndsAt.named {chain : Chain} {hit : Hit} (ends : chain.EndsAt hit) (name : Option String) :
    chain.EndsAt (hit.named name) := by
  cases ends with
  | unresolved node member child missing => exact .unresolved node member child missing
  | leaf node member bare path content => exact .leaf node member bare path content

/-- Without cycles a walk ends for good. All nodes that it has come through lead to where
it is. -/
theorem endsAt_of_follow {chain : Chain} (acyclic : chain.IsAcyclic) {visited : List Nat}
    {here : Nat} {node : Node} {segment : Segment} {hit : Hit}
    (stored : chain.nodes[here]? = some node)
    (passed : ∀ id ∈ visited, Relation.ReflTransGen chain.LeadsTo id here)
    (found : chain.follow visited node segment = some hit) : chain.EndsAt hit := by
  fun_induction follow chain visited node segment generalizing here hit with
  | case3 visited node segment table origin =>
    rename_i path child
    obtain rfl := Option.some.inj found
    exact .unresolved node (List.mem_of_getElem? stored) (List.mem_of_getElem? child) rfl
  | case4 visited node segment table origin =>
    rename_i inside _ bare
    obtain rfl := Option.some.inj found
    exact .leaf _ (List.getElem_mem inside) bare rfl rfl
  | case5 visited node segment table origin =>
    rename_i id child inside _ _ _ seen
    have step : chain.LeadsTo here id := ⟨node, stored, List.mem_of_getElem? child⟩
    exact absurd (Relation.TransGen.tail' (passed id seen) step) (acyclic id)
  | case7 visited node segment table origin =>
    rename_i name id child inside _ _ _ _ _ _ inductionHypothesis
    obtain ⟨deeper, walked, rfl⟩ := Option.map_eq_some_iff.mp found
    have step : chain.LeadsTo here id := ⟨node, stored, List.mem_of_getElem? child⟩
    have further : ∀ other ∈ id :: visited, Relation.ReflTransGen chain.LeadsTo other id := by
      intro other member
      rcases List.mem_cons.mp member with rfl | member
      · exact .refl
      · exact (passed other member).tail step
    exact (inductionHypothesis (List.getElem?_eq_getElem inside) further walked).named name
  | _ => simp at found

/-- Without cycles a walk from the root ends for good. -/
theorem endsAt_of_followRoot {chain : Chain} (acyclic : chain.IsAcyclic) {segment : Segment}
    {hit : Hit} (found : chain.followRoot segment = some hit) : chain.EndsAt hit := by
  obtain ⟨root, first, walked⟩ := Option.bind_eq_some_iff.mp found
  refine endsAt_of_follow acyclic first ?_ walked
  intro id member
  obtain rfl := List.mem_singleton.mp member
  exact .refl

end Chain

end MapChain
