import Mathlib.Data.List.Nodup
import MapChain.Proofs.Chain.Hits
import MapChain.Proofs.Chain.RoundTrip

/-!
# Which texts a flattened map carries

A walk from the root ends in a child: in a node, whose path and text it finds, or in a source
that there is no text for. One path can be both, when two maps name it, or when a map names it
twice and gives a text for one of the names only.

A flattened map lists such a path once, and what the first walk to it has found is the text that
goes with it. So the text of a node is not carried if the first walk to the node's path ends
without text, and texts are kept exactly in maps where no path is reached in this order.
-/

namespace MapChain.Chain

/-- The paths that the root's segments lead to, in the order in which they are first reached. -/
def ends (chain : Chain) : List Path := (chain.rootHits.map (·.location.source)).eraseDups

/-- The first hit of the root's map at a path. -/
def firstHit? (chain : Chain) (path : Path) : Option Hit := Hit.firstAt? chain.rootHits path

/-- A hit that a walk has found in a child: at a node the node's path and text, elsewhere the
path alone. -/
inductive EndsIn (chain : Chain) (hit : Hit) : Child → Prop where
  | resolved (id : Nat) (node : Node) (stored : chain.node? id = some node)
      (path : hit.location.source = node.path) (content : hit.content = some node.content) :
      EndsIn chain hit (.resolved id)
  | unresolved (missing : hit.content = none) : EndsIn chain hit (.unresolved hit.location.source)

/-- What goes with a path: the text of its node if the first hit at it is at this node, and no
text if that hit is at a source without text. -/
inductive Carries (chain : Chain) (path : Path) : Option String → Prop where
  | known (hit : Hit) (id : Nat) (node : Node) (first : chain.firstHit? path = some hit)
      (ends : chain.EndsIn hit (.resolved id)) (stored : chain.node? id = some node)
      (found : chain.find? path = some node) : Carries chain path (some node.content)
  | missing (hit : Hit) (first : chain.firstHit? path = some hit)
      (ends : chain.EndsIn hit (.unresolved path)) : Carries chain path none

/-- Whether a flattened map carries every text that is known: wherever some segment of the root
leads to a node, the text of the node is in the place of the node's path. -/
def KeepsKnown (chain : Chain) (options : FlattenOptions) : Prop :=
  ∀ (place : Nat) (path : Path), chain.ends[place]? = some path →
    ∀ hit ∈ chain.rootHits, hit.location.source = path →
      ∀ id node, chain.EndsIn hit (.resolved id) → chain.node? id = some node →
        ∃ texts, (chain.flatten options).contents = some texts ∧
          texts[place]? = some (some node.content)

variable {chain : Chain}

/-- A name does not matter to where a walk ends. -/
theorem EndsIn.named {hit : Hit} {child : Child} (ends : chain.EndsIn hit child)
    (name : Option String) : chain.EndsIn (hit.named name) child := by
  cases ends with
  | resolved id node stored path content => exact .resolved id node stored path content
  | unresolved missing => exact .unresolved missing

/-- A walk ends in a child of a node. -/
theorem exists_endsIn_of_follow {visited : List Nat} {node : Node} {segment : Segment}
    {hit : Hit} (inside : node ∈ chain.nodes)
    (found : chain.follow visited node segment = some hit) :
    ∃ parent ∈ chain.nodes, ∃ child ∈ parent.children, chain.EndsIn hit child := by
  fun_induction follow chain visited node segment generalizing hit with
  | case3 visited node segment table origin =>
    rename_i child
    obtain rfl := Option.some.inj found
    exact ⟨node, inside, _, List.mem_of_getElem? child, .unresolved rfl⟩
  | case4 visited node segment table origin =>
    rename_i id child stored _ bare
    obtain rfl := Option.some.inj found
    exact ⟨node, inside, _, List.mem_of_getElem? child,
      .resolved id _ (List.getElem?_eq_getElem stored) rfl rfl⟩
  | case5 visited node segment table origin =>
    rename_i id child stored _ _ _ seen
    obtain rfl := Option.some.inj found
    exact ⟨node, inside, _, List.mem_of_getElem? child,
      .resolved id _ (List.getElem?_eq_getElem stored) rfl rfl⟩
  | case7 visited node segment table origin =>
    rename_i stored _ _ _ _ _ _ inductionHypothesis
    obtain ⟨deeper, walked, rfl⟩ := Option.map_eq_some_iff.mp found
    obtain ⟨parent, within, child, listed, ends⟩ :=
      inductionHypothesis (List.getElem_mem stored) walked
    exact ⟨parent, within, child, listed, ends.named _⟩
  | _ => simp at found

/-- Every hit of the root's map is found in a child. -/
theorem exists_endsIn_of_mem_rootHits {hit : Hit} (member : hit ∈ chain.rootHits) :
    ∃ parent ∈ chain.nodes, ∃ child ∈ parent.children, chain.EndsIn hit child := by
  obtain ⟨segment, _, followed⟩ := List.mem_filterMap.mp member
  obtain ⟨root, first, walked⟩ := Option.bind_eq_some_iff.mp followed
  exact exists_endsIn_of_follow (List.mem_of_getElem? first) walked

/-- Where no path has two nodes, a node is found by its path. -/
theorem find?_eq_some_of_mem (distinct : (Resolution.paths chain.nodes).Nodup) {node : Node}
    (member : node ∈ chain.nodes) : chain.find? node.path = some node := by
  have present : (chain.find? node.path).isSome = true :=
    List.find?_isSome.mpr ⟨node, member, by simp⟩
  obtain ⟨other, found⟩ := Option.isSome_iff_exists.mp present
  have same : other.path = node.path := by simpa using List.find?_some found
  obtain rfl := List.inj_on_of_nodup_map distinct (List.mem_of_find?_eq_some found) member same
  exact found

/-- The text that is listed for a path is the one that the first hit at it has found. -/
theorem textAt_rootHits {path : Path} {hit : Hit} (first : chain.firstHit? path = some hit) :
    Reached.textAt chain.rootHits path = hit.content := by
  rw [firstHit?] at first
  rw [Reached.textAt, first, Option.bind_some]

/-- What the first hit at a path has found goes with the path. -/
theorem carries_of_mem_ends (distinct : (Resolution.paths chain.nodes).Nodup) {path : Path}
    (member : path ∈ chain.ends) :
    chain.Carries path (Reached.textAt chain.rootHits path) := by
  obtain ⟨hit, inside, first, same⟩ := Hit.exists_firstAt? (List.mem_eraseDups.mp member)
  obtain ⟨_, _, child, _, ends⟩ := exists_endsIn_of_mem_rootHits inside
  rw [textAt_rootHits first]
  cases ends with
  | resolved id node stored place content =>
    have found := find?_eq_some_of_mem distinct (List.mem_of_getElem? stored)
    rw [← place, same] at found
    rw [content]
    exact .known hit id node first (.resolved id node stored place content) stored found
  | unresolved missing =>
    rw [missing]
    exact .missing hit first (same ▸ .unresolved missing)

/-- The sources of a flattened map are the paths that are reached, each as seen from a directory,
and the texts are those that the first hits have found, if texts are asked for. -/
theorem flatten_eq_ends (chain : Chain) (options : FlattenOptions) :
    (chain.flatten options).sources = chain.ends.map (fun path =>
        (path.relativeTo (chain.flattenBase options)).text) ∧
      (chain.flatten options).contents = some (chain.ends.map fun path =>
        if options.includeContent then Reached.textAt chain.rootHits path else none) := by
  have sources : (chain.flattenLines {} chain.rootLines).1.sources =
      chain.ends.map fun path => (path, Reached.textAt chain.rootHits path) :=
    congrArg Reached.sources chain.reached_eq_ofHits
  simp only [flatten, sources, List.map_map, Function.comp_def, and_self]

/-- Known texts are kept exactly if the first hit at a path finds a text whenever some hit at
the path does. -/
theorem keepsKnown_iff (distinct : (Resolution.paths chain.nodes).Nodup)
    {options : FlattenOptions} (carried : options.includeContent = true) :
    chain.KeepsKnown options ↔ ∀ hit ∈ chain.rootHits, hit.content.isSome = true →
      ∀ first, chain.firstHit? hit.location.source = some first → first.content.isSome = true := by
  have contents := (chain.flatten_eq_ends options).2
  simp only [carried, if_true] at contents
  constructor
  · intro keeps hit member known first found
    obtain ⟨_, _, child, _, ends⟩ := exists_endsIn_of_mem_rootHits member
    cases ends with
    | unresolved missing => simp [missing] at known
    | resolved id node stored path content =>
      have reached : hit.location.source ∈ chain.ends :=
        List.mem_eraseDups.mpr (List.mem_map.mpr ⟨hit, member, rfl⟩)
      obtain ⟨place, listed⟩ := List.mem_iff_getElem?.mp reached
      obtain ⟨texts, same, text⟩ :=
        keeps place _ listed hit member rfl id node (.resolved id node stored path content) stored
      obtain rfl := Option.some.inj (contents.symm.trans same)
      rw [List.getElem?_map, listed, Option.map_some, textAt_rootHits found] at text
      simp [Option.some.inj text]
  · intro first place path listed hit member same id node ends stored
    have reached : path ∈ chain.ends := List.mem_of_getElem? listed
    obtain ⟨earliest, _, found, _⟩ := Hit.exists_firstAt? (List.mem_eraseDups.mp reached)
    refine ⟨_, contents, ?_⟩
    rw [List.getElem?_map, listed, Option.map_some]
    cases ends with
    | resolved id other own place content =>
      obtain rfl : other = node := Option.some.inj (own.symm.trans stored)
      have known := first hit member (by simp [content]) earliest (same ▸ found)
      have carries := carries_of_mem_ends distinct reached
      generalize text : Reached.textAt chain.rootHits path = result at carries ⊢
      cases carries with
      | known _ _ kept _ _ _ seen =>
        have found := find?_eq_some_of_mem distinct (List.mem_of_getElem? own)
        rw [← place, same] at found
        obtain rfl : kept = other := Option.some.inj (seen.symm.trans found)
        rfl
      | missing => simp [← textAt_rootHits found, text] at known

/-- What flattening does with texts. The sources of the map are the paths that the root's
segments lead to. If texts are asked for, what goes with each is what the first of these
segments has found, the text of the path's node or none, and all known texts are kept exactly if
no path is reached without text before it is reached at its node. If none are asked for, none
are carried. -/
theorem carries_flatten (workspace : Workspace) (chain : Chain) (built : IsBuilt workspace chain)
    (options : FlattenOptions) :
    (chain.flatten options).sources = chain.ends.map (fun path =>
        (path.relativeTo (chain.flattenBase options)).text) ∧
      ∃ texts, (chain.flatten options).contents = some texts ∧
        (options.includeContent = true → List.Forall₂ chain.Carries chain.ends texts ∧
          (chain.KeepsKnown options ↔ ∀ hit ∈ chain.rootHits, hit.content.isSome = true →
            ∀ first, chain.firstHit? hit.location.source = some first →
              first.content.isSome = true)) ∧
        (options.includeContent = false → texts = chain.ends.map fun _ => none) := by
  obtain ⟨_, _, described⟩ := exists_isDescribed_of_built built
  obtain ⟨sources, contents⟩ := chain.flatten_eq_ends options
  refine ⟨sources, _, contents, ?_, ?_⟩
  · intro carried
    refine ⟨?_, keepsKnown_iff described.distinct carried⟩
    simp only [carried, if_true]
    refine List.forall₂_map_right_iff.mpr (List.forall₂_same.mpr fun path member => ?_)
    exact carries_of_mem_ends described.distinct member
  · intro bare
    simp [bare]

/-- A map that names one source twice and gives its text for the second name only. -/
def twiceNamed : Workspace where
  provider := (Memory.put {} (.ofText "/out.js") (bytesOfText "x")).provider
  overrides :=
    { maps := [(.ofText "/out.js",
        { version := 3, sources := ["x.ts", "./x.ts"], contents := some [none, some "let x;"],
          mappings := "AAAA,KCAA" })] }

/-- The chain of the map, in which the path of the source is a child and a node. -/
def twiceNamedChain : Chain where
  nodes :=
    [⟨.ofText "/out.js", "x",
      some ⟨["x.ts", "./x.ts"], [none, some "let x;"], [],
        [[⟨0, some ⟨0, 0, 0, none⟩⟩, ⟨5, some ⟨1, 0, 0, none⟩⟩]]⟩,
      [.unresolved (.ofText "/x.ts"), .resolved 1]⟩,
     ⟨.ofText "/x.ts", "let x;", none, []⟩]
  cwd := .root

/-- The chain is built from the map. -/
theorem isBuilt_twiceNamed : IsBuilt twiceNamed twiceNamedChain :=
  .inl ⟨.ofText "/out.js", by decide +kernel⟩

/-- What goes with the source is what the first segment has found, which is no text. -/
theorem carries_flatten_twiceNamed :
    (twiceNamedChain.flatten {}).contents = some [none] ∧
      List.Forall₂ twiceNamedChain.Carries twiceNamedChain.ends [none] := by
  obtain ⟨_, texts, contents, given, _⟩ :=
    carries_flatten twiceNamed twiceNamedChain isBuilt_twiceNamed {}
  have flat : (twiceNamedChain.flatten {}).contents = some [none] := by decide +kernel
  obtain rfl := Option.some.inj (flat.symm.trans contents)
  exact ⟨flat, (given rfl).1⟩

/-- The text of the node is known, but is not carried. -/
theorem not_keepsKnown_twiceNamed :
    IsBuilt twiceNamed twiceNamedChain ∧ ¬twiceNamedChain.KeepsKnown {} := by
  refine ⟨isBuilt_twiceNamed, fun keeps => ?_⟩
  have listed : twiceNamedChain.ends[0]? = some (.ofText "/x.ts") := by decide +kernel
  have member : (⟨⟨.ofText "/x.ts", 1, 0, none⟩, some "let x;"⟩ : Hit) ∈
      twiceNamedChain.rootHits := by decide +kernel
  obtain ⟨texts, contents, kept⟩ := keeps 0 _ listed _ member rfl 1 _
    (.resolved 1 _ rfl (by decide +kernel) rfl) rfl
  have flat : (twiceNamedChain.flatten {}).contents = some [none] := by decide +kernel
  obtain rfl := Option.some.inj (flat.symm.trans contents)
  simp at kept

end MapChain.Chain
