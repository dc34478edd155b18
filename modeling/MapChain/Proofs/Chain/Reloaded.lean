import MapChain.Proofs.Chain.Agreement
import MapChain.Proofs.Chain.Recorded
import MapChain.Store.Memory

/-!
# Building a chain from a flattened map

A root that has a flattened map is built into a chain again. Each source of the map is a file
that has the carried text and no map, or is still without text. So below the root nothing
is left to follow, and a record of a hit is followed to the location of that hit, with
the text that the flattened map carries for it.

A source without a name would lead nowhere, and one that is the root itself ends there.
-/

namespace MapChain

/-- A list whose items can all be processed is processed. -/
theorem Itemwise.exists_mapM_eq_ok {action : α → Except ε β} {items : List α}
    (each : ∀ item ∈ items, ∃ result, action item = .ok result) :
    ∃ results, items.mapM action = .ok results := by
  induction items with
  | nil => exact ⟨[], rfl⟩
  | cons item items inductionHypothesis =>
    obtain ⟨first, done⟩ := each item (by simp)
    obtain ⟨rest, gathered⟩ := inductionHypothesis fun other member => each other (by simp [member])
    exact ⟨first :: rest, by rw [List.mapM_cons, done, gathered]; rfl⟩

namespace Chain

variable {chain reloaded : Chain} {workspace : Workspace} {path : Path} {content : String}
  {table : Table}

/-- A workspace that gives nothing and in which a root has the flattened map of a chain with its
texts. None of these texts has a map of its own, and where there is none the workspace has
none either. -/
structure IsHeld (chain : Chain) (workspace : Workspace) (path : Path) (content : String)
    (table : Table) : Prop where
  nothing : workspace.overrides = {}
  location : path.IsLocation
  link : workspace.link? path content = .ok (some ⟨table, path.parent⟩)
  sources : table.sources = chain.reached.sources.map fun source =>
    (source.1.relativeTo path.parent).text
  contents : table.contents = chain.reached.sources.map (·.2)
  names : table.names = chain.reached.names
  lines : table.lines = chain.writtenLines
  placed : ∀ source ∈ chain.reached.sources, source.1.IsLocation
  final : ∀ source ∈ chain.reached.sources, ∀ text ∈ source.2, Reference.locate text = none
  missing : ∀ source ∈ chain.reached.sources, source.2 = none →
    workspace.sourceText? source.1 none = .ok none

/-- The files of the chain that is built: the root, and texts that the map carries. -/
def Restores (chain : Chain) (path : Path) (content : String) (place : Path) (text : String) :
    Prop := (place = path ∧ text = content) ∨ (place, some text) ∈ chain.reached.sources

namespace IsHeld

/-- The entries of the map are the sources that were reached. -/
theorem entries (held : chain.IsHeld workspace path content table) :
    table.sources.zip table.contents =
      chain.reached.sources.map fun source =>
        ((source.1.relativeTo path.parent).text, source.2) := by
  rw [held.sources, held.contents, List.zip_map']

/-- An entry leads to the source that it was written for. -/
theorem resolve_entry (held : chain.IsHeld workspace path content table)
    {source : Path × Option String} (member : source ∈ chain.reached.sources) :
    path.parent.resolve (.ofText (source.1.relativeTo path.parent).text) = source.1 :=
  Path.resolve_relativeTo _ _ (held.placed source member)
    (Path.isLocation_parent path held.location)

/-- The text of a source is the one that the map carries. -/
theorem sourceText?_eq (held : chain.IsHeld workspace path content table)
    {source : Path × Option String} (member : source ∈ chain.reached.sources) :
    workspace.sourceText? source.1 source.2 = .ok source.2 := by
  cases carried : source.2 with
  | none => exact held.missing source member carried
  | some text =>
    have given : workspace.given? source.1 = none := by
      simp [Workspace.given?, held.nothing, Overrides.entry?]
    simp [Workspace.sourceText?, given]

/-- A carried text has no map. -/
theorem link?_of_carried (held : chain.IsHeld workspace path content table)
    {source : Path × Option String} (member : source ∈ chain.reached.sources) {text : String}
    (carried : source.2 = some text) (place : Path) : workspace.link? place text = .ok none := by
  have given : workspace.givenMap? place = none := by
    simp [Workspace.givenMap?, held.nothing, Overrides.entry?]
  have final := held.final source member text carried
  rw [Workspace.link?, Workspace.document?, given, final]
  rfl

/-- A source of the map is resolved at once: it is void, the root again, a file without a
map, or without text. -/
theorem exists_resolveSource (held : chain.IsHeld workspace path content table) (depth : Nat)
    {source : Path × Option String} (member : source ∈ chain.reached.sources) :
    ∃ tree, workspace.resolveSource path.parent [path]
      (fun place text => workspace.resolve (depth + 1) place text [path])
      ((source.1.relativeTo path.parent).text, source.2) = .ok tree := by
  have target := held.resolve_entry member
  have text := held.sourceText?_eq member
  generalize (source.1.relativeTo path.parent).text = entry at target
  by_cases void : entry.toList.all Text.isBlank = true
  · exact ⟨.blank, by rw [Workspace.resolveSource, if_pos void]⟩
  · by_cases own : source.1 ∈ [path]
    · refine ⟨.ancestor source.1, ?_⟩
      rw [Workspace.resolveSource, if_neg void]
      simp only [target, if_pos own]
    · cases carried : source.2 with
      | none =>
        rw [carried] at text
        refine ⟨.unresolved source.1, ?_⟩
        rw [Workspace.resolveSource, if_neg void]
        simp only [target, if_neg own, text]
        rfl
      | some content =>
        rw [carried] at text
        refine ⟨.file source.1 content none [], ?_⟩
        rw [Workspace.resolveSource, if_neg void]
        simp only [target, if_neg own, text]
        exact Workspace.resolve_of_bare (held.link?_of_carried member carried source.1) [path] depth

/-- The root is built into a chain. -/
theorem exists_chain (held : chain.IsHeld workspace path content table) :
    ∃ reloaded, workspace.chain path content = .ok reloaded := by
  obtain ⟨depth, deep⟩ : ∃ depth, workspace.depth content = depth + 2 := by
    simp only [Workspace.depth]
    generalize workspace.provider.volume + workspace.overrides.volume + content.length = volume
    exact ⟨volume * volume + 4 * volume + 2, by rw [Nat.add_mul, Nat.mul_add, Nat.mul_add]; omega⟩
  obtain ⟨children, gathered⟩ : ∃ children,
      (table.sources.zip table.contents).mapM (workspace.resolveSource path.parent [path]
        fun place text => workspace.resolve (depth + 1) place text [path]) = .ok children := by
    apply Itemwise.exists_mapM_eq_ok
    intro entry listed
    rw [held.entries] at listed
    obtain ⟨source, member, rfl⟩ := List.mem_map.mp listed
    exact held.exists_resolveSource depth member
  refine ⟨.ofTree workspace.provider.cwd (.file path content (some table) children), ?_⟩
  rw [Workspace.chain, deep, Workspace.resolve_of_link held.link, gathered]
  rfl

/-- Only the root leads to further files. -/
theorem passes (held : chain.IsHeld workspace path content table) :
    workspace.Passes (chain.Restores path content) fun _ => True := by
  intro place text link entry own fits linked _ listed found
  right
  rcases fits with ⟨rfl, rfl⟩ | member
  · obtain rfl : link = ⟨table, place.parent⟩ :=
      Option.some.inj (Except.ok.inj (linked.symm.trans held.link))
    rw [held.entries] at listed
    obtain ⟨source, member, rfl⟩ := List.mem_map.mp listed
    simp only [held.resolve_entry member, held.sourceText?_eq member] at found ⊢
    rw [← Except.ok.inj found]
    exact member
  · have bare := held.link?_of_carried member rfl place
    simp [bare] at linked

/-- The nodes of the chain that is built say what the maps of their files say, and each is the root
or holds a text that the map carries. -/
theorem isDescribed (held : chain.IsHeld workspace path content table)
    (built : workspace.chain path content = .ok reloaded) :
    reloaded.IsDescribed workspace (chain.Restores path content) path content :=
  isDescribed_of_chain held.passes built (.inl ⟨rfl, rfl⟩) fun _ _ => trivial

/-- The root of the chain that is built has the map's table, and its children stand for the
sources that were reached. -/
theorem root (held : chain.IsHeld workspace path content table)
    (built : workspace.chain path content = .ok reloaded) : ∃ root,
      reloaded.root? = some root ∧ root.path = path ∧ root.content = content ∧
        root.table = some table ∧
        List.Forall₂ (workspace.Becomes (Resolution.paths reloaded.nodes) path.parent)
          (chain.reached.sources.map fun source =>
            ((source.1.relativeTo path.parent).text, source.2)) root.children := by
  have described := held.isDescribed built
  obtain ⟨root, first, rfl, rfl⟩ := described.root
  refine ⟨root, first, rfl, rfl, ?_⟩
  cases (described.nodes root (List.mem_of_getElem? first)).2 with
  | leaf unmapped _ _ => simp [held.link] at unmapped
  | mapped link found tabled children =>
    obtain rfl : link = ⟨table, root.path.parent⟩ :=
      Option.some.inj (Except.ok.inj (found.symm.trans held.link))
    exact ⟨tabled, held.entries ▸ children⟩

/-- The source index of a record leads to the entry of the hit's source. -/
theorem exists_source_of_records (held : chain.IsHeld workspace path content table) {hit : Hit}
    {origin : Origin} (records : chain.reached.Records hit origin)
    (countable : AreCountable table.sources table.names) : ∃ carried,
      chain.reached.sources[origin.source.toNat]? = some (hit.location.source, carried) := by
  have few : (chain.reached.sources.map (·.1)).length ≤ UInt32.size := by
    simpa [held.sources] using countable.sources
  have ranked := records.source.getElem?_eq_some few
  rw [List.getElem?_map] at ranked
  obtain ⟨⟨_, carried⟩, listed, rfl⟩ := Option.map_eq_some_iff.mp ranked
  exact ⟨carried, listed⟩

/-- The name index of a record leads to the hit's name. -/
theorem name_of_records (held : chain.IsHeld workspace path content table) {hit : Hit}
    {origin : Origin} (records : chain.reached.Records hit origin)
    (countable : AreCountable table.sources table.names) :
    origin.name.bind table.name? = hit.location.name := by
  have names := records.name
  generalize origin.name = index, hit.location.name = name at names
  cases names with
  | none => rfl
  | some known => exact (held.names ▸ known).getElem?_eq_some countable.names

section Built

variable (held : chain.IsHeld workspace path content table)
  (built : workspace.chain path content = .ok reloaded)

include held built

/-- A child of the root that is a file ends walks there. If it is not the root itself, its
text is the one that the map carries. -/
theorem final_of_resolved {id : Nat} {source : Path}
    (found : (Resolution.paths reloaded.nodes)[id]? = some source) :
    ∃ stored : id < reloaded.nodes.length, reloaded.nodes[id].path = source ∧
      (reloaded.nodes[id].table = none ∨ id ∈ [rootId]) ∧
      (source ≠ path → (source, some reloaded.nodes[id].content) ∈ chain.reached.sources) := by
  have described := held.isDescribed built
  obtain ⟨root, first, rootPath, _⟩ := described.root
  obtain ⟨stored, own⟩ : ∃ stored : id < reloaded.nodes.length,
      reloaded.nodes[id].path = source := by
    obtain ⟨inside, same⟩ := List.getElem?_eq_some_iff.mp found
    exact ⟨by simpa [Resolution.paths] using inside, by simpa [Resolution.paths] using same⟩
  obtain ⟨restores, describes⟩ := described.nodes _ (List.getElem_mem stored)
  refine ⟨stored, own, ?_, ?_⟩
  · rcases restores with ⟨same, _⟩ | carried
    · -- No path has two nodes, so this one is the root.
      right
      have zero : (Resolution.paths reloaded.nodes)[rootId]? = some source := by
        simp only [Resolution.paths, List.getElem?_map]
        rw [show reloaded.nodes[rootId]? = some root from first, Option.map_some, rootPath,
          ← same, own]
      have inside := (List.getElem?_eq_some_iff.mp found).1
      have equal := (List.getElem?_inj inside described.distinct).mp (found.trans zero.symm)
      simp [equal]
    · left
      cases describes with
      | leaf _ bare _ => exact bare
      | mapped link linked _ _ =>
        have bare := held.link?_of_carried carried rfl reloaded.nodes[id].path
        simp [bare] at linked
  · intro other
    rcases restores with ⟨same, _⟩ | carried
    · exact absurd (own.symm.trans same) other
    · exact own ▸ carried

/-- A record of a hit is followed to the hit's location, with the text that the map carries
unless that is the root itself. The indices must be countable and the source have a name. -/
theorem followRoot_of_records {hit : Hit} {origin : Origin} (column : UInt32)
    (records : chain.reached.Records hit origin)
    (countable : AreCountable table.sources table.names) (counted : hit.location.line ≠ 0)
    (named : ¬(hit.location.source.relativeTo path.parent).text.toList.all Text.isBlank = true) :
    ∃ text, reloaded.followRoot ⟨column, some origin⟩ = some ⟨hit.location, text⟩ ∧
      (hit.location.source ≠ path → (hit.location.source, text) ∈ chain.reached.sources) := by
  obtain ⟨root, first, _, _, tabled, children⟩ := held.root built
  obtain ⟨content, listed⟩ := held.exists_source_of_records records countable
  have nameFound := held.name_of_records records countable
  have lined := nextLine_eq (records.line_add_one counted)
  have same := records.column
  have member := List.mem_of_getElem? listed
  have related := Itemwise.rel_getElem? children origin.source.toNat
  rw [List.getElem?_map, listed, Option.map_some] at related
  have walked : reloaded.followRoot ⟨column, some origin⟩ =
      reloaded.follow [rootId] root ⟨column, some origin⟩ := by
    rw [followRoot, first]
    rfl
  cases child : root.children[origin.source.toNat]? with
  | none =>
    rw [child] at related
    cases related
  | some child' =>
    rw [child] at related
    cases related with
    | some became =>
      cases became with
      | blank void => exact absurd void named
      | resolved id _ found =>
        rw [held.resolve_entry member] at found
        obtain ⟨stored, own, final, carries⟩ := held.final_of_resolved built found
        refine ⟨some reloaded.nodes[id].content, ?_, carries⟩
        rw [walked, follow_final tabled rfl child stored final, lined, nameFound, same, own]
      | unresolved _ missing =>
        rw [held.resolve_entry member] at missing child
        obtain rfl : content = none :=
          Except.ok.inj ((held.sourceText?_eq member).symm.trans missing)
        refine ⟨none, ?_, fun _ => member⟩
        rw [walked, follow_unresolved tabled rfl child, lined, nameFound, same]

end Built

end IsHeld

end Chain

end MapChain
