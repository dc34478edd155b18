import Mathlib.Data.List.Nodup
import MapChain.Proofs.Chain.RoundTrip

/-!
# Writing once more

A chain that was written and built again is written as it was before: the same content and
the same map. The content was stripped already, and stripping it again leaves off the comment
that was rendered. The map is flattened from its own lines: each segment leads to the
location that it was written for, with the text that the map carries for it, so sources
and names are reached in the same order and every index is given out again.
-/

namespace MapChain

namespace Reached

/-- A hit with another text is recorded alike, if what is reached in the end has that text for
the hit's source. A text only matters where its source is new, and then it is listed. -/
theorem origin_congr {reached final : Reached} {hit : Hit} {text : Option String}
    (distinct : (final.sources.map (·.1)).Nodup) (grows : (reached.origin hit).1.Grows final)
    (listed : (hit.location.source, text) ∈ final.sources) :
    reached.origin ⟨hit.location, text⟩ = reached.origin hit := by
  have same : reached.source hit.location.source text =
      reached.source hit.location.source hit.content := by
    cases known : reached.sources.findIdx? fun known => known.1 = hit.location.source with
    | some index => simp only [source, known]
    | none =>
      have own : (hit.location.source, hit.content) ∈ final.sources := by
        have inside : (hit.location.source, hit.content) ∈ (reached.origin hit).1.sources := by
          rw [sources_origin]
          simp [source, known]
        exact grows.sources.subset inside
      have equal := List.inj_on_of_nodup_map distinct listed own rfl
      rw [(Prod.mk.inj equal).2]
  simp only [origin, same]

end Reached

namespace Chain

variable {chain reloaded : Chain}

/-- A chain that follows every record of another chain's hits to the location of the hit, with
the text that the flattened map carries for it. -/
def Repeats (reloaded chain : Chain) : Prop :=
  ∀ segment hit origin column, chain.followRoot segment = some hit →
    chain.reached.Records hit origin →
      ∃ text, reloaded.followRoot ⟨column, some origin⟩ = some ⟨hit.location, text⟩ ∧
        (hit.location.source, text) ∈ chain.reached.sources

/-- A chain that repeats another one's records writes a line that the other one wrote as it is. -/
theorem flattenLine_flattenLine (repeats : reloaded.Repeats chain) (reached : Reached)
    (line : List Segment) (grows : (chain.flattenLine reached line).1.Grows chain.reached) :
    reloaded.flattenLine reached (chain.flattenLine reached line).2 =
      chain.flattenLine reached line := by
  induction line generalizing reached with
  | nil => rfl
  | cons segment line inductionHypothesis =>
    by_cases unmapped : segment.origin.isNone = true
    · simp only [flattenLine, unmapped, if_true] at grows ⊢
      have rest := inductionHypothesis reached grows
      simp only [Segment.unmapped, Option.isNone_none, if_true, rest]
    · simp only [flattenLine, unmapped, Bool.false_eq_true, if_false] at grows ⊢
      cases found : chain.followRoot segment with
      | none =>
        simp only [found] at grows ⊢
        exact inductionHypothesis reached grows
      | some hit =>
        simp only [found] at grows ⊢
        have rest := inductionHypothesis (reached.origin hit).1 grows
        have later := (chain.flattenLine_spec (reached.origin hit).1 line).1.trans grows
        have records := (reached.origin_spec hit).2.mono later
        obtain ⟨text, followed, listed⟩ := repeats segment hit _ segment.column found records
        have same := Reached.origin_congr chain.isRecorded_reached.distinct later listed
        simp only [flattenLine, Option.isNone_some, Bool.false_eq_true, if_false, followed, same,
          rest]

/-- A chain that repeats another one's records writes lines that the other one wrote as they are. -/
theorem flattenLines_flattenLines (repeats : reloaded.Repeats chain) (reached : Reached)
    (lines : List (List Segment))
    (grows : (chain.flattenLines reached lines).1.Grows chain.reached) :
    reloaded.flattenLines reached (chain.flattenLines reached lines).2 =
      chain.flattenLines reached lines := by
  induction lines generalizing reached with
  | nil => rfl
  | cons line lines inductionHypothesis =>
    simp only [flattenLines] at grows ⊢
    have rest := inductionHypothesis (chain.flattenLine reached line).1 grows
    have later := (chain.flattenLines_spec (chain.flattenLine reached line).1 lines).1.trans grows
    rw [flattenLine_flattenLine repeats reached line later, rest]

/-- Written lines lead to the same sources and names and have the same text. -/
theorem flattenLines_writtenLines (repeats : reloaded.Repeats chain)
    (lines : reloaded.rootLines = chain.writtenLines) : reloaded.reached = chain.reached ∧
      Codec.encode (reloaded.flattenLines {} reloaded.rootLines).2 =
        Codec.encode (chain.flattenLines {} chain.rootLines).2 := by
  have again := flattenLines_flattenLines repeats {} chain.rootLines (.refl _)
  cases written : (chain.flattenLines {} chain.rootLines).2 with
  | nil =>
    -- No lines are written as one empty line, which reaches as little and reads alike.
    have same : chain.writtenLines = [[]] := by simp [writtenLines, written]
    have none : chain.rootLines = [] := by
      have related := (chain.flattenLines_spec {} chain.rootLines).2
      rw [written] at related
      exact List.length_eq_zero_iff.mp related.length_eq
    rw [reached, reached, lines, same, none]
    exact ⟨rfl, rfl⟩
  | cons line others =>
    have same : chain.writtenLines = (chain.flattenLines {} chain.rootLines).2 := by
      simp [writtenLines, written]
    rw [reached, reached, lines, same, again, written]
    exact ⟨rfl, rfl⟩

/-- A chain that was built from a flattened map, no source of which is void or the root, repeats
what was recorded. -/
theorem repeats_of_isHeld {workspace : Workspace} {path : Path} {content : String} {table : Table}
    (located : chain.IsLocated) (held : chain.IsHeld workspace path content table)
    (rebuilt : workspace.chain path content = .ok reloaded)
    (countable : AreCountable table.sources table.names)
    (apart : ∀ source ∈ chain.reached.sources, source.1 ≠ path ∧
      ¬(source.1.relativeTo path.parent).text.toList.all Text.isBlank = true) :
    reloaded.Repeats chain := by
  intro segment hit origin column found records
  obtain ⟨listed, inside, same⟩ : ∃ listed ∈ chain.reached.sources,
      listed.1 = hit.location.source := by
    obtain ⟨rank, ranked, _⟩ := records.source
    exact List.mem_map.mp (List.mem_of_getElem? ranked)
  obtain ⟨other, named⟩ := same ▸ apart listed inside
  have ends := isLocated_of_followRoot located found
  obtain ⟨text, followed, carried⟩ :=
    held.followRoot_of_records rebuilt column records countable ends.counted named
  exact ⟨text, followed, carried other⟩

/-- The lines of the root that was written are those that were written. -/
theorem rootLines_of_isHeld {workspace : Workspace} {path : Path} {content : String}
    {table : Table} (held : chain.IsHeld workspace path content table)
    (rebuilt : workspace.chain path content = .ok reloaded) :
    reloaded.rootLines = chain.writtenLines := by
  obtain ⟨root, first, _, _, tabled, _⟩ := held.root rebuilt
  simp [rootLines, first, tabled, held.lines]

/-- Roots are written with the same map if what is reached is the same and the lines read
alike. -/
theorem outputMap_congr {path : Path} (location : path.IsLocation) (inline absolutePath : Bool)
    (reaches : reloaded.reached = chain.reached)
    (writes : Codec.encode (reloaded.flattenLines {} reloaded.rootLines).2 =
      Codec.encode (chain.flattenLines {} chain.rootLines).2) :
    reloaded.outputMap path { inline, absolutePath } =
      chain.outputMap path { inline, absolutePath } := by
  have base (chain : Chain) : chain.flattenBase ⟨some path.parent, true⟩ = path.parent :=
    flattenBase_parent chain location true
  rw [reached, reached] at reaches
  simp only [outputMap, flatten, base, reaches, writes]

/-- A file that is no part of an output at `path`, and whose name is not blank as seen from
there. -/
structure IsApart (path place : Path) : Prop where
  location : place.IsLocation
  content : place ≠ path
  map : place ≠ path.append mapSuffix
  named : ¬(place.relativeTo path.parent).text.toList.all Text.isBlank = true

section Rebuilt

variable {workspace : Workspace} (directory : workspace.provider.cwd.IsLocation)
  (built : IsBuilt workspace chain) (given : Option Path) (inline absolutePath : Bool)

include directory built in
/-- The sources that were reached are apart if those of the flattened map are. -/
theorem isApart_of_mem_reached
    (apart : ∀ source ∈ (chain.render given { inline, absolutePath }).map.sources,
      ¬source.toList.all Text.isBlank = true ∧
        (chain.destination given).parent.resolve (.ofText source) ≠ chain.destination given ∧
        (chain.destination given).parent.resolve (.ofText source) ≠
          (chain.destination given).append mapSuffix)
    {source : Path × Option String} (member : source ∈ chain.reached.sources) :
    IsApart (chain.destination given) source.1 := by
  have located := isLocated_of_built directory built
  have location := isLocation_destination directory built given
  obtain ⟨segment, hit, found, rfl⟩ := chain.isRecorded_reached.hits source member
  have ends := isLocated_of_followRoot located found
  have listed : (hit.location.source.relativeTo (chain.destination given).parent).text ∈
      (chain.render given { inline, absolutePath }).map.sources := by
    have same := flattenBase_parent chain location true
    exact List.mem_map.mpr ⟨_, member, by rw [same]⟩
  obtain ⟨named, content, map⟩ := apart _ listed
  rw [Path.resolve_relativeTo _ _ ends.source (Path.isLocation_parent _ location)] at content map
  exact ⟨ends.source, content, map, named⟩

/-- A root that was built from its flattened map is written as it was. -/
theorem render_of_isHeld {table : Table} (location : (chain.destination given).IsLocation)
    (held : chain.IsHeld workspace (chain.destination given)
      (chain.render given { inline, absolutePath }).content table)
    (rebuilt : workspace.chain (chain.destination given)
      (chain.render given { inline, absolutePath }).content = .ok reloaded)
    (repeats : reloaded.Repeats chain) {path : Option Path}
    (same : reloaded.destination path = chain.destination given) :
    reloaded.render path { inline, absolutePath } =
      chain.render given { inline, absolutePath } := by
  obtain ⟨reaches, writes⟩ := flattenLines_writtenLines repeats (rootLines_of_isHeld held rebuilt)
  have map := outputMap_congr location inline absolutePath reaches writes
  have stripped : reloaded.strippedContent = chain.strippedContent := by
    obtain ⟨root, first, _, own, _⟩ := held.root rebuilt
    rw [strippedContent, first, Option.map_some, own, Option.getD_some]
    exact strip_render location
  simp only [render, same, map, stripped]

end Rebuilt

/-- A source without text stays without text when a chain is written to a store that, but for
the files that are written, holds what it held when the chain was built. -/
theorem sourceText?_persist {memory store : Memory} {overrides : Overrides}
    (directory : memory.cwd.IsLocation) (built : IsBuilt ⟨memory.provider, overrides⟩ chain)
    (acyclic : chain.IsAcyclic) (given : Option Path) (options : OutputOptions)
    (others : ∀ path, path.IsLocation → path ≠ chain.destination given →
      path ≠ (chain.destination given).append mapSuffix → store.get? path = memory.get? path)
    {source : Path × Option String} (member : source ∈ chain.reached.sources)
    (apart : IsApart (chain.destination given) source.1) (missing : source.2 = none) :
    (store.persist (chain.render given options)).workspace.sourceText? source.1 none =
      .ok none := by
  have placed : (chain.render given options).IsPlaced :=
    isPlaced_render (isLocation_destination directory built given)
  obtain ⟨_, fault, failed, other⟩ := (final_of_mem_reached built acyclic member).2 missing
  apply Memory.sourceText?_workspace _ _ other
  calc (store.persist (chain.render given options)).provider.readText source.1
      = store.provider.readText source.1 :=
        Output.readText_other store placed apart.location apart.content apart.map
    _ = memory.provider.readText source.1 :=
        memory.readText_congr (others source.1 apart.location apart.content apart.map)
    _ = .error fault := failed

/-- Writing is done after one round. A chain without cycles is written to a store which, but for
the two files that are written, holds what it held when the chain was built. No source of
the flattened map has a blank name, and none is one of the two files. Then building the
written root with nothing given succeeds, and writing it to its own path again, in the same
way, would write the same content and the same map to the same places. -/
theorem render_reloaded (memory store : Memory) (overrides : Overrides) (chain : Chain)
    (directory : memory.cwd.IsLocation) (built : IsBuilt ⟨memory.provider, overrides⟩ chain)
    (acyclic : chain.IsAcyclic) (given : Option Path) (inline absolutePath : Bool)
    (plain : (chain.destination given).looksInline = false)
    (apart : ∀ source ∈ (chain.render given { inline, absolutePath }).map.sources,
      ¬source.toList.all Text.isBlank = true ∧
        (chain.destination given).parent.resolve (.ofText source) ≠ chain.destination given ∧
        (chain.destination given).parent.resolve (.ofText source) ≠
          (chain.destination given).append mapSuffix)
    (others : ∀ path, path.IsLocation → path ≠ chain.destination given →
      path ≠ (chain.destination given).append mapSuffix → store.get? path = memory.get? path) :
    let output := chain.render given { inline, absolutePath }
    ∃ reloaded, build (store.persist output).workspace output.path = .ok reloaded ∧
      (AreCountable output.map.sources output.map.names →
        reloaded.render none { inline, absolutePath } = output ∧
          reloaded.render (some output.path) { inline, absolutePath } = output) := by
  intro output
  have location := isLocation_destination directory built given
  have each {source : Path × Option String} (member : source ∈ chain.reached.sources) :
      IsApart (chain.destination given) source.1 :=
    isApart_of_mem_reached directory built given inline absolutePath apart member
  obtain ⟨table, flat, _, held⟩ :=
    isHeld_persist directory built acyclic given inline absolutePath store plain
      fun source member missing => sourceText?_persist directory built acyclic given _ others
        member (each member) missing
  obtain ⟨reloaded, rebuilt⟩ := held.exists_chain
  refine ⟨reloaded, (build_persist directory built given store _).trans rebuilt, ?_⟩
  intro countable
  have repeats := repeats_of_isHeld (isLocated_of_built directory built) held rebuilt
    (countable.of_table flat) fun source member => ⟨(each member).content, (each member).named⟩
  constructor
  · apply render_of_isHeld given inline absolutePath location held rebuilt repeats
    obtain ⟨root, first, own, _⟩ := held.root rebuilt
    simp [destination, rootPath, first, own]
  · apply render_of_isHeld given inline absolutePath location held rebuilt repeats
    exact Path.resolve_eq_self _ _ location

/-- A map that leads to a file and to one that is missing. -/
def partlyMissing : Overrides where
  maps :=
    [(.ofText "src/out.js",
      { version := 3, sources := ["lib/a.ts", "gone.ts"], names := ["f"],
        mappings := "AAAAA;KCCA,C" })]

/-- The chain of the map. -/
def partlyMissingChain : Chain where
  nodes :=
    [⟨.ofText "/src/out.js", "f();", some ⟨["lib/a.ts", "gone.ts"], [none, none], ["f"],
        [[⟨0, some ⟨0, 0, 0, some 0⟩⟩], [⟨5, some ⟨1, 1, 0, none⟩⟩, .unmapped 6]]⟩,
        [.resolved 1, .unresolved (.ofText "/src/gone.ts")]⟩,
     ⟨.ofText "/src/lib/a.ts", "let f;", none, []⟩]
  cwd := .root

/-- Written in place with the map in its comment, the chain is written the same again. -/
theorem render_reloaded_partlyMissing :
    let output := partlyMissingChain.render none { inline := true }
    ∃ reloaded, build (stacked.persist output).workspace output.path = .ok reloaded ∧
      reloaded.render none { inline := true } = output ∧
        reloaded.render (some output.path) { inline := true } = output := by
  intro output
  have acyclic : partlyMissingChain.IsAcyclic := isAcyclic_of_isBehind (by decide +kernel)
  obtain ⟨reloaded, rebuilt, same⟩ :=
    render_reloaded stacked stacked partlyMissing partlyMissingChain Path.isLocation_root
      (.inl ⟨.ofText "src/out.js", by decide +kernel⟩) acyclic none true false (by decide +kernel)
      (by decide +kernel) fun _ _ _ _ => rfl
  have countable : AreCountable output.map.sources output.map.names :=
    ⟨by decide +kernel, by decide +kernel⟩
  exact ⟨reloaded, rebuilt, same countable⟩

end Chain

end MapChain
