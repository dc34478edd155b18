import MapChain.Proofs.Chain.Agreement
import MapChain.Proofs.FirstUses

/-!
# What the hits of a chain amount to

Flattening follows the segments of the root's map one after the other. What it has reached
after some of them depends on nothing but their hits: the sources are the paths of the hits at
their first use, each with the text of the first hit at it, and the names are those of the
hits at their first use. One hit more keeps this so, and therefore it holds of a line, of all
lines, and of what is listed when the last line is written.
-/

namespace MapChain

/-- The first of some hits at a path. -/
def Hit.firstAt? (hits : List Hit) (path : Path) : Option Hit :=
  hits.find? fun hit => hit.location.source = path

/-- The path of a hit has a first hit at it. -/
theorem Hit.exists_firstAt? {hits : List Hit} {path : Path}
    (known : path ∈ hits.map (·.location.source)) :
    ∃ hit ∈ hits, firstAt? hits path = some hit ∧ hit.location.source = path := by
  obtain ⟨earlier, member, same⟩ := List.mem_map.mp known
  have present : (firstAt? hits path).isSome = true :=
    List.find?_isSome.mpr ⟨earlier, member, by simpa using same⟩
  obtain ⟨hit, first⟩ := Option.isSome_iff_exists.mp present
  exact ⟨hit, List.mem_of_find?_eq_some first, first, by simpa using List.find?_some first⟩

namespace Reached

/-- A path that has been reached is not reached again. -/
theorem source_of_mem {reached : Reached} {path : Path}
    (known : path ∈ reached.sources.map (·.1)) (content : Option String) :
    (reached.source path content).1 = reached := by
  obtain ⟨entry, member, same⟩ := List.mem_map.mp known
  simp only [source]
  split
  · rfl
  · rename_i new
    simpa [same] using List.findIdx?_eq_none_iff.mp new entry member

/-- A new path is listed behind the others. -/
theorem source_of_not_mem {reached : Reached} {path : Path}
    (new : path ∉ reached.sources.map (·.1)) (content : Option String) :
    (reached.source path content).1.sources = reached.sources ++ [(path, content)] := by
  simp only [source]
  split
  · rename_i index found
    obtain ⟨inside, same, _⟩ := List.findIdx?_eq_some_iff_getElem.mp found
    exact absurd (List.mem_map.mpr ⟨_, List.getElem_mem inside, by simpa using same⟩) new
  · rfl

/-- A name that has been reached is not reached again. -/
theorem name_of_mem {reached : Reached} {name : String} (known : name ∈ reached.names) :
    (reached.name name).1 = reached := by
  simp only [Reached.name]
  split
  · rfl
  · rename_i new
    simpa using List.findIdx?_eq_none_iff.mp new name known

/-- A new name is listed behind the others. -/
theorem name_of_not_mem {reached : Reached} {name : String} (new : name ∉ reached.names) :
    (reached.name name).1.names = reached.names ++ [name] := by
  simp only [Reached.name]
  split
  · rename_i index found
    obtain ⟨inside, same, _⟩ := List.findIdx?_eq_some_iff_getElem.mp found
    obtain rfl : reached.names[index] = name := by simpa using same
    exact absurd (List.getElem_mem inside) new
  · rfl

/-- A hit adds no other source than its own. -/
theorem sources_origin (reached : Reached) (hit : Hit) :
    (reached.origin hit).1.sources =
      (reached.source hit.location.source hit.content).1.sources := by
  have named (reached : Reached) (name : Option String) :
      (reached.name? name).1.sources = reached.sources := by
    cases name with
    | none => rfl
    | some name =>
      simp only [name?, Reached.name]
      split <;> rfl
  exact named _ _

/-- A hit adds no other name than its own. -/
theorem names_origin (reached : Reached) (hit : Hit) :
    (reached.origin hit).1.names = (reached.name? hit.location.name).1.names := by
  have kept (path : Path) (content : Option String) :
      (reached.source path content).1.names = reached.names := by
    simp only [source]
    split <;> rfl
  simp only [origin]
  cases hit.location.name with
  | none => exact kept _ _
  | some name =>
    simp only [name?, Reached.name, kept]
    split <;> simp [kept]

/-- The text that the first of some hits at a path found there. -/
def textAt (hits : List Hit) (path : Path) : Option String :=
  (Hit.firstAt? hits path).bind (·.content)

/-- What hits reach one after the other. -/
def ofHits (hits : List Hit) : Reached where
  sources := (hits.map (·.location.source)).eraseDups.map fun path => (path, textAt hits path)
  names := (hits.filterMap (·.location.name)).eraseDups

/-- The paths that hits reach are the paths of the hits. -/
theorem paths_ofHits (hits : List Hit) :
    (ofHits hits).sources.map (·.1) = (hits.map (·.location.source)).eraseDups := by
  simp [ofHits, Function.comp_def]

/-- A later hit leaves the text of a path as it is. -/
theorem textAt_concat_of_mem {hits : List Hit} {path : Path}
    (known : path ∈ hits.map (·.location.source)) (hit : Hit) :
    textAt (hits ++ [hit]) path = textAt hits path := by
  obtain ⟨first, _, found, _⟩ := Hit.exists_firstAt? known
  simp only [Hit.firstAt?] at found
  simp [textAt, Hit.firstAt?, List.find?_append, found]

/-- The first hit at a path decides its text. -/
theorem textAt_concat_of_not_mem {hits : List Hit} {hit : Hit}
    (new : hit.location.source ∉ hits.map (·.location.source)) :
    textAt (hits ++ [hit]) hit.location.source = hit.content := by
  have missing : (hits.find? fun other => other.location.source = hit.location.source) = none := by
    refine List.find?_eq_none.mpr fun other member same => new ?_
    exact List.mem_map.mpr ⟨other, member, by simpa using same⟩
  simp [textAt, Hit.firstAt?, List.find?_append, missing]

/-- One hit more reaches its path. -/
theorem sources_origin_ofHits (hits : List Hit) (hit : Hit) :
    ((ofHits hits).origin hit).1.sources = (ofHits (hits ++ [hit])).sources := by
  have kept : (ofHits hits).sources =
      (hits.map (·.location.source)).eraseDups.map fun path =>
        (path, textAt (hits ++ [hit]) path) := by
    refine List.map_congr_left fun path member => ?_
    rw [textAt_concat_of_mem (List.mem_eraseDups.mp member)]
  rw [sources_origin]
  by_cases known : hit.location.source ∈ hits.map (·.location.source)
  · have listed : hit.location.source ∈ (ofHits hits).sources.map (·.1) := by
      rw [paths_ofHits]
      exact List.mem_eraseDups.mpr known
    rw [source_of_mem listed, kept, ofHits, List.map_append, List.map_singleton,
      FirstUses.eraseDups_concat_of_mem known]
  · have unlisted : hit.location.source ∉ (ofHits hits).sources.map (·.1) := by
      rw [paths_ofHits, List.mem_eraseDups]
      exact known
    rw [source_of_not_mem unlisted, kept, ofHits, List.map_append, List.map_singleton,
      FirstUses.eraseDups_concat_of_not_mem known, List.map_append, List.map_singleton,
      textAt_concat_of_not_mem known]

/-- One hit more reaches its name, if it has one. -/
theorem names_origin_ofHits (hits : List Hit) (hit : Hit) :
    ((ofHits hits).origin hit).1.names = (ofHits (hits ++ [hit])).names := by
  rw [names_origin]
  cases named : hit.location.name with
  | none => simp [name?, ofHits, List.filterMap_append, named]
  | some name =>
    have read : (hits ++ [hit]).filterMap (·.location.name) =
        hits.filterMap (·.location.name) ++ [name] := by
      simp [List.filterMap_append, named]
    by_cases known : name ∈ hits.filterMap (·.location.name)
    · have listed : name ∈ (ofHits hits).names := List.mem_eraseDups.mpr known
      simp only [name?, name_of_mem listed]
      rw [ofHits, ofHits, read, FirstUses.eraseDups_concat_of_mem known]
    · have unlisted : name ∉ (ofHits hits).names :=
        fun member => known (List.mem_eraseDups.mp member)
      simp only [name?, name_of_not_mem unlisted]
      rw [ofHits, ofHits, read, FirstUses.eraseDups_concat_of_not_mem known]

/-- What has been reached, and one hit more, is what the hits reach together. -/
theorem origin_ofHits (hits : List Hit) (hit : Hit) :
    ((ofHits hits).origin hit).1 = ofHits (hits ++ [hit]) := by
  have sources := sources_origin_ofHits hits hit
  have names := names_origin_ofHits hits hit
  generalize ((ofHits hits).origin hit).1 = after at sources names
  cases after
  exact congrArg₂ Reached.mk sources names

end Reached

namespace Chain

/-- The hits of the root's segments, in the order in which flattening comes to them. -/
def rootHits (chain : Chain) : List Hit := chain.rootLines.flatten.filterMap chain.followRoot

/-- Writing a line reaches what its hits reach. -/
theorem flattenLine_ofHits (chain : Chain) (hits : List Hit) (line : List Segment) :
    (chain.flattenLine (.ofHits hits) line).1 =
      .ofHits (hits ++ line.filterMap chain.followRoot) := by
  induction line generalizing hits with
  | nil => simp [flattenLine]
  | cons segment line inductionHypothesis =>
    by_cases unmapped : segment.origin = none
    · have lost := followRoot_unmapped chain unmapped
      simp only [flattenLine, unmapped, Option.isNone_none, if_true]
      rw [List.filterMap_cons_none lost]
      exact inductionHypothesis hits
    · have mapped : ¬segment.origin.isNone = true := by simpa using unmapped
      simp only [flattenLine, if_neg mapped]
      cases followed : chain.followRoot segment with
      | none =>
        rw [List.filterMap_cons_none followed]
        exact inductionHypothesis hits
      | some hit =>
        have further := inductionHypothesis (hits ++ [hit])
        rw [List.append_assoc, List.singleton_append] at further
        rw [List.filterMap_cons_some followed, ← further, ← Reached.origin_ofHits]

/-- Writing lines reaches what their hits reach. -/
theorem flattenLines_ofHits (chain : Chain) (hits : List Hit) (lines : List (List Segment)) :
    (chain.flattenLines (.ofHits hits) lines).1 =
      .ofHits (hits ++ lines.flatten.filterMap chain.followRoot) := by
  induction lines generalizing hits with
  | nil => simp [flattenLines]
  | cons line lines inductionHypothesis =>
    simp only [flattenLines, flattenLine_ofHits, List.flatten_cons, List.filterMap_append]
    rw [inductionHypothesis, List.append_assoc]

/-- The sources and names of the flattened map are those of the root's hits. -/
theorem reached_eq_ofHits (chain : Chain) : chain.reached = .ofHits chain.rootHits := by
  -- In front of the first line nothing has been hit.
  exact chain.flattenLines_ofHits [] chain.rootLines

end Chain

end MapChain
