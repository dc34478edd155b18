import MapChain.Proofs.Chain.Hits

/-!
# The sources of a flattened map

Each source of a flattened map is the end of some walk from the root, with the text that the
walk found there, and no path is listed twice. Both can be read off what the hits of the root's
map reach.
-/

namespace MapChain

/-- The texts of a table are those of its document, one for each source. -/
theorem Document.contents_of_table {document : Document} {table : Table}
    (made : document.table = .ok table) :
    table.contents = Table.resize document.sources.length (document.contents.getD []) := by
  obtain ⟨lines, _, fits⟩ := Document.exists_make_of_table made
  rw [Table.eq_of_make fits]

/-- As many texts as there are sources stay as they are. -/
theorem Table.resize_eq_self (contents : List (Option String)) :
    resize contents.length contents = contents := by
  simp [resize]

namespace Chain

variable {chain : Chain}

/-- What has been reached came from walks, each path once. -/
structure IsRecorded (chain : Chain) (reached : Reached) : Prop where
  distinct : (reached.sources.map (·.1)).Nodup
  hits : ∀ source ∈ reached.sources, ∃ segment hit, chain.followRoot segment = some hit ∧
    source = (hit.location.source, hit.content)

/-- The sources of the flattened map came from walks, each path once. -/
theorem isRecorded_reached (chain : Chain) : chain.IsRecorded chain.reached := by
  rw [reached_eq_ofHits]
  constructor
  · rw [Reached.paths_ofHits]
    exact FirstUses.nodup_eraseDups _
  · intro source member
    obtain ⟨path, listed, rfl⟩ := List.mem_map.mp member
    obtain ⟨hit, inside, first, same⟩ := Hit.exists_firstAt? (List.mem_eraseDups.mp listed)
    obtain ⟨segment, _, followed⟩ := List.mem_filterMap.mp inside
    refine ⟨segment, hit, followed, ?_⟩
    simp [Reached.textAt, first, same]

/-- A flattened map with texts carries for each source what the first walk to it found. -/
theorem contents_of_table_flatten {options : FlattenOptions} {table : Table}
    (carried : options.includeContent = true)
    (flat : (chain.flatten options).table = .ok table) :
    table.contents = chain.reached.sources.map (·.2) := by
  have listed : (chain.flatten options).contents.getD [] = chain.reached.sources.map (·.2) := by
    simp [flatten, carried, reached]
  have length : (chain.flatten options).sources.length =
      (chain.reached.sources.map (·.2)).length := by
    simp [flatten, reached]
  rw [Document.contents_of_table flat, listed, length, Table.resize_eq_self]

end Chain

end MapChain
