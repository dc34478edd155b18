import MapChain.Proofs.Chain.Reopened
import MapChain.Proofs.Chain.RoundTrip

/-!
# Where a written comment leads

Whatever the destination of a root is called, its name goes through percent coding, into a
comment and back. What comes back is the map that is carried, or a name that is found beside
the root as the file of the map. There is one name that does not come back as it was: a file
name that starts like a data URL. Nothing is coded in such a start, so the comment is read
as one that carries a map, unless it names the file by its path.
-/

namespace MapChain

/-- The comment of what is written leads back to the map that is written: to the file of the
map, as seen from the directory of the content, or to the map that the content carries. -/
def Output.LeadsBack (output : Output) : Prop :=
  match output.mapPath with
  | some mapPath => ∃ target, Reference.locate output.content = some (.file target) ∧
      output.path.parent.resolve (.ofText target) = mapPath
  | none => ∃ url, Reference.locate output.content = some (.inline url) ∧
      Document.ofDataUrl url = .ok output.map

namespace Chain

/-- What is written for a chain leads back to its map if and only if the content carries the
map, or the comment names it by its path, or the file name of the destination does not start
like a data URL. -/
theorem leadsBack_render_iff (memory : Memory) (overrides : Overrides) (chain : Chain)
    (directory : memory.cwd.IsLocation) (built : IsBuilt ⟨memory.provider, overrides⟩ chain)
    (given : Option Path) (options : OutputOptions) :
    (chain.render given options).LeadsBack ↔
      options.inline = true ∨ options.absolutePath = true ∨
        (chain.destination given).looksInline = false := by
  have location := isLocation_destination directory built given
  have located : Reference.locate (chain.render given options).content =
      some (options.reference (chain.destination given) _) := locate_render location
  by_cases inline : options.inline = true
  · have carried : (chain.render given options).mapPath = none := by
      simp only [render, if_pos inline]
    rw [OutputOptions.reference, if_pos inline] at located
    simp only [Output.LeadsBack, carried, located, inline, true_or, iff_true]
    exact ⟨_, rfl, Document.ofDataUrl_toDataUrl rfl⟩
  · have beside : (chain.render given options).mapPath =
        some ((chain.destination given).append mapSuffix) := by
      simp only [render, if_neg inline]
    simp only [Output.LeadsBack, beside, located, inline, Bool.false_eq_true, false_or]
    constructor
    · rintro ⟨target, named, _⟩
      -- A name that is taken for a data URL is no file's.
      by_contra neither
      obtain ⟨noPath, looks⟩ := not_or.mp neither
      rw [Bool.not_eq_false] at looks
      rw [OutputOptions.reference, if_neg inline, if_neg noPath, if_pos looks] at named
      simp at named
    · intro plain
      obtain ⟨target, named, place⟩ := exists_target_of_reference location inline plain
        (chain.outputMap (chain.destination given) options)
      exact ⟨target, congrArg some named, place⟩

/-- The name of the destination may hold whatever percent coding is about. -/
theorem leadsBack_render_coded :
    (stackedChain.render (some (.ofText "dist/50% *data:\u00e9\n.js")) {}).LeadsBack := by
  apply (leadsBack_render_iff stacked stackedMaps stackedChain Path.isLocation_root
    isBuilt_stacked.1 _ _).mpr
  exact .inr (.inr (by decide +kernel))

/-- A file name that starts like a data URL leads nowhere. -/
theorem not_leadsBack_render_data : IsBuilt ⟨stacked.provider, stackedMaps⟩ stackedChain ∧
    ¬(stackedChain.render (some (.ofText "data:x.js")) {}).LeadsBack := by
  have located : Reference.locate
      (stackedChain.render (some (.ofText "data:x.js")) {}).content =
        some (.inline "data:x.js.map") := by decide +kernel
  refine ⟨isBuilt_stacked.1, ?_⟩
  rintro ⟨target, named, _⟩
  rw [located] at named
  simp at named

end Chain

end MapChain
