import MapChain.Proofs.Chain.Written
import MapChain.Proofs.Reference
import MapChain.Proofs.Store.Written

/-!
# Finding a written map again

The comment that a root is written with is the reference of what was written. It leads to
the map that was written with it: the map is carried by the comment, or it is the file
beside the root, which the comment names by its file name or by its path. So a written
root has the flattened map, and its sources are seen from its own directory.

A file name that starts like a data URL is excluded, because a comment that names such a
file is read as one that carries a map.
-/

namespace MapChain

/-- What building sees of a store if nothing is given up front. -/
def Memory.workspace (memory : Memory) : Workspace := ⟨memory.provider, {}⟩

/-- A source whose text cannot be had from a store is left without text. -/
theorem Memory.sourceText?_workspace (memory : Memory) {path : Path} {fault : Fault}
    (failed : memory.provider.readText path = .error fault)
    (other : ∀ cause, fault ≠ .refused cause) :
    memory.workspace.sourceText? path none = .ok none := by
  have given : memory.workspace.given? path = none := rfl
  have read : memory.workspace.provider.readText path = .error fault := failed
  cases fault with
  | refused cause => exact absurd rfl (other cause)
  | missing => simp only [Workspace.sourceText?, given, read]
  | notText => simp only [Workspace.sourceText?, given, read]

/-- Whether a file name starts like a data URL. -/
def Path.looksInline (path : Path) : Bool := Document.scheme.isPrefixOf path.fileName

/-- A map's name starts like a data URL if and only if its file's name does. -/
theorem Path.isPrefixOf_append_mapSuffix (path : Path) :
    Document.scheme.isPrefixOf (path.fileName ++ mapSuffix) = path.looksInline := by
  rw [Bool.eq_iff_iff, looksInline, List.isPrefixOf_iff_prefix, List.isPrefixOf_iff_prefix]
  constructor
  · rintro ⟨rest, same⟩
    rcases List.append_eq_append_iff.mp same with ⟨behind, whole, _⟩ | ⟨behind, parted, suffix⟩
    · exact ⟨behind, whole.symm⟩
    · -- The scheme would end in the suffix, which holds no colon.
      rcases List.eq_nil_or_concat behind with rfl | ⟨front, last, spelled⟩
      · exact ⟨[], by simpa using parted⟩
      · rw [List.concat_eq_append] at spelled
        subst spelled
        have ends := congrArg List.getLast? parted
        rw [← List.append_assoc, List.getLast?_concat] at ends
        obtain rfl : ':' = last := Option.some.inj ends
        have inside : ':' ∈ mapSuffix := by simp [suffix]
        exact absurd inside (by decide)
  · exact fun starts => starts.trans (List.prefix_append _ _)

/-- The text of a map's path ends in the suffix. -/
theorem Path.exists_chars_append_mapSuffix {path : Path} (location : path.IsLocation) :
    ∃ front, (path.append mapSuffix).chars = '/' :: front ++ mapSuffix := by
  obtain ⟨name, named, spelled⟩ := append_mapSuffix location
  refine ⟨Text.join '/' (path.parent.parts.map Part.text ++ [path.fileName]), ?_⟩
  rw [spelled, List.cons_append, Text.join_concat, ← named]
  simp [chars, Part.text]

/-- What the comment of a root that is written to `path` is read as. The name of a file that
starts like a data URL is taken for one. -/
def OutputOptions.reference (options : OutputOptions) (path : Path) (map : Document) : Reference :=
  if options.inline then .inline map.toDataUrl
  else if options.absolutePath then .file (path.append mapSuffix).text
  else if path.looksInline then
    .inline (String.ofList (Percent.encode (path.append mapSuffix).fileName))
  else .file (String.ofList (path.append mapSuffix).fileName)

namespace Chain

variable {chain : Chain} {given : Option Path} {options : OutputOptions}

/-- What is written goes beside its map. -/
theorem isPlaced_render (location : (chain.destination given).IsLocation) :
    (chain.render given options).IsPlaced := by
  refine ⟨location, ?_⟩
  intro mapPath own
  simp only [render] at own ⊢
  split at own
  · simp at own
  · exact (Option.some.inj own).symm

/-- The URL that a root is written with is a value. It reads back as the map's data URL or as
one of the two ways to name the map's file, unless the name is taken for a data URL. -/
theorem outputUrl_spec {path : Path} (location : path.IsLocation) (map : Document)
    (options : OutputOptions) :
    let value := Percent.encode (outputUrl map (path.append mapSuffix) options).toList
    Reference.IsValue value ∧ Reference.ofValue value = options.reference path map := by
  have suffix : mapSuffix = ".ma".toList ++ ['p'] := rfl
  have last : 'p' ≠ '/' := by decide
  simp only [outputUrl, OutputOptions.reference]
  by_cases inline : options.inline = true
  · simp only [if_pos inline]
    obtain ⟨written, same⟩ := Reference.isValue_toDataUrl map
    exact ⟨same.symm ▸ written, same.symm ▸ Reference.ofValue_toDataUrl map⟩
  · by_cases absolutePath : options.absolutePath = true
    · simp only [if_neg inline, if_pos absolutePath]
      obtain ⟨front, spelled⟩ := Path.exists_chars_append_mapSuffix location
      have characters : (path.append mapSuffix).text.toList =
          '/' :: front ++ ".ma".toList ++ ['p'] := by
        rw [Path.text, String.toList_ofList, spelled, suffix, List.append_assoc]
      have written := Reference.isValue_of_last ('/' :: front ++ ".ma".toList) last
      have other : Document.scheme.isPrefixOf (path.append mapSuffix).text.toList = false := by
        rw [characters]
        rfl
      exact ⟨characters ▸ written, Reference.ofValue_encode other⟩
    · simp only [if_neg inline, if_neg absolutePath]
      have named : (String.ofList (path.append mapSuffix).fileName).toList =
          path.fileName ++ mapSuffix := by
        rw [String.toList_ofList, Path.fileName_append_mapSuffix location]
      have written := Reference.isValue_of_last (path.fileName ++ ".ma".toList) last
      have starts := path.isPrefixOf_append_mapSuffix
      rw [← named] at starts
      constructor
      · rw [named, suffix, ← List.append_assoc]
        exact written
      · cases looks : path.looksInline with
        | true =>
          rw [Reference.ofValue_encode_of_data (starts.trans looks), String.toList_ofList]
          rfl
        | false => exact Reference.ofValue_encode (starts.trans looks)

/-- The reference that is located in a written root is the one of its comment. -/
theorem locate_render (location : (chain.destination given).IsLocation) :
    Reference.locate (chain.render given options).content = some
      (options.reference (chain.destination given)
        (chain.outputMap (chain.destination given) options)) := by
  obtain ⟨written, read⟩ := outputUrl_spec location
    (chain.outputMap (chain.destination given) options) options
  rw [← read]
  exact Reference.locate_render _ _ written

/-- Stripping what was written gives what was stripped before. -/
theorem strip_render (location : (chain.destination given).IsLocation) :
    Reference.strip (chain.render given options).content = chain.strippedContent := by
  obtain ⟨written, _⟩ := outputUrl_spec location
    (chain.outputMap (chain.destination given) options) options
  refine (Reference.strip_render _ _ written).trans ?_
  rw [strippedContent, Reference.strip, String.toList_ofList, Text.trimEnd_trimEnd]

/-- A map in a file of its own is named as its file is found from the root, by its path or by a
name that does not start like a data URL. -/
theorem exists_target_of_reference {path : Path} (location : path.IsLocation)
    (beside : ¬options.inline = true)
    (plain : options.absolutePath = true ∨ path.looksInline = false) (map : Document) :
    ∃ target, options.reference path map = .file target ∧
      path.parent.resolve (.ofText target) = path.append mapSuffix := by
  rw [OutputOptions.reference, if_neg beside]
  by_cases absolutePath : options.absolutePath = true
  · rw [if_pos absolutePath]
    exact ⟨_, rfl, Path.resolve_text _ (Path.isLocation_append_mapSuffix location)⟩
  · rw [if_neg absolutePath, plain.resolve_left absolutePath]
    exact ⟨_, rfl, Path.resolve_fileName_append_mapSuffix location⟩

/-- The map that was written with a root is the one that is found again, in the root's own
directory. -/
theorem document?_render (memory : Memory) (location : (chain.destination given).IsLocation)
    (plain : (chain.destination given).looksInline = false) :
    (memory.persist (chain.render given options)).workspace.document?
        (chain.destination given) (chain.render given options).content =
      .ok (some (chain.outputMap (chain.destination given) options,
        (chain.destination given).parent)) := by
  have placed : (chain.render given options).IsPlaced := isPlaced_render location
  have own : (memory.persist (chain.render given options)).workspace.givenMap?
      (chain.destination given) = none := rfl
  have version : (chain.outputMap (chain.destination given) options).version =
      Document.supported := rfl
  simp only [Workspace.document?, own, locate_render location]
  by_cases inline : options.inline = true
  · simp only [OutputOptions.reference, if_pos inline, Document.ofDataUrl_toDataUrl version]
  · have beside : (chain.render given options).mapPath =
        some ((chain.destination given).append mapSuffix) := by
      simp only [render, if_neg inline]
    have found : (memory.persist (chain.render given options)).workspace.required
        ((chain.destination given).append mapSuffix) =
          .ok (chain.outputMap (chain.destination given) options).toText :=
      congrArg (Except.mapError _) (Output.readText_map memory placed beside)
    obtain ⟨target, named, place⟩ := exists_target_of_reference location inline (.inr plain)
      (chain.outputMap (chain.destination given) options)
    simp only [named, place, found]
    simp only [bind, Except.bind, Document.ofText, Document.ofChars_toText version,
      Path.parent_append_mapSuffix location]

/-- A written root has the flattened map, whose sources are seen from the root's directory. -/
theorem link?_render (memory : Memory) (location : (chain.destination given).IsLocation)
    (plain : (chain.destination given).looksInline = false) {table : Table}
    (flat : (chain.outputMap (chain.destination given) options).table = .ok table) :
    (memory.persist (chain.render given options)).workspace.link?
        (chain.destination given) (chain.render given options).content =
      .ok (some ⟨table, (chain.destination given).parent⟩) := by
  rw [Workspace.link?, document?_render memory location plain]
  simp only [bind, Except.bind, flat]
  rfl

end Chain

end MapChain
