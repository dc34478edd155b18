import MapChain.Proofs.Chain.Link
import MapChain.Proofs.Document.Bounds
import MapChain.Proofs.Path.Clamped

/-!
# The paths that texts at hand can lead to

The texts that were given, the files of a store and the maps that were given are finitely
many, and together they name finitely many paths: their own, and those of the sources
that they list if they are maps. These are the anchors of a workspace. Every other path
that a map leads to is named by a map in a text's own comment, and what that map carries
for it is shorter than the text.
-/

namespace MapChain

/-- The files that a provider can read at locations, and that its volume accounts for. -/
structure Provider.Lists (provider : Provider) (files : List (Path × List UInt8)) : Prop where
  read : ∀ path bytes, path.IsLocation → provider.read path = .ok bytes → (path, bytes) ∈ files
  volume : volumeOf (fun file => file.2.length) files ≤ provider.volume

/-- A store lists its files, wherever it starts. -/
theorem Memory.lists (memory : Memory) : memory.provider.Lists memory.files := by
  refine ⟨?_, Nat.le_refl _⟩
  intro path bytes placed read
  have seen : memory.locate path = path := by
    rw [locate, Path.under_eq_self _ path placed, Path.clamp_eq_self path placed]
  simp only [provider, Memory.read, get?, seen] at read
  cases found : memory.files.lookup path with
  | none => simp [found] at read
  | some own =>
    obtain rfl : own = bytes := by simpa [found] using read
    obtain ⟨front, behind, files, _⟩ := List.lookup_eq_some_iff.mp found
    change (path, own) ∈ memory.files
    simp [files]

/-- A text has no more characters than bytes. -/
theorem length_of_textOfBytes {bytes : List UInt8} {text : String}
    (spelled : textOfBytes bytes = .ok text) : text.length ≤ bytes.length := by
  simp only [textOfBytes] at spelled
  split at spelled
  · rename_i characters read
    obtain rfl := Except.ok.inj spelled
    rw [String.length_ofList]
    exact Utf8.length_of_decode? read
  · simp at spelled

/-- Every entry is counted. -/
theorem lt_volumeOf (size : α → Nat) {entries : List α} {entry : α} (member : entry ∈ entries) :
    size entry < volumeOf size entries := by
  induction entries with
  | nil => simp at member
  | cons first entries inductionHypothesis =>
    simp only [volumeOf, List.foldr_cons]
    rcases List.mem_cons.mp member with rfl | member
    · omega
    · have later := inductionHypothesis member
      simp only [volumeOf] at later
      omega

/-- What entries name is counted if each of them is large enough for what it names. -/
theorem length_flatMap_le_volumeOf {size : α → Nat} {entries : List α} {names : α → List β}
    (counted : ∀ entry ∈ entries, (names entry).length ≤ size entry + 1) :
    (entries.flatMap names).length ≤ volumeOf size entries := by
  induction entries with
  | nil => simp [volumeOf]
  | cons first entries inductionHypothesis =>
    have own := counted first (by simp)
    have rest := inductionHypothesis fun entry member => counted entry (by simp [member])
    simp only [volumeOf, List.flatMap_cons, List.length_append, List.foldr_cons] at rest ⊢
    omega

/-- The paths of a document's sources, the document lying in a directory. -/
def Document.targets (document : Document) (directory : Path) : List Path :=
  document.sources.map fun source =>
    (Workspace.sourceDirectory document directory).resolve (.ofText source)

/-- The paths of the sources of the map that a text at a place spells, if it spells one. -/
def Document.targetsOfText (place : Path) (text : String) : List Path :=
  match Document.ofText text with
  | .ok document => document.targets place.parent
  | .error _ => []

/-- A text spells fewer sources than it has characters. -/
theorem Document.length_targetsOfText_le (place : Path) (text : String) :
    (targetsOfText place text).length ≤ text.length := by
  simp only [targetsOfText]
  split
  · rename_i document read
    have within := (isWithin_of_ofChars read).sources
    rw [String.length_toList] at within
    rw [targets, List.length_map]
    omega
  · simp

/-- A text that a document carries counts towards the document's volume. -/
theorem Document.length_le_volume {document : Document} {contents : List (Option String)}
    {text : String} (has : document.contents = some contents) (carried : some text ∈ contents) :
    text.length ≤ document.volume := by
  have counted := lt_volumeOf (fun content : Option String => (content.getD "").length) carried
  simp only [Option.getD_some] at counted
  simp only [volume, has, Option.getD_some]
  omega

/-- The sources and the names of a table are those of the document that it is of, and the texts
that it carries are carried by the document. -/
theorem Document.lists_of_table {document : Document} {table : Table}
    (made : document.table = .ok table) :
    table.sources = document.sources ∧ table.names = document.names ∧
      ∀ text, some text ∈ table.contents →
        ∃ contents, document.contents = some contents ∧ some text ∈ contents := by
  obtain ⟨lines, _, fits⟩ := Document.exists_make_of_table made
  obtain rfl := Table.eq_of_make fits
  refine ⟨rfl, rfl, ?_⟩
  intro text carried
  rcases List.mem_append.mp carried with own | padding
  · have listed := List.mem_of_mem_take own
    cases has : document.contents with
    | none => simp [has] at listed
    | some contents => exact ⟨contents, rfl, by simpa [has] using listed⟩
  · simp at padding

/-- An entry that counts is one of the entries, for the path that it was given for. -/
theorem Overrides.mem_of_entry? {cwd path : Path} {entries : List (Path × α)} {value : α}
    (found : entry? cwd path entries = some value) :
    ∃ key, (key, value) ∈ entries ∧ cwd.resolve key = path := by
  obtain ⟨⟨key, own⟩, had, rfl⟩ := Option.map_eq_some_iff.mp found
  have member : (key, own) ∈ entries := by simpa using List.mem_of_find?_eq_some had
  exact ⟨key, member, by simpa using List.find?_some had⟩

namespace Workspace

/-- The paths of the texts and maps at hand and of the sources that they list. -/
def anchors (workspace : Workspace) (files : List (Path × List UInt8)) : List Path :=
  (workspace.overrides.contents.flatMap fun given =>
    let place := workspace.provider.cwd.resolve given.1
    place :: Document.targetsOfText place given.2) ++
  (workspace.overrides.maps.flatMap fun given =>
    given.2.targets (workspace.provider.cwd.resolve given.1).parent) ++
  files.flatMap fun file =>
    match textOfBytes file.2 with
    | .ok text => file.1 :: Document.targetsOfText file.1 text
    | .error _ => []

/-- Characters and bytes of the texts and maps at hand. -/
def volume (workspace : Workspace) : Nat :=
  workspace.provider.volume + workspace.overrides.volume

section Listed

variable {workspace : Workspace} {files : List (Path × List UInt8)}
  (lists : workspace.provider.Lists files)

include lists

/-- There are no more anchors than texts, documents and what is in them. -/
theorem length_anchors_le : (workspace.anchors files).length ≤ workspace.volume := by
  have contents : (workspace.overrides.contents.flatMap fun given =>
      workspace.provider.cwd.resolve given.1 ::
        Document.targetsOfText (workspace.provider.cwd.resolve given.1) given.2).length ≤
      volumeOf (fun entry => entry.2.length) workspace.overrides.contents := by
    apply length_flatMap_le_volumeOf
    intro given _
    have fewer := Document.length_targetsOfText_le (workspace.provider.cwd.resolve given.1) given.2
    simp only [List.length_cons]
    omega
  have maps : (workspace.overrides.maps.flatMap fun given =>
      given.2.targets (workspace.provider.cwd.resolve given.1).parent).length ≤
      volumeOf (fun entry => entry.2.volume) workspace.overrides.maps := by
    apply length_flatMap_le_volumeOf
    intro given _
    simp only [Document.targets, List.length_map, Document.volume]
    omega
  have stored : (files.flatMap fun file =>
      match textOfBytes file.2 with
      | .ok text => file.1 :: Document.targetsOfText file.1 text
      | .error _ => []).length ≤ volumeOf (fun file => file.2.length) files := by
    apply length_flatMap_le_volumeOf
    intro file _
    split
    · rename_i text spelled
      have fewer := Document.length_targetsOfText_le file.1 text
      have shorter := length_of_textOfBytes spelled
      simp only [List.length_cons]
      omega
    · simp
  have bound := lists.volume
  simp only [anchors, volume, Overrides.volume, List.length_append]
  omega

/-- A text at a location is no longer than the texts at hand, and its place and the paths of
its sources are anchors. -/
theorem anchored_of_text {place : Path} {text : String} (location : place.IsLocation)
    (found : workspace.text place = .ok text) : text.length ≤ workspace.volume ∧
      ∀ path ∈ place :: Document.targetsOfText place text, path ∈ workspace.anchors files := by
  simp only [Workspace.text] at found
  split at found
  · rename_i own given
    obtain rfl := Except.ok.inj found
    obtain ⟨key, member, rfl⟩ := Overrides.mem_of_entry? given
    have counted : own.length < volumeOf (fun entry => entry.2.length)
      workspace.overrides.contents := lt_volumeOf (fun entry => entry.2.length) member
    refine ⟨by simp only [volume, Overrides.volume]; omega, ?_⟩
    intro path inside
    refine List.mem_append_left _ (List.mem_append_left _ ?_)
    exact List.mem_flatMap.mpr ⟨(key, own), member, inside⟩
  · obtain ⟨bytes, read, spelled⟩ := Itemwise.exists_of_bind_eq_ok found
    have member := lists.read place bytes location read
    have counted : bytes.length < volumeOf (fun file => file.2.length) files :=
      lt_volumeOf (fun file => file.2.length) member
    have shorter := length_of_textOfBytes spelled
    have bound := lists.volume
    refine ⟨by simp only [volume]; omega, ?_⟩
    intro path inside
    refine List.mem_append_right _ (List.mem_flatMap.mpr ⟨(place, bytes), member, ?_⟩)
    simpa only [spelled] using inside

/-- A map of a file with an absolute path leads to anchors, and what it carries is no longer
than the texts at hand; or it stands in the file's own text, and what it carries is
shorter than that. -/
theorem anchored_or_shorter_of_documents {path : Path} {content : String} {document : Document}
    {directory : Path} (absolute : path.absolute = true)
    (documents : workspace.Documents path content document directory) :
    (∀ target ∈ document.targets directory, target ∈ workspace.anchors files) ∧
        document.IsWithin (workspace.volume + 1) ∨
      document.IsWithin content.length := by
  cases documents with
  | given found =>
    left
    obtain ⟨key, member, rfl⟩ := Overrides.mem_of_entry? found
    have counted : document.volume < volumeOf (fun entry => entry.2.volume)
      workspace.overrides.maps := lt_volumeOf (fun entry => entry.2.volume) member
    refine ⟨?_, ?_, ?_⟩
    · intro target inside
      refine List.mem_append_left _ (List.mem_append_right _ ?_)
      exact List.mem_flatMap.mpr ⟨(key, document), member, inside⟩
    · have sources : document.sources.length ≤ document.volume := Nat.le_add_right _ _
      simp only [volume, Overrides.volume]
      omega
    · intro contents has content listed text carried
      rw [Option.mem_def.mp carried] at listed
      have own := Document.length_le_volume has listed
      simp only [volume, Overrides.volume]
      omega
  | inline url located read =>
    right
    exact (Document.isWithin_of_ofDataUrl read).mono (Reference.length_of_locate located)
  | file target text place located placed found read =>
    left
    have under : path.parent.absolute = true := absolute
    have location : place.IsLocation := placed ▸ Path.isLocation_resolve _ _ under
    obtain ⟨shorter, anchored⟩ := anchored_of_text lists location found
    refine ⟨?_, ?_⟩
    · intro target inside
      exact anchored target (by simp [Document.targetsOfText, read, inside])
    · have within := Document.isWithin_of_ofChars read
      rw [String.length_toList] at within
      exact within.mono (by omega)

/-- A file that the map of another file leads to is at an anchor, with a text no longer than
those at hand, or has a text shorter than that of the other file. -/
theorem anchored_or_shorter {path : Path} {content : String} {link : Link}
    {entry : String × Option String} {text : String} (absolute : path.absolute = true)
    (linked : workspace.link? path content = .ok (some link))
    (listed : entry ∈ link.table.sources.zip link.table.contents)
    (found : workspace.sourceText? (link.directory.resolve (.ofText entry.1)) entry.2 =
      .ok (some text)) :
    link.directory.resolve (.ofText entry.1) ∈ workspace.anchors files ∧
        text.length ≤ workspace.volume ∨
      text.length < content.length := by
  have seen := workspace.absolute_link_directory linked absolute
  have place := Path.isLocation_resolve link.directory (.ofText entry.1) seen
  obtain ⟨document, directory, documents, made, same⟩ := workspace.link_cases linked
  obtain ⟨sources, _, contents⟩ := Document.lists_of_table made
  rcases workspace.sourceText?_cases found with own | carried
  · obtain ⟨shorter, anchored⟩ := anchored_of_text lists place own
    exact .inl ⟨anchored _ (by simp), shorter⟩
  · have member : some text ∈ link.table.contents := carried ▸ (List.of_mem_zip listed).2
    obtain ⟨list, has, inside⟩ := contents text member
    rcases anchored_or_shorter_of_documents lists absolute documents with
      ⟨anchored, within⟩ | within
    · refine .inl ⟨anchored _ ?_, Nat.le_of_lt_succ (within.contents list has _ inside text rfl)⟩
      rw [same]
      have source : entry.1 ∈ document.sources := sources ▸ (List.of_mem_zip listed).1
      exact List.mem_map.mpr ⟨entry.1, source, rfl⟩
    · exact .inr (within.contents list has _ inside text rfl)

end Listed

end Workspace

end MapChain
