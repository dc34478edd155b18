import MapChain.Chain.Build
import MapChain.Proofs.Document.Texts
import MapChain.Proofs.Mapping.Positions
import MapChain.Proofs.Path.Normal

/-!
# Where maps come from

The map of a file is the one given for it, or else the one that its last reference
comment carries, or else the one in the file that the comment names. Whichever it is, its
sources are seen from a location if the file has one, and its table is well formed.
-/

namespace MapChain

open Itemwise

/-- A translated error is still an error. -/
theorem eq_ok_of_mapError_eq_ok {computation : Except ε α} {translate : ε → δ} {result : α}
    (succeeded : computation.mapError translate = .ok result) : computation = .ok result := by
  cases computation with
  | error error => simp [Except.mapError] at succeeded
  | ok value => exact congrArg _ (Except.ok.inj succeeded)

namespace Workspace

variable (workspace : Workspace)

/-- A text that is found can be required. -/
theorem required_of_text {path : Path} {content : String}
    (found : workspace.text path = .ok content) : workspace.required path = .ok content := by
  rw [required, found]
  rfl

/-- The three places that a file's document can come from, with the directory of the map. -/
inductive Documents (path : Path) (content : String) : Document → Path → Prop where
  | given (document : Document) (found : workspace.givenMap? path = some document) :
      Documents path content document path.parent
  | inline (document : Document) (url : String)
      (located : Reference.locate content = some (.inline url))
      (read : Document.ofDataUrl url = .ok document) :
      Documents path content document path.parent
  | file (document : Document) (target text : String) (place : Path)
      (located : Reference.locate content = some (.file target))
      (placed : place = path.parent.resolve (.ofText target))
      (found : workspace.text place = .ok text) (read : Document.ofText text = .ok document) :
      Documents path content document place.parent

/-- A document that is found comes from one of the three places. -/
theorem documents_of_document? {path : Path} {content : String} {document : Document}
    {directory : Path}
    (found : workspace.document? path content = .ok (some (document, directory))) :
    workspace.Documents path content document directory := by
  simp only [document?] at found
  split at found
  · rename_i given
    obtain ⟨rfl, rfl⟩ := Prod.mk.inj (Option.some.inj (Except.ok.inj found))
    exact .given _ given
  · split at found
    · simp at found
    · rename_i url located
      split at found
      · rename_i read
        obtain ⟨rfl, rfl⟩ := Prod.mk.inj (Option.some.inj (Except.ok.inj found))
        exact .inline _ url located read
      · simp at found
    · rename_i target located
      obtain ⟨text, had, rest⟩ := exists_of_bind_eq_ok found
      split at rest
      · rename_i read
        obtain ⟨rfl, rfl⟩ := Prod.mk.inj (Option.some.inj (Except.ok.inj rest))
        exact .file _ target text _ located rfl (eq_ok_of_mapError_eq_ok had) read
      · simp at rest

/-- A map that is followed has a document that was found, whose table it holds. -/
theorem exists_document?_of_link? {path : Path} {content : String} {link : Link}
    (found : workspace.link? path content = .ok (some link)) :
    ∃ document directory, workspace.document? path content = .ok (some (document, directory)) ∧
      document.table = .ok link.table ∧ link.directory = sourceDirectory document directory := by
  obtain ⟨origin, had, rest⟩ := exists_of_bind_eq_ok found
  cases origin with
  | none => simp [pure, Except.pure] at rest
  | some origin =>
    obtain ⟨document, directory⟩ := origin
    simp only at rest
    split at rest
    · rename_i table made
      obtain rfl := Option.some.inj (Except.ok.inj rest)
      exact ⟨document, directory, had, made, rfl⟩
    · simp at rest

/-- The document of a map that is followed comes from one of the three places. -/
theorem link_cases {path : Path} {content : String} {link : Link}
    (found : workspace.link? path content = .ok (some link)) :
    ∃ document directory, workspace.Documents path content document directory ∧
      document.table = .ok link.table ∧ link.directory = sourceDirectory document directory := by
  obtain ⟨document, directory, had, made, seen⟩ := workspace.exists_document?_of_link? found
  exact ⟨document, directory, workspace.documents_of_document? had, made, seen⟩

/-- The text of a file's map, if no map is given for the file, and where it stands. -/
inductive Refers (path : Path) (content : String) :
    MapOrigin → List Char → Prop where
  | inline (url : String) (text : List Char) (own : workspace.givenMap? path = none)
      (located : Reference.locate content = some (.inline url))
      (carried : Document.Carries url text) : Refers path content (.inline path) text
  | file (target text : String) (place : Path) (own : workspace.givenMap? path = none)
      (located : Reference.locate content = some (.file target))
      (placed : place = path.parent.resolve (.ofText target))
      (found : workspace.text place = .ok text) :
      Refers path content (.file place) text.toList

/-- A text that stands for a file's map and is no map stops building. -/
theorem Refers.link?_eq_error {workspace : Workspace} {path : Path} {content : String}
    {origin : MapOrigin} {text : List Char} {error : MapError}
    (refers : workspace.Refers path content origin text)
    (unread : Document.ofChars text = .error error) :
    workspace.link? path content = .error (.ofMapError origin error) := by
  have failed : workspace.document? path content = .error (.ofMapError origin error) := by
    cases refers with
    | inline url _ own located carried =>
      have read := (Document.ofDataUrl_of_carries carried).trans unread
      simp only [document?, own, located, read]
    | file target text place own located placed found =>
      have read : Document.ofText text = .error error := unread
      subst placed
      simp only [document?, own, located, workspace.required_of_text found]
      simp only [bind, Except.bind, read]
  rw [link?, failed]
  rfl

/-- A file without a given map follows the one that its own text carries. -/
theorem link?_of_inline {path : Path} {content url : String} {document : Document} {table : Table}
    (own : workspace.givenMap? path = none)
    (located : Reference.locate content = some (.inline url))
    (read : Document.ofDataUrl url = .ok document) (made : document.table = .ok table) :
    workspace.link? path content =
      .ok (some ⟨table, sourceDirectory document path.parent⟩) := by
  have found : workspace.document? path content = .ok (some (document, path.parent)) := by
    simp only [document?, own, located, read]
  rw [link?, found]
  simp only [bind, Except.bind, made]
  rfl

/-- A file without a map names none in its text. -/
theorem locate_of_link?_eq_none {path : Path} {content : String}
    (unmapped : workspace.link? path content = .ok none) : Reference.locate content = none := by
  obtain ⟨found, had, rest⟩ := exists_of_bind_eq_ok unmapped
  cases found with
  | some origin =>
    obtain ⟨document, directory⟩ := origin
    simp only at rest
    split at rest <;> simp [pure, Except.pure] at rest
  | none =>
    simp only [document?] at had
    split at had
    · simp at had
    · split at had
      · assumption
      · split at had <;> simp at had
      · obtain ⟨_, _, rest⟩ := exists_of_bind_eq_ok had
        split at rest <;> simp at rest

/-- A source that is left without text has none given, carried or readable. -/
theorem readText_of_sourceText?_eq_none {path : Path} {carried : Option String}
    (missing : workspace.sourceText? path carried = .ok none) :
    ∃ fault, workspace.provider.readText path = .error fault ∧ ∀ cause, fault ≠ .refused cause := by
  simp only [sourceText?] at missing
  split at missing
  · simp at missing
  · split at missing
    · simp at missing
    · split at missing
      · simp at missing
      · simp at missing
      · rename_i fault other failed
        exact ⟨fault, failed, other⟩

/-- The text of a source is the one at its path or the one that the map carries. -/
theorem sourceText?_cases {path : Path} {carried : Option String} {content : String}
    (found : workspace.sourceText? path carried = .ok (some content)) :
    workspace.text path = .ok content ∨ carried = some content := by
  simp only [sourceText?] at found
  simp only [text]
  cases given : workspace.given? path with
  | some own => exact .inl (by simpa [given] using found)
  | none =>
    simp only [given] at found
    cases carried with
    | some own => exact .inr (by simpa using found)
    | none =>
      simp only at found
      split at found
      · rename_i own read
        exact .inl (by simpa [read] using found)
      · simp at found
      · simp at found

/-- The map of a file with an absolute path lies in an absolute directory. -/
theorem absolute_of_documents {path : Path} {content : String} {document : Document}
    {directory : Path} (documents : workspace.Documents path content document directory)
    (absolute : path.absolute = true) : directory.absolute = true := by
  cases documents with
  | given _ => exact absolute
  | inline _ _ => exact absolute
  | file target text place located placed found read =>
    have under : path.parent.absolute = true := absolute
    exact placed ▸ (Path.isLocation_resolve path.parent (.ofText target) under).absolute

/-- A document's sources are seen from an absolute directory if the document lies in one. -/
theorem absolute_sourceDirectory (document : Document) (directory : Path)
    (absolute : directory.absolute = true) :
    (sourceDirectory document directory).absolute = true := by
  simp only [sourceDirectory]
  split
  · split
    · exact absolute
    · exact (Path.isLocation_resolve _ _ absolute).absolute
  · exact absolute

/-- The sources of a file with an absolute path are seen from an absolute directory. -/
theorem absolute_link_directory {path : Path} {content : String} {link : Link}
    (found : workspace.link? path content = .ok (some link)) (absolute : path.absolute = true) :
    link.directory.absolute = true := by
  obtain ⟨document, directory, documents, _, seen⟩ := workspace.link_cases found
  rw [seen]
  exact absolute_sourceDirectory document directory
    (workspace.absolute_of_documents documents absolute)

/-- The table of a map that is followed is well formed. -/
theorem isWellFormed_link_table {path : Path} {content : String} {link : Link}
    (found : workspace.link? path content = .ok (some link)) : link.table.IsWellFormed := by
  obtain ⟨_, _, _, made, _⟩ := workspace.link_cases found
  exact Document.isWellFormed_of_table made

end Workspace

end MapChain
