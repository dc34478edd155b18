import MapChain.Proofs.Chain.Visits
import MapChain.Store.Memory

/-!
# The versions of maps

A map that was not given up front has a text, which stands in a file or in a data URL. The text
declares a version, and unless it is the supported one the file cannot be followed. Building
then fails, with the error for this version or with one that it meets before.

A map that was given has no text, and nothing looks at its version. Whatever versions the given
maps are stamped with, building comes to the same.
-/

namespace MapChain

/-- The same texts and maps, the maps stamped with other versions. -/
def Overrides.stamped (overrides : Overrides) (stamp : Document → UInt32) : Overrides where
  contents := overrides.contents
  maps := overrides.maps.map fun entry => (entry.1, { entry.2 with version := stamp entry.2 })

namespace Workspace

/-- The same workspace, the maps that are given in it stamped with other versions. -/
def stamped (workspace : Workspace) (stamp : Document → UInt32) : Workspace where
  provider := workspace.provider
  overrides := workspace.overrides.stamped stamp

/-- Building looks at the versions of all maps but those that were given. `result` is what it
makes of the file at `path` with the text `content`. -/
structure IsChecked (workspace : Workspace) (path : Path) (content : String)
    (result : Except ChainError Chain) : Prop where
  /-- Every node is of a file that building comes to. -/
  nodes : ∀ chain, result = .ok chain → ∀ node ∈ chain.nodes, ∃ place above,
    workspace.ComesTo ⟨path, content, []⟩ place ⟨node.path, node.content, above⟩
  /-- Every file of what was built has no map, or one that was given, or one whose text declares
  the supported version. -/
  supported : ∀ chain, result = .ok chain →
    ∀ place visit, workspace.ComesTo ⟨path, content, []⟩ place visit →
      workspace.link? visit.path visit.content = .ok none ∨
        (∃ document, workspace.givenMap? visit.path = some document) ∨
        ∃ origin text, workspace.Refers visit.path visit.content origin text ∧
          Document.Declares text Document.supported.toNat
  /-- A file whose map declares another version makes building fail. -/
  refused : ∀ place visit origin text version,
    workspace.ComesTo ⟨path, content, []⟩ place visit →
    workspace.Refers visit.path visit.content origin text → Document.Declares text version →
    version ≠ Document.supported.toNat →
      ∃ error, result = .error error ∧ (error = .unsupportedVersion origin version ∨
        (∃ earlier, Precedes earlier place ∧
          workspace.Meets ⟨path, content, []⟩ earlier error) ∨
        ∃ last, error = .tooDeep last)
  /-- The versions of given maps count for nothing. -/
  stamped : ∀ stamp, (workspace.stamped stamp).chain path content = result

variable {workspace : Workspace} {path : Path} {content : String}

/-- A map that is followed was given or has a text. -/
theorem refers_of_link? {link : Link} (linked : workspace.link? path content = .ok (some link)) :
    (∃ document, workspace.givenMap? path = some document) ∨
      ∃ origin text, workspace.Refers path content origin text ∧
        Document.Declares text Document.supported.toNat := by
  cases own : workspace.givenMap? path with
  | some document => exact .inl ⟨document, rfl⟩
  | none =>
    obtain ⟨document, directory, documents, _⟩ := workspace.link_cases linked
    cases documents with
    | given found => simp [own] at found
    | inline url located read =>
      obtain ⟨text, carried⟩ := Document.exists_carries_of_ofDataUrl read
      rw [Document.ofDataUrl_of_carries carried] at read
      exact .inr ⟨_, text, .inline url text own located carried, Document.declares_of_ofChars read⟩
    | file target text place located placed found read =>
      exact .inr ⟨_, _, .file target text place own located placed found,
        Document.declares_of_ofChars read⟩

/-- A given map is found with whatever version it is stamped with. -/
theorem givenMap?_stamped (stamp : Document → UInt32) (path : Path) :
    (workspace.stamped stamp).givenMap? path =
      (workspace.givenMap? path).map fun document =>
        { document with version := stamp document } := by
  simp only [givenMap?, stamped, Overrides.stamped, Overrides.entry?]
  rw [← List.map_reverse, List.find?_map, Option.map_map, Option.map_map]
  rfl

/-- A file is followed alike, whatever versions given maps are stamped with. -/
theorem link?_stamped (stamp : Document → UInt32) (path : Path) (content : String) :
    (workspace.stamped stamp).link? path content = workspace.link? path content := by
  simp only [link?, document?, givenMap?_stamped]
  cases own : workspace.givenMap? path with
  | none => rfl
  | some document => rfl

/-- The chain of a file is built alike, whatever versions given maps are stamped with. -/
theorem chain_stamped (stamp : Document → UInt32) (path : Path) (content : String) :
    (workspace.stamped stamp).chain path content = workspace.chain path content := by
  have depth : (workspace.stamped stamp).depth content = workspace.depth content := by
    simp only [Workspace.depth, stamped, Overrides.stamped, Overrides.volume, volumeOf,
      List.foldr_map]
    rfl
  apply chain_congr _ depth (link?_stamped stamp) fun _ _ => rfl
  rfl

end Workspace

namespace Chain

/-- Building looks at the versions of all maps that it follows but of those that were given. -/
theorem isChecked_of_runs {workspace : Workspace} {path : Path} {content : String}
    {result : Except ChainError Chain} (runs : Runs workspace path content result) :
    workspace.IsChecked path content result := by
  obtain rfl := runs.eq_chain
  refine ⟨?_, ?_, ?_, ?_⟩
  · intro chain built node member
    exact exists_comesTo_of_mem built member
  · intro chain built place visit comes
    cases linked : workspace.link? visit.path visit.content with
    | error error => exact absurd (comes.meets linked) (not_meets_of_chain built place error)
    | ok found =>
      cases found with
      | none => exact .inl rfl
      | some link => exact .inr (Workspace.refers_of_link? linked)
  · intro place visit origin text version comes refers declares other
    have unread := Document.ofChars_of_declares declares other
    exact chain_eq_error_of_meets (comes.meets (refers.link?_eq_error unread))
  · intro stamp
    exact Workspace.chain_stamped stamp path content

/-- A map of a version that is not supported. -/
def outdatedMap : Document := { version := 2, sources := ["b.ts"], mappings := "AAAA" }

/-- A file whose map leads to another file, which has an outdated map. -/
def outdated : Memory :=
  let files := Memory.put {} (.ofText "out.js") (bytesOfText "//# sourceMappingURL=out.map")
  let files := files.put (.ofText "out.map")
    (bytesOfText (Document.toText { version := 3, sources := ["a.js"], mappings := "" }))
  let files := files.put (.ofText "a.js") (bytesOfText "/*# sourceMappingURL=a.map */")
  files.put (.ofText "a.map") (bytesOfText outdatedMap.toText)

/-- A map that is outdated stops building, wherever it is met. -/
theorem isChecked_outdated :
    Workspace.required ⟨outdated.provider, {}⟩ (.ofText "/out.js") =
        .ok "//# sourceMappingURL=out.map" ∧
      Workspace.IsChecked ⟨outdated.provider, {}⟩ (.ofText "/out.js")
        "//# sourceMappingURL=out.map" (build ⟨outdated.provider, {}⟩ (.ofText "out.js")) ∧
      build ⟨outdated.provider, {}⟩ (.ofText "out.js") =
        .error (.unsupportedVersion (.file (.ofText "/a.map")) 2) := by
  have found : Workspace.required ⟨outdated.provider, {}⟩ (.ofText "/out.js") =
      .ok "//# sourceMappingURL=out.map" := by decide +kernel
  refine ⟨found, ?_, by decide +kernel⟩
  exact isChecked_of_runs (.file (.ofText "out.js") _ found)

/-- The file of a chain for which the outdated map is given. -/
def outdatedNode : Node where
  path := .ofText "/out.js"
  content := "//# sourceMappingURL=out.map"
  table := some ⟨["b.ts"], [none], [], [[⟨0, some ⟨0, 0, 0, none⟩⟩]]⟩
  children := [.unresolved (.ofText "/b.ts")]

/-- A map that is outdated is followed if it is given. -/
theorem not_supported_of_given : ¬∀ workspace root chain, build workspace root = .ok chain →
    ∀ node ∈ chain.nodes, ∀ document directory,
      workspace.document? node.path node.content = .ok (some (document, directory)) →
        document.version = Document.supported := by
  intro supported
  have built : build ⟨outdated.provider, { maps := [(.ofText "out.js", outdatedMap)] }⟩
      (.ofText "out.js") = .ok ⟨[outdatedNode], .root⟩ := by decide +kernel
  have given := supported _ _ _ built outdatedNode (by simp) outdatedMap .root (by decide +kernel)
  exact absurd given (by decide)

end Chain

end MapChain
