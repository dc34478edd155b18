import MapChain.Proofs.Chain.Ending
import MapChain.Proofs.Chain.Reworded
import MapChain.Proofs.Chain.Visits
import MapChain.Proofs.Reference
import MapChain.Proofs.Store.Written

/-!
# Maps that are given and maps that are embedded

A map can be given for a file, or the text of the file can carry it in a comment behind all else.
Building makes the same chain of both, but for the text of that file.

Below the file both ways find the same texts and maps. The file is on every branch, so it is
nobody's source; but another file can name it as its map, and then the comment spoils the map.
A file may do so and leave no node in the chain, because an earlier file has its path or that of
a file above it. Hence what matters is which files building comes to.
-/

namespace MapChain

namespace Workspace

/-- A map that one workspace is given for the file at `root`, with the text `content`, is carried
by the text of the file in another workspace. All else that building looks at is the same. -/
structure Embeds (given embedded : Workspace) (root : Path) (content : String)
    (document : Document) : Prop where
  directory : embedded.provider.cwd = given.provider.cwd
  map : given.givenMap? root = some document
  own : embedded.givenMap? root = none
  text : given.text root = .ok content
  reworded : embedded.text root = .ok (content ++ CommentStyle.line.render document.toDataUrl)
  maps : ∀ path, path ≠ root → embedded.givenMap? path = given.givenMap? path
  contents : ∀ path, path.IsLocation → path ≠ root → embedded.given? path = given.given? path
  files : ∀ path, path.IsLocation → path ≠ root →
    embedded.provider.readText path = given.provider.readText path

/-- No file that building comes to from `start` and that has no map given names `path` as the
file of its map. -/
def Spares (workspace : Workspace) (start : Visit) (path : Path) : Prop :=
  ∀ place visit target, workspace.ComesTo start place visit →
    workspace.givenMap? visit.path = none →
    Reference.locate visit.content = some (.file target) →
      visit.path.parent.resolve (.ofText target) ≠ path

end Workspace

/-- A visited file at a location other than `root`, which is above it. -/
structure Visit.IsBelow (visit : Visit) (root : Path) : Prop where
  location : visit.path.IsLocation
  apart : visit.path ≠ root
  above : root ∈ visit.above

namespace Workspace

variable {given embedded : Workspace} {root : Path} {content : String} {document : Document}

/-- A source of a file at or below `root` lies at another location. -/
theorem Seeks.location_and_ne {workspace : Workspace} {visit : Visit} {index : Nat} {target : Path}
    {carried : Option String} (sought : workspace.Seeks visit index target carried)
    (location : visit.path.IsLocation) (known : root ∈ visit.branch) :
    target.IsLocation ∧ target ≠ root := by
  obtain ⟨link, entry, _, linked, _, _, rfl, new⟩ := sought
  have absolute := workspace.absolute_link_directory linked location.absolute
  refine ⟨Path.isLocation_resolve _ _ absolute, ?_⟩
  rintro rfl
  exact new known

/-- Building goes on to files below `root`. -/
theorem GoesOn.isBelow {workspace : Workspace} {visit next : Visit} {index : Nat}
    (goes : workspace.GoesOn visit index next) (location : visit.path.IsLocation)
    (known : root ∈ visit.branch) : next.IsBelow root := by
  obtain ⟨target, carried, text, sought, _⟩ := goes
  obtain ⟨placed, apart⟩ := sought.location_and_ne location known
  exact ⟨placed, apart, known⟩

/-- A file that building comes to from one below `root` is below `root`. -/
theorem ComesTo.isBelow {workspace : Workspace} {visit last : Visit} {place : List Nat}
    (comes : workspace.ComesTo visit place last) (below : visit.IsBelow root) :
    last.IsBelow root := by
  induction comes with
  | here visit => exact below
  | onward visit next last index place goes _ inductionHypothesis =>
    exact inductionHypothesis (goes.isBelow below.location (List.mem_cons_of_mem _ below.above))

namespace Embeds

variable (embeds : given.Embeds embedded root content document)

include embeds

/-- The file at `root` follows the map in its text as it does the map that it is given. -/
theorem link?_root (own : document.version = Document.supported) :
    embedded.link? root (content ++ CommentStyle.line.render document.toDataUrl) =
      given.link? root content := by
  obtain ⟨value, kept⟩ := Reference.isValue_toDataUrl document
  have located : Reference.locate (content ++ CommentStyle.line.render document.toDataUrl) =
      some (.inline document.toDataUrl) := by
    rw [Reference.locate_render _ _ (kept.symm ▸ value), kept, Reference.ofValue_toDataUrl]
  simp only [link?, document?, embeds.own, embeds.map, located, Document.ofDataUrl_toDataUrl own]

/-- A file other than `root` has the same text in both workspaces. -/
theorem text_eq {path : Path} (location : path.IsLocation) (apart : path ≠ root) :
    embedded.text path = given.text path := by
  simp only [Workspace.text, embeds.contents path location apart, embeds.files path location apart]

/-- A source other than `root` has the same text in both workspaces. -/
theorem sourceText?_eq {path : Path} (location : path.IsLocation) (apart : path ≠ root)
    (carried : Option String) :
    embedded.sourceText? path carried = given.sourceText? path carried := by
  simp only [sourceText?, embeds.contents path location apart, embeds.files path location apart]

/-- A file other than `root` follows the same map in both workspaces, unless `root` is that map. -/
theorem link?_eq {path : Path} (text : String) (location : path.IsLocation) (apart : path ≠ root)
    (spared : given.givenMap? path = none → ∀ target,
      Reference.locate text = some (.file target) → path.parent.resolve (.ofText target) ≠ root) :
    embedded.link? path text = given.link? path text := by
  have documents : embedded.document? path text = given.document? path text := by
    simp only [document?, embeds.maps path apart]
    cases own : given.givenMap? path with
    | some document => rfl
    | none =>
      cases located : Reference.locate text with
      | none => rfl
      | some reference =>
        cases reference with
        | inline url => rfl
        | file target =>
          have placed : (path.parent.resolve (.ofText target)).IsLocation :=
            Path.isLocation_resolve _ _ location.absolute
          simp only [required, embeds.text_eq placed (spared own target located)]
  simp only [link?, documents]

/-- The sources of the file at `root` come to the same in both workspaces. -/
theorem mapM_resolveSource_eq {link : Link} (location : root.IsLocation)
    (spares : given.Spares ⟨root, content, []⟩ root)
    (linked : given.link? root content = .ok (some link)) (depth : Nat) :
    (link.table.sources.zip link.table.contents).mapM
        (embedded.resolveSource link.directory [root] fun path text =>
          embedded.resolve depth path text [root]) =
      (link.table.sources.zip link.table.contents).mapM
        (given.resolveSource link.directory [root] fun path text =>
          given.resolve depth path text [root]) := by
  have start : root ∈ Visit.branch ⟨root, content, []⟩ := List.mem_singleton_self root
  apply mapM_resolveSource_congr ⟨root, content, []⟩ depth linked
  · intro index target carried sought
    obtain ⟨placed, apart⟩ := sought.location_and_ne location start
    exact embeds.sourceText?_eq placed apart carried
  · intro index next goes
    have below := goes.isBelow location start
    apply resolve_congr next depth
    · intro place last comes
      obtain ⟨placed, apart, _⟩ := comes.isBelow below
      exact embeds.link?_eq last.content placed apart fun own target located =>
        spares _ last target (.onward _ next last index place goes comes) own located
    · intro place last comes index target carried sought
      have deeper := comes.isBelow below
      obtain ⟨placed, apart⟩ :=
        sought.location_and_ne deeper.location (List.mem_cons_of_mem _ deeper.above)
      exact embeds.sourceText?_eq placed apart carried

/-- On every depth, resolving the file at `root` comes to the same tree but for the file's text. -/
theorem resolve_eq (own : document.version = Document.supported) (location : root.IsLocation)
    (spares : given.Spares ⟨root, content, []⟩ root) (depth : Nat) :
    embedded.resolve depth root (content ++ CommentStyle.line.render document.toDataUrl) [] =
      (given.resolve depth root content []).map
        (·.reworded (content ++ CommentStyle.line.render document.toDataUrl)) := by
  cases depth with
  | zero => rfl
  | succ depth =>
    have agreed := embeds.link?_root own
    cases linked : given.link? root content with
    | error error =>
      rw [resolve, resolve, agreed, linked]
      rfl
    | ok found =>
      rw [linked] at agreed
      cases found with
      | none =>
        rw [resolve_of_bare linked, resolve_of_bare agreed]
        rfl
      | some link =>
        rw [resolve_of_link linked, resolve_of_link agreed]
        have children := embeds.mapM_resolveSource_eq location spares linked depth
        rw [children]
        cases (link.table.sources.zip link.table.contents).mapM
          (given.resolveSource link.directory [root] fun path text =>
            given.resolve depth path text [root]) <;> rfl

/-- The chain of the file at `root` is the same in both workspaces but for the file's text. -/
theorem chain_eq (own : document.version = Document.supported) (location : root.IsLocation)
    (spares : given.Spares ⟨root, content, []⟩ root) {files otherFiles : List (Path × List UInt8)}
    (lists : given.provider.Lists files) (otherLists : embedded.provider.Lists otherFiles) :
    embedded.chain root (content ++ CommentStyle.line.render document.toDataUrl) =
      (given.chain root content).map
        (·.reworded (content ++ CommentStyle.line.render document.toDataUrl)) := by
  have same := resolve_depth_congr lists otherLists location.absolute
    (embeds.resolve_eq own location spares)
  generalize content ++ CommentStyle.line.render document.toDataUrl = text at same ⊢
  rw [chain, chain, same, embeds.directory]
  cases made : given.resolve (given.depth content) root content [] with
  | error error => rfl
  | ok tree =>
    obtain ⟨table, children, rfl⟩ := given.exists_file_of_resolve made
    exact congrArg Except.ok (Chain.ofTree_reworded _ root content text table children)

end Embeds

end Workspace

namespace Overrides

/-- An entry behind all others counts for its file and for no other. -/
theorem entry?_concat (cwd path file : Path) (entries : List (Path × α)) (value : α) :
    entry? cwd path (entries ++ [(file, value)]) =
      if cwd.resolve file = path then some value else entry? cwd path entries := by
  unfold entry?
  rw [List.reverse_concat, List.find?_cons]
  by_cases own : cwd.resolve file = path
  · simp [own]
  · simp [own]

/-- One more map that is given. -/
def withMap (overrides : Overrides) (file : Path) (document : Document) : Overrides :=
  { overrides with maps := overrides.maps ++ [(file, document)] }

/-- One more text that is given. -/
def withText (overrides : Overrides) (file : Path) (text : String) : Overrides :=
  { overrides with contents := overrides.contents ++ [(file, text)] }

end Overrides

namespace Workspace

/-- A map can be embedded in a text that is given for its file. -/
theorem embeds_withText (provider : Provider) (overrides : Overrides) (file : Path)
    {content : String} (document : Document)
    (unmapped : givenMap? ⟨provider, overrides⟩ (provider.cwd.resolve file) = none)
    (found : text ⟨provider, overrides⟩ (provider.cwd.resolve file) = .ok content) :
    Embeds ⟨provider, overrides.withMap file document⟩
      ⟨provider, overrides.withText file
        (content ++ CommentStyle.line.render document.toDataUrl)⟩
      (provider.cwd.resolve file) content document := by
  constructor
  · rfl
  · simp only [givenMap?, Overrides.withMap, Overrides.entry?_concat, if_true]
  · exact unmapped
  · exact found
  · simp only [text, given?, Overrides.withText, Overrides.entry?_concat, if_true]
  · intro path apart
    simp only [givenMap?, Overrides.withMap, Overrides.withText, Overrides.entry?_concat,
      if_neg apart.symm]
  · intro path _ apart
    simp only [given?, Overrides.withMap, Overrides.withText, Overrides.entry?_concat,
      if_neg apart.symm]
  · intro path _ _
    rfl

/-- A map can be embedded by writing its file anew, if no text is given for the file. -/
theorem embeds_put (memory : Memory) (overrides : Overrides) (file : Path) {content : String}
    (document : Document) (location : (memory.cwd.resolve file).IsLocation)
    (unmapped : givenMap? ⟨memory.provider, overrides⟩ (memory.cwd.resolve file) = none)
    (own : given? ⟨memory.provider, overrides⟩ (memory.cwd.resolve file) = none)
    (found : memory.provider.readText (memory.cwd.resolve file) = .ok content) :
    Embeds ⟨memory.provider, overrides.withMap file document⟩
      ⟨(memory.put (memory.cwd.resolve file)
        (bytesOfText (content ++ CommentStyle.line.render document.toDataUrl))).provider, overrides⟩
      (memory.cwd.resolve file) content document := by
  have given : given? ⟨memory.provider, overrides.withMap file document⟩
      (memory.cwd.resolve file) = none := own
  constructor
  · rfl
  · exact (Overrides.entry?_concat _ _ _ _ _).trans (if_pos rfl)
  · exact unmapped
  · simp only [text, given, found]
  · have written := memory.readText_put location
      (content ++ CommentStyle.line.render document.toDataUrl)
    have still : given? ⟨(memory.put (memory.cwd.resolve file)
        (bytesOfText (content ++ CommentStyle.line.render document.toDataUrl))).provider, overrides⟩
        (memory.cwd.resolve file) = none := own
    simp only [text, still, written]
  · intro path apart
    exact ((Overrides.entry?_concat _ _ _ _ _).trans (if_neg apart.symm)).symm
  · intro path _ _
    rfl
  · intro path placed apart
    exact memory.readText_put_of_ne location placed apart _

/-- A file with a given map whose sources have no maps spares every path. -/
theorem spares_of_bare {workspace : Workspace} {start : Visit} {path : Path}
    (mapped : workspace.givenMap? start.path ≠ none)
    (bare : ∀ index next, workspace.GoesOn start index next →
      workspace.link? next.path next.content = .ok none) : workspace.Spares start path := by
  intro place visit target comes unmapped located
  cases comes with
  | here _ => exact absurd unmapped mapped
  | onward _ next _ index place goes rest =>
    have unlinked := bare index next goes
    cases rest with
    | here _ => simp [workspace.locate_of_link?_eq_none unlinked] at located
    | onward _ _ _ _ _ further _ =>
      obtain ⟨_, _, _, ⟨link, _, _, linked, _⟩, _⟩ := further
      simp [unlinked] at linked

end Workspace

namespace Chain

/-- A map that is given for a file and one that the file's text carries are the same to building.
Both fail with the same error, or both come to chains that differ in the text of the root only
and trace every position to the same location. -/
theorem build_embedded (memory other : Memory) (overrides otherOverrides : Overrides)
    (absolute : memory.cwd.absolute = true) (root : Path) (content : String) (document : Document)
    (own : document.version = Document.supported)
    (embeds : Workspace.Embeds ⟨memory.provider, overrides⟩ ⟨other.provider, otherOverrides⟩
      (memory.cwd.resolve root) content document)
    (spares : Workspace.Spares ⟨memory.provider, overrides⟩
      ⟨memory.cwd.resolve root, content, []⟩ (memory.cwd.resolve root)) :
    build ⟨other.provider, otherOverrides⟩ root =
        (build ⟨memory.provider, overrides⟩ root).map
          (·.reworded (content ++ CommentStyle.line.render document.toDataUrl)) ∧
      ∀ one another, build ⟨memory.provider, overrides⟩ root = .ok one →
        build ⟨other.provider, otherOverrides⟩ root = .ok another →
        ∀ line column, another.trace line column = one.trace line column := by
  have location : (memory.cwd.resolve root).IsLocation := Path.isLocation_resolve _ root absolute
  have runs : Runs ⟨memory.provider, overrides⟩ (memory.cwd.resolve root) content
      (build ⟨memory.provider, overrides⟩ root) :=
    .file root content (Workspace.required_of_text _ embeds.text)
  have otherRuns : Runs ⟨other.provider, otherOverrides⟩ (memory.cwd.resolve root)
      (content ++ CommentStyle.line.render document.toDataUrl)
      (build ⟨other.provider, otherOverrides⟩ root) := by
    have cwd : other.cwd = memory.cwd := embeds.directory
    have found := Workspace.required_of_text _ embeds.reworded
    rw [← cwd] at found ⊢
    exact .file root _ found
  have built : build ⟨other.provider, otherOverrides⟩ root =
      (build ⟨memory.provider, overrides⟩ root).map
        (·.reworded (content ++ CommentStyle.line.render document.toDataUrl)) := by
    rw [runs.eq_chain, otherRuns.eq_chain]
    exact embeds.chain_eq own location spares memory.lists other.lists
  refine ⟨built, ?_⟩
  intro one another made otherMade line column
  rw [built, made] at otherMade
  obtain rfl := Except.ok.inj otherMade
  exact trace_alike (alike_reworded one _) line column

/-- The text of a bundle, which names an old map. -/
def bundleText : String := "//# sourceMappingURL=old.map\nf();"

/-- The map of the bundle. -/
def bundleMap : Document := { version := 3, sources := ["a.ts"], mappings := ";AAAI" }

/-- The files of the bundle and of its one source. -/
def bundle : Memory :=
  (Memory.put {} (.ofText "out.js") (bytesOfText bundleText)).put (.ofText "a.ts")
    (bytesOfText "let f;")

/-- The workspace in which the map is given for the bundle. -/
def bundleGiven : Workspace := ⟨bundle.provider, { maps := [(.ofText "out.js", bundleMap)] }⟩

/-- The chain of the bundle. -/
def bundleChain : Chain where
  nodes :=
    [⟨.ofText "/out.js", bundleText,
        some ⟨["a.ts"], [none], [], [[], [⟨0, some ⟨0, 0, 4, none⟩⟩]]⟩, [.resolved 1]⟩,
      ⟨.ofText "/a.ts", "let f;", none, []⟩]
  cwd := .root

/-- Nothing names the bundle as its map. -/
theorem spares_bundle :
    bundleGiven.Spares ⟨.ofText "/out.js", bundleText, []⟩ (.ofText "/out.js") := by
  have linked : bundleGiven.link? (.ofText "/out.js") bundleText =
      .ok (some ⟨⟨["a.ts"], [none], [], [[], [⟨0, some ⟨0, 0, 4, none⟩⟩]]⟩, .root⟩) := by
    decide +kernel
  have readable : bundleGiven.sourceText? (Path.root.resolve (.ofText "a.ts")) none =
      .ok (some "let f;") := by decide +kernel
  apply Workspace.spares_of_bare
  · decide +kernel
  · rintro index _ ⟨_, _, _, ⟨_, _, _, found, listed, _, rfl, _⟩, read⟩
    obtain rfl := Option.some.inj (Except.ok.inj (linked.symm.trans found))
    cases index with
    | zero =>
      obtain rfl := Option.some.inj listed
      obtain rfl := Option.some.inj (Except.ok.inj (readable.symm.trans read))
      decide +kernel
    | succ index => simp at listed

/-- The map may stand in the bundle instead, behind the name of the old one. -/
theorem build_embedded_bundle :
    build bundleGiven (.ofText "out.js") = .ok bundleChain ∧
      build ⟨(bundle.put (.ofText "/out.js") (bytesOfText
          (bundleText ++ CommentStyle.line.render bundleMap.toDataUrl))).provider, {}⟩
        (.ofText "out.js") = .ok (bundleChain.reworded
          (bundleText ++ CommentStyle.line.render bundleMap.toDataUrl)) := by
  have place : bundle.cwd.resolve (.ofText "out.js") = .ofText "/out.js" := by decide +kernel
  have location : (bundle.cwd.resolve (.ofText "out.js")).IsLocation :=
    Path.isLocation_resolve _ _ rfl
  have read : bundle.provider.readText (bundle.cwd.resolve (.ofText "out.js")) =
      .ok bundleText := by decide +kernel
  have built : build bundleGiven (.ofText "out.js") = .ok bundleChain := by decide +kernel
  have embeds := Workspace.embeds_put bundle {} (.ofText "out.js") bundleMap location rfl rfl read
  obtain ⟨same, _⟩ := build_embedded bundle _ _ {} rfl (.ofText "out.js") bundleText bundleMap rfl
    embeds (place.symm ▸ spares_bundle)
  refine ⟨built, ?_⟩
  rw [place] at same
  exact same.trans (congrArg (Except.map _) built)

/-- A map with two texts for one path, the second of which names a map of its own. -/
def twofoldMap : Document where
  version := 3
  sources := ["q.js", "q.js"]
  contents := some [some "let q;", some "//# sourceMappingURL=q.map"]
  mappings := "AAAA"

/-- The text of a file that is a map itself. -/
def twofoldText : String := Document.toText { version := 3, sources := [], mappings := "" }

/-- A store with a file that is a map, the map of the second text, and the file below that, which
names the first file. -/
def twofold : Memory :=
  let files := Memory.put {} (.ofText "out.js") (bytesOfText twofoldText)
  let files := files.put (.ofText "q.map")
    (bytesOfText (Document.toText { version := 3, sources := ["z.js"], mappings := "" }))
  files.put (.ofText "z.js") (bytesOfText "//# sourceMappingURL=out.js")

/-- The workspace in which the map is given for the file. -/
def twofoldGiven : Workspace := ⟨twofold.provider, { maps := [(.ofText "out.js", twofoldMap)] }⟩

/-- The workspace in which the text of the file carries the map. -/
def twofoldEmbedded : Workspace :=
  ⟨(twofold.put (.ofText "/out.js") (bytesOfText
    (twofoldText ++ CommentStyle.line.render twofoldMap.toDataUrl))).provider, {}⟩

/-- The link of the file. -/
def twofoldLink : Link where
  table := ⟨["q.js", "q.js"], [some "let q;", some "//# sourceMappingURL=q.map"], [],
    [[⟨0, some ⟨0, 0, 0, none⟩⟩]]⟩
  directory := .root

/-- The chain of the file. Only the first text has a node. -/
def twofoldChain : Chain where
  nodes :=
    [⟨.ofText "/out.js", twofoldText, some twofoldLink.table, [.resolved 1, .resolved 1]⟩,
      ⟨.ofText "/q.js", "let q;", none, []⟩]
  cwd := .root

/-- The two workspaces differ in how the map is had. -/
theorem embeds_twofold :
    twofoldGiven.Embeds twofoldEmbedded (.ofText "/out.js") twofoldText twofoldMap := by
  have place : twofold.cwd.resolve (.ofText "out.js") = .ofText "/out.js" := by decide +kernel
  have location : (twofold.cwd.resolve (.ofText "out.js")).IsLocation :=
    Path.isLocation_resolve _ _ rfl
  have read : twofold.provider.readText (twofold.cwd.resolve (.ofText "out.js")) =
      .ok twofoldText := by decide +kernel
  have embeds := Workspace.embeds_put twofold {} (.ofText "out.js") twofoldMap location rfl rfl read
  rw [place] at embeds
  exact embeds

/-- Behind the text of a document a comment cannot stand. -/
theorem ofText_toText_append_render (document : Document) (style : CommentStyle) (url : String) :
    Document.ofText (document.toText ++ style.render url) = .error (.text .malformed) := by
  obtain ⟨rest, spelled⟩ : ∃ rest, (style.render url).toList = '\n' :: '/' :: rest := by
    cases style <;> exact ⟨_, String.toList_ofList⟩
  have ends : Json.Number.Ends ('\n' :: '/' :: rest) := by
    rintro c ⟨⟩
    decide
  have read := Document.reads_toJson Json.isBlank_compact document 0 _ ends
  have unread : Json.decode? (document.toText ++ style.render url).toList = none := by
    rw [String.toList_append, spelled, Document.toText, Json.compact, String.toList_ofList,
      Json.decode?, read]
    rfl
  rw [Document.ofText, Document.ofChars, unread]

/-- The comment spoils the file as a map of the file that names it. -/
theorem link?_twofold : twofoldEmbedded.link? (.ofText "/z.js") "//# sourceMappingURL=out.js" =
    .error (.invalidMap (.file (.ofText "/out.js")) (.text .malformed)) := by
  have located : Reference.locate "//# sourceMappingURL=out.js" = some (.file "out.js") := by
    decide +kernel
  have place : Path.ofText "/out.js" = (Path.ofText "/z.js").parent.resolve (.ofText "out.js") := by
    decide +kernel
  have refers : twofoldEmbedded.Refers (.ofText "/z.js") "//# sourceMappingURL=out.js" _ _ :=
    .file "out.js" _ _ rfl located place embeds_twofold.reworded
  exact refers.link?_eq_error (ofText_toText_append_render _ .line twofoldMap.toDataUrl)

/-- The second text leads to a file for which something goes wrong. -/
theorem meets_twofold : twofoldEmbedded.Meets
    ⟨.ofText "/out.js", twofoldText ++ CommentStyle.line.render twofoldMap.toDataUrl, []⟩ [1, 0]
    (.invalidMap (.file (.ofText "/out.js")) (.text .malformed)) := by
  have embeds := embeds_twofold
  have location (name : String) : (Path.root.resolve (.ofText name)).IsLocation :=
    Path.isLocation_resolve _ _ rfl
  have given : twofoldGiven.link? (.ofText "/out.js") twofoldText = .ok (some twofoldLink) := by
    decide +kernel
  have linked := (embeds.link?_root rfl).trans given
  have deeper : twofoldEmbedded.link? (.ofText "/q.js") "//# sourceMappingURL=q.map" =
      .ok (some ⟨⟨["z.js"], [none], [], [[]]⟩, .root⟩) := by
    have place : Path.ofText "/q.js" = Path.root.resolve (.ofText "q.js") := by decide +kernel
    have located : Reference.locate "//# sourceMappingURL=q.map" = some (.file "q.map") := by
      decide +kernel
    rw [embeds.link?_eq _ (place ▸ location "q.js") (by decide +kernel)]
    · decide +kernel
    · intro _ target named
      obtain rfl : "q.map" = target := by simpa [located] using named
      decide +kernel
  have text : twofoldEmbedded.sourceText? (.ofText "/z.js") none =
      .ok (some "//# sourceMappingURL=out.js") := by
    have place : Path.ofText "/z.js" = Path.root.resolve (.ofText "z.js") := by decide +kernel
    rw [embeds.sourceText?_eq (place ▸ location "z.js") (by decide +kernel)]
    decide +kernel
  have second : twofoldEmbedded.GoesOn
      ⟨.ofText "/out.js", twofoldText ++ CommentStyle.line.render twofoldMap.toDataUrl, []⟩ 1
      ⟨.ofText "/q.js", "//# sourceMappingURL=q.map", [.ofText "/out.js"]⟩ :=
    .text _ (some "//# sourceMappingURL=q.map") _ (.source twofoldLink ("q.js", _) _ linked rfl
      (by decide) (by decide +kernel) (by decide +kernel)) rfl
  have below : twofoldEmbedded.GoesOn
      ⟨.ofText "/q.js", "//# sourceMappingURL=q.map", [.ofText "/out.js"]⟩ 0
      ⟨.ofText "/z.js", "//# sourceMappingURL=out.js", [.ofText "/q.js", .ofText "/out.js"]⟩ :=
    .text _ none _ (.source _ ("z.js", none) _ deeper rfl (by decide) (by decide +kernel)
      (by decide +kernel)) text
  exact .onward _ _ _ _ _ second (.onward _ _ _ _ _ below (.map _ _ link?_twofold))

/-- A map that is given cannot be embedded if only the files with a node spare the root. -/
theorem not_build_embedded_of_nodes :
    twofoldGiven.Embeds twofoldEmbedded (.ofText "/out.js") twofoldText twofoldMap ∧
      build twofoldGiven (.ofText "out.js") = .ok twofoldChain ∧
      (∀ node ∈ twofoldChain.nodes, ∀ target,
        Reference.locate node.content = some (.file target) →
          node.path.parent.resolve (.ofText target) ≠ .ofText "/out.js") ∧
      ∀ chain, build twofoldEmbedded (.ofText "out.js") ≠ .ok chain := by
  refine ⟨embeds_twofold, by decide +kernel, ?_, ?_⟩
  · have unnamed : ∀ node ∈ twofoldChain.nodes, Reference.locate node.content = none := by
      decide +kernel
    intro node member target located
    simp [unnamed node member] at located
  · intro chain built
    have place : twofoldEmbedded.provider.cwd.resolve (.ofText "out.js") = .ofText "/out.js" := by
      decide +kernel
    have found := Workspace.required_of_text _ embeds_twofold.reworded
    rw [← place] at found
    have runs := Runs.file (.ofText "out.js") _ found
    rw [built, place] at runs
    exact not_meets_of_chain runs.eq_chain.symm _ _ meets_twofold

end Chain

end MapChain
