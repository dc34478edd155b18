import MapChain.Proofs.Chain.Consulted
import MapChain.Proofs.Store.Written

/-!
# Texts that are given

A text can be given for a path, and then it stands for the file there: as the root, as a source
even if a map carries another text for it, and as the file of a map. The file itself is never
read. So two stores that differ in such files only are the same to building.
-/

namespace MapChain

/-- Another store, seen from the same directory, holds the same at every location for which no
text is given. -/
structure Memory.AgreesBeside (memory other : Memory) (overrides : Overrides) : Prop where
  directory : other.cwd = memory.cwd
  files : ∀ path, path.IsLocation → Workspace.given? ⟨memory.provider, overrides⟩ path = none →
    other.get? path = memory.get? path

/-- A text that is given for a path is the one that building uses there. -/
structure Workspace.UsesGiven (workspace : Workspace) : Prop where
  /-- A text that is given for the root is the root's. -/
  root : ∀ root text, workspace.given? (workspace.provider.cwd.resolve root) = some text →
    Chain.build workspace root = workspace.chain (workspace.provider.cwd.resolve root) text
  /-- A text that is given for a source is the source's, whatever the map carries. -/
  source : ∀ (visit : Visit) index target carried text, workspace.Seeks visit index target carried →
    workspace.given? target = some text →
      ∀ next, workspace.GoesOn visit index next ↔ next = ⟨target, text, visit.branch⟩
  /-- A text that is given for the path of a map is the map's. -/
  map : ∀ (visit : Visit) target path text, workspace.givenMap? visit.path = none →
    Reference.locate visit.content = some (.file target) →
    path = visit.path.parent.resolve (.ofText target) → workspace.given? path = some text →
      workspace.document? visit.path visit.content =
        ((Document.ofText text).map fun document => some (document, path.parent)).mapError
          (.ofMapError (.file path))
  /-- Every file of a chain has the text that is given for it, if there is one. -/
  nodes : ∀ root chain, Chain.build workspace root = .ok chain → ∀ node ∈ chain.nodes,
    ∀ text, workspace.given? node.path = some text → node.content = text
  /-- In a chain whose root is no file, all other files have the texts that are given for them. -/
  below : ∀ content chain, Chain.buildContent workspace content = .ok chain →
    ∀ node ∈ chain.nodes, node.path ≠ workspace.provider.cwd.under .anonymous →
      ∀ text, workspace.given? node.path = some text → node.content = text

namespace Workspace

variable {workspace : Workspace}

/-- Building goes on to a source for which a text is given with this text. -/
theorem goesOn_iff_of_given {visit next : Visit} {index : Nat} {target : Path}
    {carried : Option String} {text : String}
    (sought : workspace.Seeks visit index target carried)
    (given : workspace.given? target = some text) :
    workspace.GoesOn visit index next ↔ next = ⟨target, text, visit.branch⟩ := by
  have goes : workspace.GoesOn visit index ⟨target, text, visit.branch⟩ :=
    .text target carried text sought (by simp only [sourceText?, given])
  exact ⟨fun other => other.unique goes, fun same => same ▸ goes⟩

/-- A file that building comes to is the first one or has the text that is given for it. -/
theorem ComesTo.eq_or_given {visit last : Visit} {place : List Nat}
    (comes : workspace.ComesTo visit place last) :
    last = visit ∨ ∀ text, workspace.given? last.path = some text → last.content = text := by
  induction comes with
  | here visit => exact .inl rfl
  | onward visit next last index place goes _ inductionHypothesis =>
    rcases inductionHypothesis with rfl | texts
    · right
      intro text given
      obtain ⟨target, carried, own, sought, found⟩ := goes
      have same := (goesOn_iff_of_given sought given).mp (.text target carried own sought found)
      exact congrArg Visit.content same
    · exact .inr texts

/-- The map of a file is that of the text that is given for the map's path. -/
theorem document?_of_given {visit : Visit} {target : String} {path : Path} {text : String}
    (own : workspace.givenMap? visit.path = none)
    (located : Reference.locate visit.content = some (.file target))
    (placed : path = visit.path.parent.resolve (.ofText target))
    (given : workspace.given? path = some text) :
    workspace.document? visit.path visit.content =
      ((Document.ofText text).map fun document => some (document, path.parent)).mapError
        (.ofMapError (.file path)) := by
  subst placed
  simp only [document?, own, located, workspace.required_of_text (text_of_given given)]
  simp only [bind, Except.bind]
  cases Document.ofText text <;> rfl

/-- A file of a chain is the root or has the text that is given for it. -/
theorem content_of_given {path : Path} {content text : String} {chain : Chain}
    (built : workspace.chain path content = .ok chain) {node : Node} (member : node ∈ chain.nodes)
    (given : workspace.given? node.path = some text) :
    (node.path = path ∧ node.content = content) ∨ node.content = text := by
  obtain ⟨place, above, comes⟩ := Chain.exists_comesTo_of_mem built member
  rcases comes.eq_or_given with same | texts
  · obtain ⟨own, held, _⟩ := Visit.mk.inj same
    exact .inl ⟨own, held⟩
  · exact .inr (texts text given)

/-- Building uses the texts that are given. -/
theorem usesGiven (workspace : Workspace) : workspace.UsesGiven := by
  refine ⟨?_, ?_, ?_, ?_, ?_⟩
  · intro root text given
    exact (Chain.Runs.file root text (workspace.required_of_text (text_of_given given))).eq_chain
  · intro visit index target carried text sought given next
    exact goesOn_iff_of_given sought given
  · intro visit target path text own located placed given
    exact document?_of_given own located placed given
  · intro root chain built node member text given
    obtain ⟨content, found, made⟩ := Itemwise.exists_of_bind_eq_ok built
    rcases content_of_given made member given with ⟨same, held⟩ | own
    · rw [← same, workspace.required_of_text (text_of_given given)] at found
      exact held.trans (Except.ok.inj found).symm
    · exact own
  · intro content chain built node member apart text given
    exact (content_of_given built member given).resolve_left fun root => apart root.1

end Workspace

namespace Chain

variable {memory other : Memory} {overrides : Overrides}

/-- Stores that agree where no text is given are read alike where building reads them. -/
theorem readText_of_agreesBeside (agrees : memory.AgreesBeside other overrides) {path : Path}
    (location : path.IsLocation)
    (free : Workspace.given? ⟨memory.provider, overrides⟩ path = none) :
    other.provider.readText path = memory.provider.readText path :=
  memory.readText_congr (agrees.files path location free)

/-- A store agrees with itself after a file was overwritten for which a text is given. -/
theorem agreesBeside_put {path : Path} {text : String} (placed : path.IsLocation)
    (given : Workspace.given? ⟨memory.provider, overrides⟩ path = some text)
    (bytes : List UInt8) : memory.AgreesBeside (memory.put path bytes) overrides := by
  refine ⟨rfl, fun place location free => ?_⟩
  have distinct : place ≠ path := by
    rintro rfl
    simp [given] at free
  rw [memory.get?_put, memory.locate_eq_self placed, memory.locate_eq_self location,
    if_neg distinct]

/-- Files for which texts are given are never read: stores that differ in such files only come to
the same chain or the same error, and the texts that are given are used in place of the files. -/
theorem build_beside_given (memory other : Memory) (overrides : Overrides)
    (absolute : memory.cwd.absolute = true) (agrees : memory.AgreesBeside other overrides) :
    (∀ root, build ⟨other.provider, overrides⟩ root = build ⟨memory.provider, overrides⟩ root) ∧
      (∀ content, buildContent ⟨other.provider, overrides⟩ content =
        buildContent ⟨memory.provider, overrides⟩ content) ∧
      Workspace.UsesGiven ⟨memory.provider, overrides⟩ := by
  have seen : other.provider.cwd = memory.provider.cwd := agrees.directory
  have chains (path : Path) (content : String) (under : path.absolute = true) :
      Workspace.chain ⟨other.provider, overrides⟩ path content =
        Workspace.chain ⟨memory.provider, overrides⟩ path content := by
    apply Workspace.chain_congr_of_consults seen memory.lists other.lists content under
    intro consulted consults
    exact readText_of_agreesBeside agrees (consults.isLocation under) consults.given?_eq_none
  refine ⟨?_, ?_, Workspace.usesGiven _⟩
  · intro root
    have location : (memory.provider.cwd.resolve root).IsLocation :=
      Path.isLocation_resolve _ root absolute
    have roots := Workspace.text_congr seen (readText_of_agreesBeside agrees location)
    simp only [build, Workspace.required, seen, roots, chains _ _ location.absolute]
  · intro content
    simp only [buildContent, seen]
    exact chains _ content (Path.under_absolute _ _ absolute)

/-- The map of a draft, which carries a text for the one source. -/
def draftMap : Document where
  version := 3
  sources := ["a.ts"]
  contents := some [some "carried"]
  mappings := "AAAA"

/-- The files of a draft, none of which is of use. -/
def draft : Memory :=
  let files := Memory.put {} (.ofText "out.js") (bytesOfText "old")
  files.put (.ofText "out.map") (bytesOfText "[")

/-- The texts that are given for the draft: the root's, the map's and the source's. -/
def draftTexts : Overrides where
  contents :=
    [(.ofText "out.js", "//# sourceMappingURL=out.map"), (.ofText "/out.map", draftMap.toText),
      (.ofText "lib/../a.ts", "given")]

/-- The chain of the draft. -/
def draftChain : Chain where
  nodes :=
    [⟨.ofText "/out.js", "//# sourceMappingURL=out.map",
        some ⟨["a.ts"], [some "carried"], [], [[⟨0, some ⟨0, 0, 0, none⟩⟩]]⟩, [.resolved 1]⟩,
      ⟨.ofText "/a.ts", "given", none, []⟩]
  cwd := .root

/-- The map of a draft may hold what it likes. -/
theorem build_beside_given_draft :
    draft.cwd.absolute = true ∧
      draft.AgreesBeside (draft.put (.ofText "/out.map") [0xff]) draftTexts ∧
      build ⟨(draft.put (.ofText "/out.map") [0xff]).provider, draftTexts⟩ (.ofText "out.js") =
        .ok draftChain := by
  have placed : (Path.ofText "/out.map").IsLocation :=
    Path.isLocation_resolve .root (.ofText "out.map") rfl
  have given : Workspace.given? ⟨draft.provider, draftTexts⟩ (.ofText "/out.map") =
      some draftMap.toText := by decide +kernel
  have agrees := agreesBeside_put placed given [0xff]
  have built : build ⟨draft.provider, draftTexts⟩ (.ofText "out.js") = .ok draftChain := by
    decide +kernel
  obtain ⟨same, _⟩ := build_beside_given draft _ draftTexts rfl agrees
  exact ⟨rfl, agrees, (same (.ofText "out.js")).trans built⟩

end Chain

end MapChain
