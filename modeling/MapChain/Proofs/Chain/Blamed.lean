import MapChain.Proofs.Chain.Consulted
import MapChain.Proofs.Store.Written

/-!
# What a failure is blamed on

A store in memory refuses nothing: a file that is not there or is no text leaves a source
without text, and building goes on without it. So only two things stop a build. The root has
no text, or the map of a file that building comes to cannot be loaded: its own file has no text,
or what should be a map is none. Of several such files the first one in the order of the walk
decides the error.
-/

namespace MapChain

open Itemwise

/-- A provider that refuses nothing. -/
def Provider.RefusesNothing (provider : Provider) : Prop :=
  ∀ path cause, ¬provider.Refuses path cause

namespace Workspace

section

variable (workspace : Workspace)

/-- A file has a map that cannot be loaded. It is not given, and the one in a comment is none, or
the file that a comment names has no text or one that is no map; or no table can be made of the
document that was found. -/
inductive FailsToLoad (path : Path) (content : String) : ChainError → Prop where
  | inline (url : String) (error : MapError) (own : workspace.givenMap? path = none)
      (located : Reference.locate content = some (.inline url))
      (unread : Document.ofDataUrl url = .error error) :
      FailsToLoad path content (.ofMapError (.inline path) error)
  | lacking (target : String) (place : Path) (fault : Fault)
      (own : workspace.givenMap? path = none)
      (located : Reference.locate content = some (.file target))
      (placed : place = path.parent.resolve (.ofText target))
      (lacks : workspace.text place = .error fault) :
      FailsToLoad path content (.ofFault place fault)
  | file (target text : String) (place : Path) (error : MapError)
      (own : workspace.givenMap? path = none)
      (located : Reference.locate content = some (.file target))
      (placed : place = path.parent.resolve (.ofText target))
      (found : workspace.text place = .ok text) (unread : Document.ofText text = .error error) :
      FailsToLoad path content (.ofMapError (.file place) error)
  | table (document : Document) (directory : Path) (error : MapError)
      (found : workspace.document? path content = .ok (some (document, directory)))
      (unmade : document.table = .error error) :
      FailsToLoad path content (.ofMapError (.file path) error)

/-- The file at a place below a visited one has a map that cannot be loaded. -/
def FailsAt (start : Visit) (place : List Nat) (error : ChainError) : Prop :=
  ∃ last, workspace.ComesTo start place last ∧
    workspace.FailsToLoad last.path last.content error

end

variable {workspace : Workspace}

/-- Requiring the text of a path fails exactly if the path has none, for the same reason. -/
theorem required_eq_error_iff {path : Path} {error : ChainError} :
    workspace.required path = .error error ↔
      ∃ fault, workspace.text path = .error fault ∧ error = .ofFault path fault := by
  simp only [required]
  cases workspace.text path with
  | ok text => simp [Except.mapError]
  | error fault =>
    constructor
    · intro failed
      exact ⟨fault, rfl, (Except.error.inj failed).symm⟩
    · rintro ⟨_, same, rfl⟩
      obtain rfl := Except.error.inj same
      rfl

/-- A document that is not found makes its file fail to load a map. -/
theorem failsToLoad_of_document? {path : Path} {content : String} {error : ChainError}
    (failed : workspace.document? path content = .error error) :
    workspace.FailsToLoad path content error := by
  simp only [document?] at failed
  split at failed
  · simp at failed
  · rename_i own
    split at failed
    · simp at failed
    · rename_i url located
      split at failed
      · simp at failed
      · rename_i cause unread
        obtain rfl := Except.error.inj failed
        exact .inline url cause own located unread
    · rename_i target located
      rcases cases_of_bind_eq_error failed with lacking | ⟨text, found, rest⟩
      · obtain ⟨fault, lacks, rfl⟩ := required_eq_error_iff.mp lacking
        exact .lacking target _ fault own located rfl lacks
      · split at rest
        · simp at rest
        · rename_i cause unread
          obtain rfl := Except.error.inj rest
          exact .file target text _ cause own located rfl (eq_ok_of_mapError_eq_ok found) unread

/-- A file cannot be followed if and only if it has a map that cannot be loaded. -/
theorem link?_eq_error_iff {path : Path} {content : String} {error : ChainError} :
    workspace.link? path content = .error error ↔ workspace.FailsToLoad path content error := by
  constructor
  · intro failed
    rcases cases_of_bind_eq_error failed with unfound | ⟨origin, found, rest⟩
    · exact failsToLoad_of_document? unfound
    · cases origin with
      | none => simp [pure, Except.pure] at rest
      | some origin =>
        obtain ⟨document, directory⟩ := origin
        simp only at rest
        split at rest
        · simp [pure, Except.pure] at rest
        · rename_i cause unmade
          obtain rfl := Except.error.inj rest
          exact .table document directory cause found unmade
  · intro fails
    cases fails with
    | inline url cause own located unread =>
      simp only [link?, document?, own, located, unread]
      rfl
    | lacking target place fault own located placed lacks =>
      have lacking : workspace.required place = .error (.ofFault place fault) :=
        required_eq_error_iff.mpr ⟨fault, lacks, rfl⟩
      subst placed
      simp only [link?, document?, own, located, lacking]
      rfl
    | file target text place cause own located placed found unread =>
      exact Refers.link?_eq_error (.file target text place own located placed found) unread
    | table document directory cause found unmade =>
      simp only [link?, found, bind, Except.bind, unmade]

section Unrefusing

variable (never : workspace.provider.RefusesNothing)

include never

/-- Where nothing is refused, a source has a text or none. -/
theorem sourceText?_ne_error (target : Path) (carried : Option String) (error : ChainError) :
    workspace.sourceText? target carried ≠ .error error := by
  intro failed
  simp only [sourceText?] at failed
  split at failed
  · simp at failed
  · split at failed
    · simp at failed
    · split at failed
      · simp at failed
      · rename_i cause refused
        exact never target cause refused
      · simp at failed

/-- If nothing is refused, a source that fails has a name, is new on its branch and has a text, and
what follows the text fails. -/
theorem fails_behind_source {directory : Path} {branch : List Path} {error : ChainError}
    {follow : Path → String → Except ChainError Resolution} {entry : String × Option String}
    (failed : workspace.resolveSource directory branch follow entry = .error error) :
    ¬entry.1.toList.all Text.isBlank = true ∧
      ∃ target text, target = directory.resolve (.ofText entry.1) ∧ target ∉ branch ∧
        workspace.sourceText? target entry.2 = .ok (some text) ∧
        follow target text = .error error := by
  rw [resolveSource] at failed
  split at failed
  · simp at failed
  · rename_i named
    dsimp only at failed
    split at failed
    · simp at failed
    · rename_i new
      rcases cases_of_bind_eq_error failed with unread | ⟨text, found, rest⟩
      · exact absurd unread (sourceText?_ne_error never _ _ error)
      · cases text with
        | none => simp [pure, Except.pure] at rest
        | some text => exact ⟨named, _, text, rfl, new, found, rest⟩

/-- All that can go wrong at a place is that the map of the file there cannot be loaded. -/
theorem meets_iff_failsAt {start : Visit} {place : List Nat} {error : ChainError} :
    workspace.Meets start place error ↔ workspace.FailsAt start place error := by
  constructor
  · intro meets
    induction meets with
    | map visit error failed => exact ⟨visit, .here visit, link?_eq_error_iff.mp failed⟩
    | source visit index target carried error sought refused =>
      exact absurd refused (sourceText?_ne_error never target carried error)
    | onward visit next index place error goes _ inductionHypothesis =>
      obtain ⟨last, comes, fails⟩ := inductionHypothesis
      exact ⟨last, .onward visit next last index place goes comes, fails⟩
  · rintro ⟨last, comes, fails⟩
    exact comes.meets (link?_eq_error_iff.mpr fails)

end Unrefusing

end Workspace

namespace Memory

variable (memory : Memory)

/-- There is no text for a path: none is given, and no file is there or one whose bytes are no
UTF-8. -/
inductive Lacks (overrides : Overrides) (path : Path) : Fault → Prop where
  | missing (free : Workspace.given? ⟨memory.provider, overrides⟩ path = none)
      (absent : memory.get? path = none) : Lacks overrides path .missing
  | notText (bytes : List UInt8)
      (free : Workspace.given? ⟨memory.provider, overrides⟩ path = none)
      (held : memory.get? path = some bytes) (garbled : Utf8.decode? bytes = none) :
      Lacks overrides path .notText

variable {memory}

/-- A store fails to give a text if and only if it lacks it. -/
theorem text_eq_error_iff {overrides : Overrides} {path : Path} {fault : Fault} :
    Workspace.text ⟨memory.provider, overrides⟩ path = .error fault ↔
      memory.Lacks overrides path fault := by
  constructor
  · intro failed
    cases free : Workspace.given? ⟨memory.provider, overrides⟩ path with
    | some text => simp [Workspace.text_of_given free] at failed
    | none =>
      rw [Workspace.text_of_free free] at failed
      cases held : memory.get? path with
      | none =>
        rw [memory.readText_of_absent held] at failed
        obtain rfl := Except.error.inj failed
        exact .missing free held
      | some bytes =>
        rw [memory.readText_of_held held, textOfBytes] at failed
        cases spelled : Utf8.decode? bytes with
        | some text => simp [spelled] at failed
        | none =>
          simp only [spelled] at failed
          obtain rfl := Except.error.inj failed
          exact .notText bytes free held spelled
  · intro lacks
    cases lacks with
    | missing free absent =>
      exact (Workspace.text_of_free free).trans (memory.readText_of_absent absent)
    | notText bytes free held garbled =>
      have unread : textOfBytes bytes = .error .notText := by simp only [textOfBytes, garbled]
      exact (Workspace.text_of_free free).trans ((memory.readText_of_held held).trans unread)

/-- A store refuses nothing. -/
theorem refusesNothing (memory : Memory) : memory.provider.RefusesNothing := by
  intro path cause refused
  have failed : Workspace.text ⟨memory.provider, {}⟩ path = .error (.refused cause) := refused
  cases text_eq_error_iff.mp failed

end Memory

namespace Chain

variable (memory : Memory) (overrides : Overrides)

/-- What building the file at a path is to fail with: the root has no text, or the file at some
place has a map that cannot be loaded, and none does at a place before. -/
inductive Blames (root : Path) : ChainError → Prop where
  | root (fault : Fault) (lacks : memory.Lacks overrides root fault) :
      Blames root (.ofFault root fault)
  | map (content : String) (place : List Nat) (error : ChainError)
      (found : Workspace.text ⟨memory.provider, overrides⟩ root = .ok content)
      (fails : Workspace.FailsAt ⟨memory.provider, overrides⟩ ⟨root, content, []⟩ place error)
      (first : ∀ other later,
        Workspace.FailsAt ⟨memory.provider, overrides⟩ ⟨root, content, []⟩ other later →
          place = other ∨ Precedes place other) :
      Blames root error

/-- Building fails by the root and by maps only. -/
structure FailsByRootOrMap : Prop where
  /-- Building fails if the root has no text or some map cannot be loaded, and in no other case. -/
  whether : ∀ root, (∃ error, build ⟨memory.provider, overrides⟩ root = .error error) ↔
    (∃ fault, memory.Lacks overrides (memory.cwd.resolve root) fault) ∨
      ∃ content place error,
        Workspace.text ⟨memory.provider, overrides⟩ (memory.cwd.resolve root) = .ok content ∧
        Workspace.FailsAt ⟨memory.provider, overrides⟩
          ⟨memory.cwd.resolve root, content, []⟩ place error
  /-- The error is that of the root, or else of the first map in the order of the walk. -/
  which : ∀ root error, build ⟨memory.provider, overrides⟩ root = .error error ↔
    Blames memory overrides (memory.cwd.resolve root) error
  /-- A source fails only if it has a name, is new on its branch and has a text, and what
  follows this text fails. -/
  sources : ∀ directory branch follow entry error,
    Workspace.resolveSource ⟨memory.provider, overrides⟩ directory branch follow entry =
        .error error →
      ¬entry.1.toList.all Text.isBlank = true ∧
        ∃ target text, target = directory.resolve (.ofText entry.1) ∧ target ∉ branch ∧
          Workspace.sourceText? ⟨memory.provider, overrides⟩ target entry.2 = .ok (some text) ∧
          follow target text = .error error

variable {memory overrides}

/-- Building a root with a text fails with the error of the first map that cannot be loaded. -/
theorem chain_eq_error_iff_failsAt {path : Path} {content : String} {error : ChainError}
    (absolute : path.absolute = true) :
    Workspace.chain ⟨memory.provider, overrides⟩ path content = .error error ↔
      ∃ place, Workspace.FailsAt ⟨memory.provider, overrides⟩ ⟨path, content, []⟩ place error ∧
        ∀ other later,
          Workspace.FailsAt ⟨memory.provider, overrides⟩ ⟨path, content, []⟩ other later →
            place = other ∨ Precedes place other := by
  have settles : Settles (Workspace.chain ⟨memory.provider, overrides⟩ path content) :=
    Workspace.settles_chain memory.lists content absolute
  rw [chain_eq_error_iff settles]
  have never : Provider.RefusesNothing (Workspace.provider ⟨memory.provider, overrides⟩) :=
    memory.refusesNothing
  simp only [Workspace.IsFirst, Workspace.meets_iff_failsAt never]

/-- Building a root with a text fails if some map that it leads to cannot be loaded. -/
theorem exists_error_of_failsAt {path : Path} {content : String} {place : List Nat}
    {error : ChainError}
    (fails : Workspace.FailsAt ⟨memory.provider, overrides⟩ ⟨path, content, []⟩ place error) :
    ∃ other, Workspace.chain ⟨memory.provider, overrides⟩ path content = .error other := by
  have meets := (Workspace.meets_iff_failsAt memory.refusesNothing).mpr fails
  obtain ⟨other, failed, _⟩ := chain_eq_error_of_meets meets
  exact ⟨other, failed⟩

/-- Building a file fails with what is to blame. -/
theorem build_eq_error_iff_blames {root : Path} {error : ChainError}
    (absolute : memory.cwd.absolute = true) :
    build ⟨memory.provider, overrides⟩ root = .error error ↔
      Blames memory overrides (memory.cwd.resolve root) error := by
  have under : (memory.cwd.resolve root).absolute = true :=
    (Path.isLocation_resolve _ root absolute).absolute
  constructor
  · intro failed
    rcases cases_of_bind_eq_error failed with lacking | ⟨content, found, rest⟩
    · obtain ⟨fault, lacks, rfl⟩ := Workspace.required_eq_error_iff.mp lacking
      exact .root fault (Memory.text_eq_error_iff.mp lacks)
    · obtain ⟨place, fails, first⟩ := (chain_eq_error_iff_failsAt under).mp rest
      exact .map content place error (eq_ok_of_mapError_eq_ok found) fails first
  · intro blames
    cases blames with
    | root fault lacks =>
      have lacking := Workspace.required_eq_error_iff.mpr
        ⟨fault, Memory.text_eq_error_iff.mpr lacks, rfl⟩
      simp only [build]
      exact congrArg (· >>= _) lacking
    | map content place _ found fails first =>
      have runs : Runs _ _ _ (build ⟨memory.provider, overrides⟩ root) :=
        .file root content (Workspace.required_of_text _ found)
      exact runs.eq_chain.trans ((chain_eq_error_iff_failsAt under).mpr ⟨place, fails, first⟩)

/-- Building from a store with an absolute working directory fails by the root and by maps only:
if it does, and with which error. No source makes it fail by itself. -/
theorem failsByRootOrMap_of_absolute (memory : Memory) (overrides : Overrides)
    (absolute : memory.cwd.absolute = true) : FailsByRootOrMap memory overrides := by
  refine ⟨?_, ?_, ?_⟩
  · intro root
    constructor
    · rintro ⟨error, failed⟩
      cases (build_eq_error_iff_blames absolute).mp failed with
      | root fault lacks => exact .inl ⟨fault, lacks⟩
      | map content place _ found fails _ => exact .inr ⟨content, place, error, found, fails⟩
    · rintro (⟨fault, lacks⟩ | ⟨content, place, error, found, fails⟩)
      · exact ⟨_, (build_eq_error_iff_blames absolute).mpr (.root fault lacks)⟩
      · have runs : Runs _ _ _ (build ⟨memory.provider, overrides⟩ root) :=
          .file root content (Workspace.required_of_text _ found)
        obtain ⟨other, failed⟩ := exists_error_of_failsAt fails
        exact ⟨other, runs.eq_chain.trans failed⟩
  · intro root error
    exact build_eq_error_iff_blames absolute
  · intro directory branch follow entry error failed
    exact Workspace.fails_behind_source memory.refusesNothing failed

/-- A map for a script, whose first sources are void, missing, no text and the script itself. It
lists behind them two files with maps that cannot be loaded. -/
def spoiledMap : Document where
  version := 3
  sources := [" ", "missing.ts", "bin", "out.js", "a.js", "b.js", "a.js"]
  mappings := "AAAA"

/-- A store for that map, in which the map of one file is missing and that of the other is none. -/
def spoiled : Memory :=
  let files := Memory.put {} (.ofText "out.js") (bytesOfText "x")
  let files := files.put (.ofText "bin") [0xff]
  let files := files.put (.ofText "a.js") (bytesOfText "//# sourceMappingURL=a.map")
  let files := files.put (.ofText "b.js") (bytesOfText "//# sourceMappingURL=b.map")
  files.put (.ofText "b.map") (bytesOfText "[")

/-- A map without sources. -/
def idleMap : Document where
  version := 3
  sources := []
  mappings := ""

/-- The map for the script, given with a map for the first of the two files or without one. -/
def spoiledMaps (first : Option Document) : Overrides where
  maps := (.ofText "out.js", spoiledMap) :: (first.map fun map => (.ofText "a.js", map)).toList

/-- The missing map is to blame, and if another one is given in its place, the one that is none. -/
theorem failsByRootOrMap_spoiled :
    spoiled.cwd.absolute = true ∧ FailsByRootOrMap spoiled (spoiledMaps none) ∧
      Blames spoiled (spoiledMaps none) (.ofText "/out.js")
        (.ofFault (.ofText "/a.map") .missing) ∧
      Blames spoiled (spoiledMaps (some idleMap)) (.ofText "/out.js")
        (.invalidMap (.file (.ofText "/b.map")) (.text .malformed)) := by
  have seen : spoiled.cwd.resolve (.ofText "out.js") = .ofText "/out.js" := by decide +kernel
  have missing : build ⟨spoiled.provider, spoiledMaps none⟩ (.ofText "out.js") =
      .error (.ofFault (.ofText "/a.map") .missing) := by decide +kernel
  have garbled : build ⟨spoiled.provider, spoiledMaps (some idleMap)⟩ (.ofText "out.js") =
      .error (.invalidMap (.file (.ofText "/b.map")) (.text .malformed)) := by decide +kernel
  have fails := failsByRootOrMap_of_absolute spoiled (spoiledMaps none) rfl
  have given := failsByRootOrMap_of_absolute spoiled (spoiledMaps (some idleMap)) rfl
  exact ⟨rfl, fails, seen ▸ (fails.which _ _).mp missing, seen ▸ (given.which _ _).mp garbled⟩

end Chain

end MapChain
