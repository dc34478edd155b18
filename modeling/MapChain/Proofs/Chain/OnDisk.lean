import MapChain.Proofs.Chain.Consulted
import MapChain.Proofs.Store.Disk
import MapChain.Proofs.Store.Written
import MapChain.Store

/-!
# Building from a disk

A store in memory can hold the files of a disk, seen from the same directory. It says of every
location without a file that nothing is there, while the disk may bar it: a directory is there,
the way leads through a file, or the system does not take the spelling. A chain that is built
from the store is built from the disk as well if nothing is barred that has to be read. If
something is, building from the disk fails at such a location, even if a source stands there
that could stay without text.
-/

namespace MapChain

/-- What bars a location is why it is refused. -/
theorem Disk.refuses_iff_bars {disk : Disk} (tree : disk.IsTree) {path : Path}
    (location : path.IsLocation) (cause : Refusal) :
    disk.provider.Refuses path cause ↔ disk.Bars path cause := by
  have found := disk.reads tree location
  have spelled (bytes : List UInt8) : textOfBytes bytes ≠ .error (.refused cause) := by
    simp only [textOfBytes]
    split <;> simp
  constructor
  · intro refused
    have unread : disk.read path >>= textOfBytes = .error (.refused cause) := refused
    rcases Itemwise.cases_of_bind_eq_error unread with failed | ⟨bytes, _, garbled⟩
    · rw [failed] at found
      cases found with
      | barred _ bars => exact bars
    · exact absurd garbled (spelled bytes)
  · intro bars
    generalize read : disk.read path = result at found
    cases found with
    | file bytes free held => exact absurd bars (free cause)
    | missing free absent => exact absurd bars (free cause)
    | barred other own =>
      obtain rfl := own.unique bars
      simp only [Provider.Refuses, Provider.readText, provider, read]
      rfl

/-- A store in memory holds the files of a disk, seen from the same directory. -/
structure Memory.Mirrors (memory : Memory) (disk : Disk) : Prop where
  directory : disk.cwd = memory.cwd
  files : ∀ path, path.IsLocation → ∀ bytes,
    memory.get? path = some bytes ↔ disk.entry? path = some (.file bytes)

/-- A store and a disk without files hold the same. -/
theorem Memory.mirrors_empty (cwd : Path) : Memory.Mirrors ⟨cwd, []⟩ ⟨cwd, []⟩ := by
  refine ⟨rfl, ?_⟩
  intro path _ bytes
  simp only [Memory.get?, Disk.entry?, List.lookup_nil]
  split <;> simp

/-- A file below the root that is put into both is in both. -/
theorem Memory.Mirrors.put {memory : Memory} {disk : Disk} (mirrors : memory.Mirrors disk)
    {place : Path} (location : place.IsLocation) (below : place ≠ .root) (bytes : List UInt8) :
    (memory.put place bytes).Mirrors (disk.insert place (.file bytes)) := by
  refine ⟨mirrors.directory, ?_⟩
  intro path placed own
  rw [memory.get?_put, memory.locate_eq_self placed, memory.locate_eq_self location,
    disk.entry?_insert below]
  by_cases same : path = place
  · simp [same]
  · rw [if_neg same, if_neg same]
    exact mirrors.files path placed own

/-- The disk reads a location as the store does, or refuses it. -/
theorem Memory.Mirrors.readsOrRefuses {memory : Memory} {disk : Disk}
    (mirrors : memory.Mirrors disk) (tree : disk.IsTree) {path : Path}
    (location : path.IsLocation) :
    memory.provider.ReadsOrRefuses disk.provider path := by
  have found := disk.reads tree location
  generalize read : disk.read path = result at found
  have spelled : disk.provider.readText path = result >>= textOfBytes := by
    simp only [Provider.readText, Disk.provider, read]
  cases found with
  | file bytes _ held =>
    have kept := (mirrors.files path location bytes).mpr held
    exact .inl (spelled.trans (memory.readText_of_held kept).symm)
  | missing _ absent =>
    have lost : memory.get? path = none := by
      by_contra kept
      obtain ⟨bytes, held⟩ := Option.ne_none_iff_exists'.mp kept
      have present := (mirrors.files path location bytes).mp held
      simp [absent] at present
    exact .inl (spelled.trans (memory.readText_of_absent lost).symm)
  | barred cause _ => exact .inr ⟨cause, spelled⟩

namespace Chain

/-- Building the file at a path has to read a location: the root's, or one that is consulted
below the root. -/
inductive HasToRead (workspace : Workspace) (root : Path) : Path → Prop where
  | root (free : workspace.given? root = none) : HasToRead workspace root root
  | below (content : String) (path : Path) (found : workspace.text root = .ok content)
      (consults : workspace.Consults ⟨root, content, []⟩ path) : HasToRead workspace root path

section Mirrored

variable {memory : Memory} {disk : Disk} {overrides : Overrides} (tree : disk.IsTree)
  (mirrors : memory.Mirrors disk)

include tree mirrors

/-- A location has the same text on the disk, unless it has to be read and is barred. -/
theorem text_onDisk {path : Path} (location : path.IsLocation) :
    (Workspace.text ⟨disk.provider, overrides⟩ path =
        Workspace.text ⟨memory.provider, overrides⟩ path ∧
      ∀ cause, Workspace.given? ⟨memory.provider, overrides⟩ path = none →
        ¬disk.Bars path cause) ∨
      ∃ cause, Workspace.given? ⟨memory.provider, overrides⟩ path = none ∧
        disk.Bars path cause ∧
        Workspace.text ⟨disk.provider, overrides⟩ path = .error (.refused cause) := by
  have seen : disk.provider.cwd = memory.provider.cwd := mirrors.directory
  have each : ∀ place, place = path ∧ Workspace.given? ⟨memory.provider, overrides⟩ path = none →
      memory.provider.ReadsOrRefuses disk.provider place := by
    rintro _ ⟨rfl, _⟩
    exact mirrors.readsOrRefuses tree location
  rcases Provider.alike_or_refused each with alike | ⟨_, cause, ⟨rfl, free⟩, refused⟩
  · refine .inl ⟨Workspace.text_congr seen fun free => (alike path ⟨rfl, free⟩).1, ?_⟩
    intro cause free bars
    exact (alike path ⟨rfl, free⟩).2 cause ((Disk.refuses_iff_bars tree location cause).mpr bars)
  · have own := (Workspace.given?_congr seen _).trans free
    exact .inr ⟨cause, free, (Disk.refuses_iff_bars tree location cause).mp refused,
      (Workspace.text_of_free own).trans refused⟩

/-- The chain of a file is the same on the disk, unless a location is barred that is consulted
below the file. -/
theorem chain_onDisk {path : Path} {content : String} {chain : Chain}
    (absolute : path.absolute = true)
    (built : Workspace.chain ⟨memory.provider, overrides⟩ path content = .ok chain) :
    (Workspace.chain ⟨disk.provider, overrides⟩ path content = .ok chain ∧
        ∀ consulted cause,
          Workspace.Consults ⟨memory.provider, overrides⟩ ⟨path, content, []⟩ consulted →
            ¬disk.Bars consulted cause) ∨
      ∃ consulted cause,
        Workspace.Consults ⟨memory.provider, overrides⟩ ⟨path, content, []⟩ consulted ∧
          disk.Bars consulted cause ∧
          Workspace.chain ⟨disk.provider, overrides⟩ path content =
            .error (.ofFault consulted (.refused cause)) := by
  have each (consulted : Path)
      (consults : Workspace.Consults ⟨memory.provider, overrides⟩ ⟨path, content, []⟩ consulted) :=
    mirrors.readsOrRefuses tree (consults.isLocation absolute)
  rcases Workspace.chain_cases_of_refusals mirrors.directory memory.lists (Disk.lists tree) absolute
    each built with ⟨same, read⟩ | ⟨consulted, cause, consults, refused, failed⟩
  · refine .inl ⟨same, fun consulted cause consults bars => read consulted cause consults ?_⟩
    exact (Disk.refuses_iff_bars tree (consults.isLocation absolute) cause).mpr bars
  · have bars := (Disk.refuses_iff_bars tree (consults.isLocation absolute) cause).mp refused
    exact .inr ⟨consulted, cause, consults, bars, failed⟩

end Mirrored

/-- A chain that is built from a store in memory is built from the disk that it mirrors as well,
if nothing is barred there that has to be read; otherwise building fails at such a location. -/
theorem build_onDisk (memory : Memory) (disk : Disk) (access : Access) (overrides : Overrides)
    (root : Path) (chain : Chain) (absolute : memory.cwd.absolute = true) (tree : disk.IsTree)
    (mirrors : memory.Mirrors disk)
    (built : build ⟨(Store.inMemory memory).provider, overrides⟩ root = .ok chain) :
    (build ⟨(Store.onDisk disk access).provider, overrides⟩ root = .ok chain ∧
        ∀ path cause, HasToRead ⟨memory.provider, overrides⟩ (memory.cwd.resolve root) path →
          ¬disk.Bars path cause) ∨
      ∃ path cause, HasToRead ⟨memory.provider, overrides⟩ (memory.cwd.resolve root) path ∧
        disk.Bars path cause ∧
        build ⟨(Store.onDisk disk access).provider, overrides⟩ root =
          .error (.ofFault path (.refused cause)) := by
  have location : (memory.cwd.resolve root).IsLocation := Path.isLocation_resolve _ root absolute
  have disked : build ⟨(Store.onDisk disk access).provider, overrides⟩ root =
      (Workspace.required ⟨disk.provider, overrides⟩ (memory.cwd.resolve root) >>=
        Workspace.chain ⟨disk.provider, overrides⟩ (memory.cwd.resolve root)) := by
    rw [← mirrors.directory]
    rfl
  obtain ⟨content, required, made⟩ := Itemwise.exists_of_bind_eq_ok built
  have found : Workspace.text ⟨memory.provider, overrides⟩ (memory.cwd.resolve root) =
      .ok content := eq_ok_of_mapError_eq_ok required
  rw [disked]
  rcases text_onDisk tree mirrors location with ⟨same, clear⟩ | ⟨cause, free, bars, failed⟩
  · rw [Workspace.required_of_text _ (same.trans found)]
    rcases chain_onDisk tree mirrors location.absolute made with
      ⟨again, read⟩ | ⟨consulted, cause, consults, bars, failed⟩
    · refine .inl ⟨again, fun path cause has => ?_⟩
      cases has with
      | root free => exact clear cause free
      | below own _ had consults =>
        obtain rfl := Except.ok.inj (found.symm.trans had)
        exact read path cause consults
    · exact .inr ⟨consulted, cause, .below content consulted found consults, bars, failed⟩
  · refine .inr ⟨_, cause, .root free, bars, ?_⟩
    simp only [Workspace.required, failed]
    rfl

/-- The location of a script below the root. -/
def scriptPath : Path := Disk.child .root ⟨"out.js".toList, by decide⟩

/-- The location of the script's source. -/
def modulePath : Path := Disk.child .root ⟨"a.ts".toList, by decide⟩

/-- A store with the script and the source. -/
def scripts : Memory :=
  let files := Memory.put {} scriptPath (bytesOfText "x")
  files.put modulePath (bytesOfText "y")

/-- A disk with the script and the source. -/
def scriptsDisk : Disk :=
  let files := Disk.insert ⟨.root, []⟩ scriptPath (.file (bytesOfText "x"))
  files.insert modulePath (.file (bytesOfText "y"))

/-- The disk with the script and the source is a tree. -/
theorem isTree_scriptsDisk : scriptsDisk.IsTree := by
  have first : (Disk.insert ⟨.root, []⟩ scriptPath (.file (bytesOfText "x"))).IsTree :=
    (Disk.isTree_empty .root).insert rfl (by decide) (.inr (by decide))
  exact first.insert rfl (by decide) (.inr (by decide))

/-- The store and the disk with the script and the source hold the same. -/
theorem mirrors_scripts : scripts.Mirrors scriptsDisk := by
  have placed (name : Name) : (Disk.child .root name).IsLocation :=
    ⟨rfl, by simp [Disk.child, Path.root, Part.IsName]⟩
  have first := (Memory.mirrors_empty .root).put (placed ⟨"out.js".toList, by decide⟩)
    (Disk.child_ne_root _ _) (bytesOfText "x")
  exact first.put (placed ⟨"a.ts".toList, by decide⟩) (Disk.child_ne_root _ _) (bytesOfText "y")

/-- A map for the script whose one source would lie below the file of another one. -/
def belowFile : Overrides where
  maps := [(scriptPath, { version := 3, sources := ["a.ts/b.ts"], mappings := "AAAA" })]

/-- The path of a source below a file. -/
def lostPath : Path := Disk.child modulePath ⟨"b.ts".toList, by decide⟩

/-- What the store builds of the script. -/
def scriptChain : Chain where
  nodes :=
    [⟨scriptPath, "x", some ⟨["a.ts/b.ts"], [none], [], [[⟨0, some ⟨0, 0, 0, none⟩⟩]]⟩,
      [.unresolved lostPath]⟩]
  cwd := .root

/-- A source below a file is barred on the disk, and has no text in the store. -/
theorem build_onDisk_scripts :
    scripts.cwd.absolute = true ∧ scriptsDisk.IsTree ∧ scripts.Mirrors scriptsDisk ∧
      build ⟨(Store.inMemory scripts).provider, belowFile⟩ scriptPath = .ok scriptChain ∧
      ∃ path cause, HasToRead ⟨scripts.provider, belowFile⟩ (scripts.cwd.resolve scriptPath) path ∧
        scriptsDisk.Bars path cause ∧
        build ⟨(Store.onDisk scriptsDisk .blocking).provider, belowFile⟩ scriptPath =
          .error (.ofFault path (.refused cause)) := by
  have built : build ⟨(Store.inMemory scripts).provider, belowFile⟩ scriptPath =
      .ok scriptChain := by decide +kernel
  have failed : build ⟨(Store.onDisk scriptsDisk .blocking).provider, belowFile⟩ scriptPath ≠
      .ok scriptChain := by decide +kernel
  have cases := build_onDisk scripts scriptsDisk .blocking belowFile scriptPath scriptChain rfl
    isTree_scriptsDisk mirrors_scripts built
  exact ⟨rfl, isTree_scriptsDisk, mirrors_scripts, built,
    cases.resolve_left fun same => failed same.1⟩

/-- A chain that a store builds is not built from every disk that the store mirrors. -/
theorem not_build_onDisk : ¬∀ (memory : Memory) (disk : Disk) (access : Access)
    (overrides : Overrides) (root : Path) (chain : Chain), memory.cwd.absolute = true →
      disk.IsTree → memory.Mirrors disk →
      build ⟨(Store.inMemory memory).provider, overrides⟩ root = .ok chain →
        build ⟨(Store.onDisk disk access).provider, overrides⟩ root = .ok chain := by
  intro agree
  have built : build ⟨(Store.inMemory scripts).provider, belowFile⟩ scriptPath =
      .ok scriptChain := by decide +kernel
  have failed : build ⟨(Store.onDisk scriptsDisk .blocking).provider, belowFile⟩ scriptPath =
      .error (.ofFault lostPath (.refused .system)) := by decide +kernel
  have same := agree scripts scriptsDisk .blocking belowFile scriptPath scriptChain rfl
    isTree_scriptsDisk mirrors_scripts built
  simp [failed] at same

end Chain

end MapChain
