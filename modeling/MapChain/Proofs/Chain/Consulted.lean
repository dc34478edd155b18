import MapChain.Proofs.Chain.Ending
import MapChain.Proofs.Chain.Visits

/-!
# What building reads

Below a file whose text is known, building asks its provider for two kinds of files: the file
of a map, if the map was not given itself and no text was given for its path; and the file of a
source, if no text was given for the source and the map carries none. These paths are consulted.

Nothing else about the provider counts. If another one reads the consulted paths alike, the same
chain is built or the same error met. If it refuses some of them and reads the others alike, then
it decides only between the same chain and a refusal: the chain is built if no consulted path is
refused, and otherwise building fails at one that is.
-/

namespace MapChain

/-- A provider refuses a path that is to be read for a text. -/
def Provider.Refuses (provider : Provider) (path : Path) (cause : Refusal) : Prop :=
  provider.readText path = .error (.refused cause)

/-- A provider reads a path as another one does, or refuses it. -/
def Provider.ReadsOrRefuses (provider other : Provider) (path : Path) : Prop :=
  other.readText path = provider.readText path ∨ ∃ cause, other.Refuses path cause

/-- Of paths that are read alike or refused, one is refused, or all are read alike. -/
theorem Provider.alike_or_refused {provider other : Provider} {needed : Path → Prop}
    (each : ∀ path, needed path → provider.ReadsOrRefuses other path) :
    (∀ path, needed path → other.readText path = provider.readText path ∧
        ∀ cause, ¬other.Refuses path cause) ∨
      ∃ path cause, needed path ∧ other.Refuses path cause := by
  by_cases refused : ∃ path cause, needed path ∧ other.Refuses path cause
  · exact .inr refused
  · left
    intro path needs
    have free (cause : Refusal) : ¬other.Refuses path cause := fun own =>
      refused ⟨path, cause, needs, own⟩
    exact ⟨(each path needs).resolve_right fun ⟨cause, own⟩ => free cause own, free⟩

namespace Workspace

section

variable (workspace : Workspace)

/-- The map of a visited file has to be read from this path. The file names it, no map was given
for the file and no text for the path. -/
inductive ReadsMap (visit : Visit) : Path → Prop where
  | file (target : String) (path : Path) (own : workspace.givenMap? visit.path = none)
      (located : Reference.locate visit.content = some (.file target))
      (placed : path = visit.path.parent.resolve (.ofText target))
      (free : workspace.given? path = none) : ReadsMap visit path

/-- Building has to read this path at or below a visited file: for the file's map, for a source
without a text given or carried, or for a source that building goes on to. -/
inductive Consults : Visit → Path → Prop where
  | map (visit : Visit) (path : Path) (reads : workspace.ReadsMap visit path) : Consults visit path
  | source (visit : Visit) (index : Nat) (path : Path)
      (sought : workspace.Seeks visit index path none) (free : workspace.given? path = none) :
      Consults visit path
  | onward (visit next : Visit) (index : Nat) (path : Path)
      (goes : workspace.GoesOn visit index next) (rest : Consults next path) : Consults visit path

end

variable {workspace : Workspace} {visit : Visit}

/-- A path for which a text is given is read as this text. -/
theorem text_of_given {path : Path} {text : String} (given : workspace.given? path = some text) :
    workspace.text path = .ok text := by
  simp only [Workspace.text, given]

/-- A path for which no text is given is read as the provider reads it. -/
theorem text_of_free {path : Path} (free : workspace.given? path = none) :
    workspace.text path = workspace.provider.readText path := by
  simp only [Workspace.text, free]

/-- A source of a file with an absolute path is sought at a location. -/
theorem Seeks.isLocation {index : Nat} {target : Path} {carried : Option String}
    (sought : workspace.Seeks visit index target carried) (absolute : visit.path.absolute = true) :
    target.IsLocation := by
  obtain ⟨link, entry, _, linked, _, _, rfl, _⟩ := sought
  exact Path.isLocation_resolve _ _ (workspace.absolute_link_directory linked absolute)

/-- Below a file with an absolute path, locations are consulted. -/
theorem Consults.isLocation {path : Path} (consults : workspace.Consults visit path)
    (absolute : visit.path.absolute = true) : path.IsLocation := by
  induction consults with
  | map visit path reads =>
    obtain ⟨target, _, _, _, rfl, _⟩ := reads
    exact Path.isLocation_resolve _ _ absolute
  | source visit index path sought _ => exact sought.isLocation absolute
  | onward visit next index path goes _ inductionHypothesis =>
    obtain ⟨target, carried, text, sought, _⟩ := goes
    exact inductionHypothesis (sought.isLocation absolute).absolute

/-- For a path that is consulted no text was given. -/
theorem Consults.given?_eq_none {path : Path} (consults : workspace.Consults visit path) :
    workspace.given? path = none := by
  induction consults with
  | map visit path reads =>
    obtain ⟨_, _, _, _, _, free⟩ := reads
    exact free
  | source visit index path sought free => exact free
  | onward visit next index path goes _ inductionHypothesis => exact inductionHypothesis

/-- What is consulted below a file that building comes to is consulted below the first one. -/
theorem ComesTo.consults {place : List Nat} {last : Visit} {path : Path}
    (comes : workspace.ComesTo visit place last) (consults : workspace.Consults last path) :
    workspace.Consults visit path := by
  induction comes with
  | here visit => exact consults
  | onward visit next last index place goes _ inductionHypothesis =>
    exact .onward visit next index path goes (inductionHypothesis consults)

section Providers

variable {provider other : Provider} {overrides : Overrides} (seen : other.cwd = provider.cwd)

include seen

/-- The text that is given for a path depends on the provider's directory only. -/
theorem given?_congr (path : Path) :
    given? ⟨other, overrides⟩ path = given? ⟨provider, overrides⟩ path := by
  simp only [given?, seen]

/-- The map that is given for a path depends on the provider's directory only. -/
theorem givenMap?_congr (path : Path) :
    givenMap? ⟨other, overrides⟩ path = givenMap? ⟨provider, overrides⟩ path := by
  simp only [givenMap?, seen]

/-- A path has the same text if, should it have to be read, it reads alike. -/
theorem text_congr {path : Path} (same : given? ⟨provider, overrides⟩ path = none →
      other.readText path = provider.readText path) :
    text ⟨other, overrides⟩ path = text ⟨provider, overrides⟩ path := by
  simp only [text, given?_congr seen]
  cases free : given? ⟨provider, overrides⟩ path with
  | some text => rfl
  | none => exact same free

/-- A file follows the same map if the path of the map, should it have to be read, reads alike. -/
theorem link?_congr (same : ∀ path, ReadsMap ⟨provider, overrides⟩ visit path →
      other.readText path = provider.readText path) :
    link? ⟨other, overrides⟩ visit.path visit.content =
      link? ⟨provider, overrides⟩ visit.path visit.content := by
  have documents : document? ⟨other, overrides⟩ visit.path visit.content =
      document? ⟨provider, overrides⟩ visit.path visit.content := by
    simp only [document?, givenMap?_congr seen]
    cases own : givenMap? ⟨provider, overrides⟩ visit.path with
    | some document => rfl
    | none =>
      cases located : Reference.locate visit.content with
      | none => rfl
      | some reference =>
        cases reference with
        | inline url => rfl
        | file target =>
          have texts := text_congr seen (same (visit.path.parent.resolve (.ofText target)) ∘
            .file target _ own located rfl)
          simp only [required, texts]
  simp only [link?, documents]

/-- A file whose map has to be read fails if the path of the map cannot be read. -/
theorem link?_of_unread {path : Path} {fault : Fault}
    (reads : ReadsMap ⟨provider, overrides⟩ visit path)
    (failed : other.readText path = .error fault) :
    link? ⟨other, overrides⟩ visit.path visit.content = .error (.ofFault path fault) := by
  obtain ⟨target, _, own, located, rfl, free⟩ := reads
  simp only [link?, document?, givenMap?_congr seen, own, located, required, text,
    given?_congr seen, free, failed]
  rfl

/-- A source has the same text if its path, should it have to be read, reads alike. -/
theorem sourceText?_congr {path : Path} {carried : Option String}
    (same : given? ⟨provider, overrides⟩ path = none → carried = none →
      other.readText path = provider.readText path) :
    sourceText? ⟨other, overrides⟩ path carried =
      sourceText? ⟨provider, overrides⟩ path carried := by
  simp only [sourceText?, given?_congr seen]
  cases free : given? ⟨provider, overrides⟩ path with
  | some text => rfl
  | none =>
    cases carried with
    | some text => rfl
    | none => simp only [same free rfl]

/-- A source whose path has to be read fails if the path is refused. -/
theorem sourceText?_of_refused {path : Path} {cause : Refusal}
    (free : given? ⟨provider, overrides⟩ path = none) (refused : other.Refuses path cause) :
    sourceText? ⟨other, overrides⟩ path none = .error (.ofFault path (.refused cause)) := by
  have unread : other.readText path = .error (.refused cause) := refused
  simp only [sourceText?, given?_congr seen, free, unread]

/-- A file is resolved alike if all that is consulted reads alike. -/
theorem resolve_congr_of_consults (visit : Visit)
    (same : ∀ path, Consults ⟨provider, overrides⟩ visit path →
      other.readText path = provider.readText path) (depth : Nat) :
    resolve ⟨other, overrides⟩ depth visit.path visit.content visit.above =
      resolve ⟨provider, overrides⟩ depth visit.path visit.content visit.above := by
  apply resolve_congr visit depth
  · intro place last comes
    apply link?_congr seen
    intro path reads
    exact same path (comes.consults (.map last path reads))
  · intro place last comes index target carried sought
    apply sourceText?_congr seen
    rintro free rfl
    exact same target (comes.consults (.source last index target sought free))

/-- A chain is built alike if all that is consulted reads alike. -/
theorem chain_congr_of_consults {files otherFiles : List (Path × List UInt8)}
    (lists : provider.Lists files) (otherLists : other.Lists otherFiles) {path : Path}
    (content : String) (absolute : path.absolute = true)
    (same : ∀ consulted, Consults ⟨provider, overrides⟩ ⟨path, content, []⟩ consulted →
      other.readText consulted = provider.readText consulted) :
    chain ⟨other, overrides⟩ path content = chain ⟨provider, overrides⟩ path content := by
  have identity (result : Except ChainError Resolution) : result.map id = result := by
    cases result <;> rfl
  have trees : resolve ⟨other, overrides⟩ (depth ⟨other, overrides⟩ content) path content [] =
      (resolve ⟨provider, overrides⟩ (depth ⟨provider, overrides⟩ content) path content []).map
        id :=
    resolve_depth_congr lists otherLists absolute fun depth =>
      (resolve_congr_of_consults seen ⟨path, content, []⟩ same depth).trans (identity _).symm
  rw [identity] at trees
  simp only [chain, trees, seen]

end Providers

/-- What is sought depends on the map that a file follows only. -/
theorem Seeks.congr {one another : Workspace} {index : Nat} {target : Path}
    {carried : Option String} (sought : one.Seeks visit index target carried)
    (same : another.link? visit.path visit.content = one.link? visit.path visit.content) :
    another.Seeks visit index target carried := by
  obtain ⟨link, entry, _, linked, listed, named, seen, new⟩ := sought
  exact .source link entry target (same.trans linked) listed named seen new

section Refusals

variable {provider other : Provider} {overrides : Overrides} {visit : Visit}
  (seen : other.cwd = provider.cwd)

include seen

/-- A file follows the same map unless a path is refused that is consulted for it. -/
theorem link?_congr_or_refused (each : ∀ path, Consults ⟨provider, overrides⟩ visit path →
      provider.ReadsOrRefuses other path) :
    link? ⟨other, overrides⟩ visit.path visit.content =
        link? ⟨provider, overrides⟩ visit.path visit.content ∨
      ∃ path cause, Consults ⟨provider, overrides⟩ visit path ∧ other.Refuses path cause ∧
        link? ⟨other, overrides⟩ visit.path visit.content =
          .error (.ofFault path (.refused cause)) := by
  rcases Provider.alike_or_refused fun path reads => each path (.map visit path reads) with
    alike | ⟨path, cause, reads, refused⟩
  · exact .inl (link?_congr seen fun path reads => (alike path reads).1)
  · exact .inr ⟨path, cause, .map visit path reads, refused, link?_of_unread seen reads refused⟩

/-- A source has the same text unless its path is consulted and refused. -/
theorem Seeks.sourceText?_congr_or_refused {index : Nat} {target : Path}
    {carried : Option String} (sought : Seeks ⟨provider, overrides⟩ visit index target carried)
    (each : ∀ path, Consults ⟨provider, overrides⟩ visit path →
      provider.ReadsOrRefuses other path) :
    sourceText? ⟨other, overrides⟩ target carried =
        sourceText? ⟨provider, overrides⟩ target carried ∨
      ∃ cause, Consults ⟨provider, overrides⟩ visit target ∧ other.Refuses target cause ∧
        sourceText? ⟨other, overrides⟩ target carried =
          .error (.ofFault target (.refused cause)) := by
  have needed : ∀ path, path = target ∧ given? ⟨provider, overrides⟩ target = none ∧
      carried = none → Consults ⟨provider, overrides⟩ visit path := by
    rintro _ ⟨rfl, free, rfl⟩
    exact .source visit index _ sought free
  rcases Provider.alike_or_refused fun path needs => each path (needed path needs) with
    alike | ⟨path, cause, ⟨rfl, free, rfl⟩, refused⟩
  · exact .inl (sourceText?_congr seen fun free bare => (alike target ⟨rfl, free, bare⟩).1)
  · exact .inr ⟨cause, .source visit index path sought free, refused,
      sourceText?_of_refused seen free refused⟩

/-- What is sought where some paths are refused is sought where they are not. -/
theorem Seeks.of_refusals {index : Nat} {target : Path} {carried : Option String}
    (sought : Seeks ⟨other, overrides⟩ visit index target carried)
    (each : ∀ path, Consults ⟨provider, overrides⟩ visit path →
      provider.ReadsOrRefuses other path) :
    Seeks ⟨provider, overrides⟩ visit index target carried := by
  rcases link?_congr_or_refused seen each with same | ⟨_, _, _, _, failed⟩
  · exact sought.congr same.symm
  · obtain ⟨_, _, _, linked, _⟩ := sought
    simp [failed] at linked

/-- Where a consulted path is refused, something goes wrong. -/
theorem Consults.exists_meets {path : Path} {cause : Refusal}
    (consults : Consults ⟨provider, overrides⟩ visit path)
    (each : ∀ path, Consults ⟨provider, overrides⟩ visit path →
      provider.ReadsOrRefuses other path)
    (refused : other.Refuses path cause) :
    ∃ place error, Meets ⟨other, overrides⟩ visit place error := by
  induction consults with
  | map visit path reads => exact ⟨[], _, .map visit _ (link?_of_unread seen reads refused)⟩
  | source visit index path sought free =>
    rcases link?_congr_or_refused seen each with same | ⟨_, _, _, _, failed⟩
    · exact ⟨[index], _, .source visit index path none _ (sought.congr same)
        (sourceText?_of_refused seen free refused)⟩
    · exact ⟨[], _, .map visit _ failed⟩
  | onward visit next index path goes rest inductionHypothesis =>
    rcases link?_congr_or_refused seen each with same | ⟨_, _, _, _, failed⟩
    · have below := fun path consults => each path (.onward visit next index path goes consults)
      obtain ⟨place, error, meets⟩ := inductionHypothesis below refused
      obtain ⟨target, carried, text, sought, found⟩ := goes
      rcases sought.sourceText?_congr_or_refused seen each with alike | ⟨_, _, _, unread⟩
      · exact ⟨index :: place, error, .onward visit _ index place error
          (.text target carried text (sought.congr same) (alike.trans found)) meets⟩
      · exact ⟨[index], _, .source visit index target carried _ (sought.congr same) unread⟩
    · exact ⟨[], _, .map visit _ failed⟩

/-- What goes wrong where some paths are refused is such a refusal, or goes wrong anyway. -/
theorem Meets.cases_of_refusals {place : List Nat} {error : ChainError}
    (meets : Meets ⟨other, overrides⟩ visit place error)
    (each : ∀ path, Consults ⟨provider, overrides⟩ visit path →
      provider.ReadsOrRefuses other path) :
    Meets ⟨provider, overrides⟩ visit place error ∨
      ∃ path cause, Consults ⟨provider, overrides⟩ visit path ∧ other.Refuses path cause ∧
        error = .ofFault path (.refused cause) := by
  induction meets with
  | map visit error failed =>
    rcases link?_congr_or_refused seen each with same | ⟨path, cause, consults, refused, unread⟩
    · exact .inl (.map visit error (same.symm.trans failed))
    · exact .inr ⟨path, cause, consults, refused, Except.error.inj (failed.symm.trans unread)⟩
  | source visit index target carried error sought unread =>
    have own := sought.of_refusals seen each
    rcases own.sourceText?_congr_or_refused seen each with
      same | ⟨cause, consults, refused, failed⟩
    · exact .inl (.source visit index target carried error own (same.symm.trans unread))
    · exact .inr ⟨target, cause, consults, refused,
        Except.error.inj (unread.symm.trans failed)⟩
  | onward visit next index place error goes rest inductionHypothesis =>
    obtain ⟨target, carried, text, sought, found⟩ := goes
    have own := sought.of_refusals seen each
    rcases own.sourceText?_congr_or_refused seen each with same | ⟨_, _, _, failed⟩
    · have goes : GoesOn ⟨provider, overrides⟩ visit index ⟨target, text, visit.branch⟩ :=
        .text target carried text own (same.symm.trans found)
      have below := fun path consults => each path (.onward visit _ index path goes consults)
      rcases inductionHypothesis below with meets | ⟨path, cause, consults, refused, same⟩
      · exact .inl (.onward visit _ index place error goes meets)
      · exact .inr ⟨path, cause, .onward visit _ index path goes consults, refused, same⟩
    · simp [failed] at found

/-- Where some paths are refused, the same chain is built if none of them is consulted, and
otherwise building fails with such a refusal. -/
theorem chain_cases_of_refusals {files otherFiles : List (Path × List UInt8)}
    (lists : provider.Lists files) (otherLists : other.Lists otherFiles) {path : Path}
    {content : String} {chain : Chain} (absolute : path.absolute = true)
    (each : ∀ consulted, Consults ⟨provider, overrides⟩ ⟨path, content, []⟩ consulted →
      provider.ReadsOrRefuses other consulted)
    (built : Workspace.chain ⟨provider, overrides⟩ path content = .ok chain) :
    (Workspace.chain ⟨other, overrides⟩ path content = .ok chain ∧
        ∀ consulted cause, Consults ⟨provider, overrides⟩ ⟨path, content, []⟩ consulted →
          ¬other.Refuses consulted cause) ∨
      ∃ consulted cause, Consults ⟨provider, overrides⟩ ⟨path, content, []⟩ consulted ∧
        other.Refuses consulted cause ∧
        Workspace.chain ⟨other, overrides⟩ path content =
          .error (.ofFault consulted (.refused cause)) := by
  rcases Provider.alike_or_refused each with alike | ⟨_, _, consults, refused⟩
  · have same := chain_congr_of_consults seen lists otherLists content absolute
      fun consulted consults => (alike consulted consults).1
    refine .inl ⟨same.trans built, fun consulted cause consults => ?_⟩
    exact (alike consulted consults).2 cause
  · obtain ⟨place, first, meets⟩ := consults.exists_meets seen each refused
    obtain ⟨error, failed, _⟩ := Chain.chain_eq_error_of_meets meets
    have settles : Settles (Workspace.chain ⟨other, overrides⟩ path content) :=
      settles_chain otherLists content absolute
    obtain ⟨place, own, _⟩ := (Chain.chain_eq_error_iff settles).mp failed
    rcases own.cases_of_refusals seen each with anyway | ⟨consulted, cause, consults, refused, rfl⟩
    · exact absurd anyway (Chain.not_meets_of_chain built place error)
    · exact .inr ⟨consulted, cause, consults, refused, failed⟩

end Refusals

end Workspace

end MapChain
