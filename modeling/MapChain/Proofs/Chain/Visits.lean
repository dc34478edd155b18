import MapChain.Proofs.Chain.Described
import MapChain.Proofs.Chain.Steady

/-!
# The files that building comes to

Building walks from a file to the sources that its map lists and that have a text, and from
these to their own sources. The indices of the sources that a walk has taken are its place.
Places are ordered as they are walked: a file comes before the files below it, and a source
before those that its map lists behind it.

Two things can go wrong on the way. The map of a file cannot be followed, or the text of a
source is refused. A build succeeds only if nothing goes wrong at any place, and otherwise it
fails with the error of the first place where something does.
-/

namespace MapChain

open Itemwise

/-- A file that building comes to: its path, its text and the files above it. -/
structure Visit where
  path : Path
  content : String
  above : List Path

/-- The files from a visited one up to the root. -/
def Visit.branch (visit : Visit) : List Path := visit.path :: visit.above

/-- A place is walked before another: it is above it, or takes an earlier source where the two
part. -/
def Precedes (place other : List Nat) : Prop := List.Lex (· < ·) place other

/-- Of two places one at most is walked before the other. -/
theorem Precedes.asymm {place other : List Nat} (precedes : Precedes place other) :
    ¬Precedes other place := List.lt_asymm precedes

/-- Nothing is walked before the place where a walk starts. -/
theorem eq_nil_or_precedes (place : List Nat) : [] = place ∨ Precedes [] place := by
  cases place with
  | nil => exact .inl rfl
  | cons index place => exact .inr .nil

namespace Workspace

section

variable (workspace : Workspace)

/-- Building looks for the text of the source that the map of a visited file lists at an
index. The source has a name and is new on the branch, and the map itself may carry a text
for it. -/
inductive Seeks (visit : Visit) (index : Nat) : Path → Option String → Prop where
  | source (link : Link) (entry : String × Option String) (target : Path)
      (linked : workspace.link? visit.path visit.content = .ok (some link))
      (listed : (link.table.sources.zip link.table.contents)[index]? = some entry)
      (named : ¬entry.1.toList.all Text.isBlank = true)
      (seen : target = link.directory.resolve (.ofText entry.1)) (new : target ∉ visit.branch) :
      Seeks visit index target entry.2

/-- Building goes on from a visited file to the source at an index, which has a text. -/
inductive GoesOn (visit : Visit) (index : Nat) : Visit → Prop where
  | text (target : Path) (carried : Option String) (text : String)
      (sought : workspace.Seeks visit index target carried)
      (found : workspace.sourceText? target carried = .ok (some text)) :
      GoesOn visit index ⟨target, text, visit.branch⟩

/-- Building comes from a visited file to the one at a place below it. -/
inductive ComesTo : Visit → List Nat → Visit → Prop where
  | here (visit : Visit) : ComesTo visit [] visit
  | onward (visit next last : Visit) (index : Nat) (place : List Nat)
      (goes : workspace.GoesOn visit index next) (rest : ComesTo next place last) :
      ComesTo visit (index :: place) last

/-- Something goes wrong at a place below a visited file. -/
inductive Meets : Visit → List Nat → ChainError → Prop where
  | map (visit : Visit) (error : ChainError)
      (failed : workspace.link? visit.path visit.content = .error error) : Meets visit [] error
  | source (visit : Visit) (index : Nat) (target : Path) (carried : Option String)
      (error : ChainError) (sought : workspace.Seeks visit index target carried)
      (refused : workspace.sourceText? target carried = .error error) : Meets visit [index] error
  | onward (visit next : Visit) (index : Nat) (place : List Nat) (error : ChainError)
      (goes : workspace.GoesOn visit index next) (rest : Meets next place error) :
      Meets visit (index :: place) error

/-- Nothing goes wrong below a visited file at a place that is walked before this one. -/
def IsFirst (visit : Visit) (place : List Nat) : Prop :=
  ∀ other later, workspace.Meets visit other later → place = other ∨ Precedes place other

end

variable {workspace : Workspace} {visit : Visit}

/-- An index stands for one source. -/
theorem Seeks.unique {index : Nat} {target other : Path} {carried held : Option String}
    (one : workspace.Seeks visit index target carried)
    (another : workspace.Seeks visit index other held) : target = other ∧ carried = held := by
  obtain ⟨link, entry, _, linked, listed, _, seen, _⟩ := one
  obtain ⟨otherLink, otherEntry, _, otherLinked, otherListed, _, otherSeen, _⟩ := another
  obtain rfl := Option.some.inj (Except.ok.inj (linked.symm.trans otherLinked))
  obtain rfl := Option.some.inj (listed.symm.trans otherListed)
  exact ⟨seen.trans otherSeen.symm, rfl⟩

/-- Building goes on from a visited file to one file at each index. -/
theorem GoesOn.unique {index : Nat} {next other : Visit}
    (one : workspace.GoesOn visit index next) (another : workspace.GoesOn visit index other) :
    next = other := by
  obtain ⟨target, carried, text, sought, found⟩ := one
  obtain ⟨_, _, _, otherSought, otherFound⟩ := another
  obtain ⟨rfl, rfl⟩ := sought.unique otherSought
  obtain rfl := Option.some.inj (Except.ok.inj (found.symm.trans otherFound))
  rfl

/-- Building does not go on to a source that is refused. -/
theorem GoesOn.not_refused {index : Nat} {next : Visit} {target : Path} {carried : Option String}
    {error : ChainError} (goes : workspace.GoesOn visit index next)
    (sought : workspace.Seeks visit index target carried) :
    workspace.sourceText? target carried ≠ .error error := by
  obtain ⟨_, _, _, otherSought, found⟩ := goes
  obtain ⟨rfl, rfl⟩ := sought.unique otherSought
  simp [found]

/-- What goes wrong below a source is that it is refused, or what goes wrong below its file. -/
theorem meets_cons_iff {index : Nat} {place : List Nat} {error : ChainError} :
    workspace.Meets visit (index :: place) error ↔
      (place = [] ∧ ∃ target carried, workspace.Seeks visit index target carried ∧
        workspace.sourceText? target carried = .error error) ∨
      ∃ next, workspace.GoesOn visit index next ∧ workspace.Meets next place error := by
  constructor
  · intro meets
    cases meets with
    | source _ _ target carried _ sought refused =>
      exact .inl ⟨rfl, target, carried, sought, refused⟩
    | onward _ next _ _ _ goes rest => exact .inr ⟨next, goes, rest⟩
  · rintro (⟨rfl, target, carried, sought, refused⟩ | ⟨next, goes, rest⟩)
    · exact .source visit index target carried error sought refused
    · exact .onward visit next index place error goes rest

/-- Below a source, something goes wrong only if the source is sought. -/
theorem Meets.exists_seeks {index : Nat} {place : List Nat} {error : ChainError}
    (meets : workspace.Meets visit (index :: place) error) :
    ∃ target carried, workspace.Seeks visit index target carried := by
  rcases meets_cons_iff.mp meets with
    ⟨_, target, carried, sought, _⟩ | ⟨_, ⟨target, carried, _, sought, _⟩, _⟩
  · exact ⟨target, carried, sought⟩
  · exact ⟨target, carried, sought⟩

/-- At one place goes wrong one thing. -/
theorem Meets.unique {place : List Nat} {error other : ChainError}
    (one : workspace.Meets visit place error) (another : workspace.Meets visit place other) :
    error = other := by
  induction one with
  | map visit error failed =>
    cases another with
    | map _ _ otherFailed => exact Except.error.inj (failed.symm.trans otherFailed)
  | source visit index target carried error sought refused =>
    rcases meets_cons_iff.mp another with ⟨_, _, _, otherSought, otherRefused⟩ | ⟨_, goes, _⟩
    · obtain ⟨rfl, rfl⟩ := sought.unique otherSought
      exact Except.error.inj (refused.symm.trans otherRefused)
    · exact absurd refused (goes.not_refused sought)
  | onward visit next index place error goes rest inductionHypothesis =>
    rcases meets_cons_iff.mp another with ⟨_, _, _, sought, refused⟩ | ⟨_, otherGoes, otherRest⟩
    · exact absurd refused (goes.not_refused sought)
    · obtain rfl := goes.unique otherGoes
      exact inductionHypothesis otherRest

/-- Where building comes to a file whose map cannot be followed, something goes wrong. -/
theorem ComesTo.meets {place : List Nat} {last : Visit} {error : ChainError}
    (comes : workspace.ComesTo visit place last)
    (failed : workspace.link? last.path last.content = .error error) :
    workspace.Meets visit place error := by
  induction comes with
  | here visit => exact .map visit error failed
  | onward visit next last index place goes _ inductionHypothesis =>
    exact .onward visit next index place error goes (inductionHypothesis failed)

section Sources

variable {index : Nat} {link : Link} {entry : String × Option String}
  (linked : workspace.link? visit.path visit.content = .ok (some link))
  (listed : (link.table.sources.zip link.table.contents)[index]? = some entry)

include linked listed

/-- A source that is sought stays without text, or its text is followed. -/
theorem Seeks.resolveSource_eq {target : Path} {carried : Option String}
    (sought : workspace.Seeks visit index target carried)
    (follow : Path → String → Except ChainError Resolution) :
    workspace.resolveSource link.directory visit.branch follow entry =
      workspace.sourceText? target carried >>= fun found =>
        match found with
        | none => .ok (.unresolved target)
        | some text => follow target text := by
  obtain ⟨own, _, _, ownLinked, ownListed, named, rfl, new⟩ := sought
  obtain rfl := Option.some.inj (Except.ok.inj (linked.symm.trans ownLinked))
  obtain rfl := Option.some.inj (listed.symm.trans ownListed)
  rw [resolveSource, if_neg named]
  simp only [if_neg new]
  rfl

/-- A source that fails is sought and refused, or followed by what fails. -/
theorem cases_of_resolveSource_eq_error {error : ChainError}
    {follow : Path → String → Except ChainError Resolution}
    (failed : workspace.resolveSource link.directory visit.branch follow entry = .error error) :
    ∃ target, workspace.Seeks visit index target entry.2 ∧
      (workspace.sourceText? target entry.2 = .error error ∨
        ∃ text, workspace.sourceText? target entry.2 = .ok (some text) ∧
          follow target text = .error error) := by
  rw [resolveSource] at failed
  split at failed
  · simp at failed
  · rename_i named
    dsimp only at failed
    split at failed
    · simp at failed
    · rename_i new
      refine ⟨_, .source link entry _ linked listed named rfl new, ?_⟩
      rcases cases_of_bind_eq_error failed with refused | ⟨found, had, rest⟩
      · exact .inl refused
      · cases found with
        | none => simp [pure, Except.pure] at rest
        | some text => exact .inr ⟨text, had, rest⟩

/-- Below a source that succeeds nothing goes wrong if nothing does below files that succeed. -/
theorem not_meets_of_resolveSource {depth : Nat} {tree : Resolution}
    (succeeded : workspace.resolveSource link.directory visit.branch
      (fun path content => workspace.resolve depth path content visit.branch) entry = .ok tree)
    (sound : ∀ (next : Visit) (place : List Nat) (error : ChainError) (tree : Resolution),
      workspace.resolve depth next.path next.content next.above = .ok tree →
        ¬workspace.Meets next place error) (place : List Nat) (error : ChainError) :
    ¬workspace.Meets visit (index :: place) error := by
  intro meets
  rcases meets_cons_iff.mp meets with
    ⟨_, _, _, sought, refused⟩ | ⟨_, ⟨target, _, text, sought, found⟩, rest⟩
  · rw [sought.resolveSource_eq linked listed, refused] at succeeded
    simp [bind, Except.bind] at succeeded
  · rw [sought.resolveSource_eq linked listed, found] at succeeded
    exact sound ⟨target, text, visit.branch⟩ place error tree succeeded rest

end Sources

/-- Below a file that is resolved nothing goes wrong. -/
theorem not_meets_of_resolve {depth : Nat} {tree : Resolution}
    (resolved : workspace.resolve depth visit.path visit.content visit.above = .ok tree)
    (place : List Nat) (error : ChainError) : ¬workspace.Meets visit place error := by
  induction depth generalizing visit place error tree with
  | zero => simp [resolve] at resolved
  | succ depth inductionHypothesis =>
    intro meets
    cases place with
    | nil =>
      cases meets with
      | map _ _ failed =>
        rw [resolve, failed] at resolved
        simp [bind, Except.bind] at resolved
    | cons index place =>
      obtain ⟨_, _, link, entry, _, linked, listed, _⟩ := meets.exists_seeks
      rw [resolve_of_link linked] at resolved
      obtain ⟨children, gathered, _⟩ := exists_of_bind_eq_ok resolved
      have each := rel_getElem? (forall₂_of_mapM_eq_ok _ _ _ gathered) index
      rw [listed] at each
      generalize children[index]? = child at each
      cases each with
      | some succeeded =>
        exact not_meets_of_resolveSource linked listed succeeded
          (fun _ place error _ resolved => inductionHypothesis resolved place error)
          place error meets

section First

variable {depth index : Nat} {link : Link} {entry : String × Option String} {error : ChainError}
  (linked : workspace.link? visit.path visit.content = .ok (some link))

include linked

/-- Where all sources before one succeed, a place that comes first below this source comes
first below the file. -/
theorem isFirst_of_index {place : List Nat}
    (before : ∀ earlier < index, ∀ other,
      (link.table.sources.zip link.table.contents)[earlier]? = some other →
        ∃ tree, workspace.resolveSource link.directory visit.branch
          (fun path content => workspace.resolve depth path content visit.branch) other = .ok tree)
    (least : ∀ other later, workspace.Meets visit (index :: other) later →
      place = other ∨ Precedes place other) : workspace.IsFirst visit (index :: place) := by
  intro other later meets
  cases other with
  | nil =>
    cases meets with
    | map _ _ failed => simp [linked] at failed
  | cons otherIndex other =>
    rcases Nat.lt_trichotomy index otherIndex with less | rfl | more
    · exact .inr (.rel less)
    · rcases least other later meets with rfl | precedes
      · exact .inl rfl
      · exact .inr (.cons precedes)
    · obtain ⟨_, _, _, earlier, _, otherLinked, otherListed, _⟩ := meets.exists_seeks
      obtain rfl := Option.some.inj (Except.ok.inj (linked.symm.trans otherLinked))
      obtain ⟨_, succeeded⟩ := before otherIndex more earlier otherListed
      have sound := not_meets_of_resolveSource linked otherListed succeeded
        fun _ place error _ resolved => not_meets_of_resolve resolved place error
      exact absurd meets (sound other later)

/-- A source that fails does so with the error of the first place below it, if files do. -/
theorem exists_first_of_resolveSource
    (listed : (link.table.sources.zip link.table.contents)[index]? = some entry)
    (failed : workspace.resolveSource link.directory visit.branch
      (fun path content => workspace.resolve depth path content visit.branch) entry = .error error)
    (first : ∀ next : Visit,
      workspace.resolve depth next.path next.content next.above = .error error →
        ∃ place, workspace.Meets next place error ∧ workspace.IsFirst next place) :
    ∃ place, workspace.Meets visit (index :: place) error ∧
      ∀ other later, workspace.Meets visit (index :: other) later →
        place = other ∨ Precedes place other := by
  obtain ⟨target, sought, refused | ⟨text, found, follows⟩⟩ :=
    cases_of_resolveSource_eq_error linked listed failed
  · exact ⟨[], .source visit index target entry.2 error sought refused,
      fun other _ _ => eq_nil_or_precedes other⟩
  · have goes : workspace.GoesOn visit index ⟨target, text, visit.branch⟩ :=
      .text target entry.2 text sought found
    obtain ⟨place, meets, least⟩ := first ⟨target, text, visit.branch⟩ follows
    refine ⟨place, .onward visit _ index place error goes meets, ?_⟩
    intro other later otherMeets
    rcases meets_cons_iff.mp otherMeets with
      ⟨_, _, _, otherSought, refused⟩ | ⟨_, otherGoes, otherRest⟩
    · exact absurd refused (goes.not_refused otherSought)
    · obtain rfl := goes.unique otherGoes
      exact least other later otherRest

end First

/-- A file that fails to be resolved, other than for being cut off, fails with the error of the
first place below it where something goes wrong. -/
theorem exists_first_of_resolve {depth : Nat} {error : ChainError}
    (failed : workspace.resolve depth visit.path visit.content visit.above = .error error)
    (whole : ∀ path, error ≠ .tooDeep path) :
    ∃ place, workspace.Meets visit place error ∧ workspace.IsFirst visit place := by
  induction depth generalizing visit with
  | zero => exact absurd (Except.error.inj failed).symm (whole _)
  | succ depth inductionHypothesis =>
    rcases cases_of_bind_eq_error failed with unread | ⟨found, linked, rest⟩
    · exact ⟨[], .map visit error unread, fun other _ _ => eq_nil_or_precedes other⟩
    · cases found with
      | none => simp [pure, Except.pure] at rest
      | some link =>
        rcases cases_of_bind_eq_error rest with listing | ⟨_, _, last⟩
        · obtain ⟨index, entry, listed, fails, before⟩ := exists_of_mapM_eq_error _ _ _ listing
          obtain ⟨place, meets, least⟩ := exists_first_of_resolveSource linked listed fails
            fun _ follows => inductionHypothesis follows
          exact ⟨index :: place, meets, isFirst_of_index linked before least⟩
        · simp [pure, Except.pure] at last

section Congruence

variable {other : Workspace}

/-- A source comes to the same in two workspaces that find the same text for it and follow it
alike. -/
theorem resolveSource_congr {index : Nat} {link : Link} {entry : String × Option String}
    {follow otherFollow : Path → String → Except ChainError Resolution}
    (linked : workspace.link? visit.path visit.content = .ok (some link))
    (listed : (link.table.sources.zip link.table.contents)[index]? = some entry)
    (texts : ∀ target carried, workspace.Seeks visit index target carried →
      other.sourceText? target carried = workspace.sourceText? target carried)
    (follows : ∀ next, workspace.GoesOn visit index next →
      otherFollow next.path next.content = follow next.path next.content) :
    other.resolveSource link.directory visit.branch otherFollow entry =
      workspace.resolveSource link.directory visit.branch follow entry := by
  simp only [resolveSource]
  split
  · rfl
  · rename_i named
    split
    · rfl
    · rename_i new
      have sought :
          workspace.Seeks visit index (link.directory.resolve (.ofText entry.1)) entry.2 :=
        .source link entry _ linked listed named rfl new
      rw [texts _ _ sought]
      cases found : workspace.sourceText? (link.directory.resolve (.ofText entry.1)) entry.2 with
      | error error => rfl
      | ok text =>
        cases text with
        | none => rfl
        | some text => exact follows _ (.text _ _ text sought found)

/-- All sources of a map come to the same in two workspaces that find the same texts for them and
resolve the files that they lead to alike. -/
theorem mapM_resolveSource_congr (visit : Visit) {link : Link} (depth : Nat)
    (linked : workspace.link? visit.path visit.content = .ok (some link))
    (texts : ∀ index target carried, workspace.Seeks visit index target carried →
      other.sourceText? target carried = workspace.sourceText? target carried)
    (below : ∀ index next, workspace.GoesOn visit index next →
      other.resolve depth next.path next.content next.above =
        workspace.resolve depth next.path next.content next.above) :
    (link.table.sources.zip link.table.contents).mapM
        (other.resolveSource link.directory visit.branch fun path content =>
          other.resolve depth path content visit.branch) =
      (link.table.sources.zip link.table.contents).mapM
        (workspace.resolveSource link.directory visit.branch fun path content =>
          workspace.resolve depth path content visit.branch) := by
  apply mapM_congr_left
  intro entry inside
  obtain ⟨index, listed⟩ := List.mem_iff_getElem?.mp inside
  apply resolveSource_congr linked listed (texts index)
  rintro _ ⟨target, carried, text, sought, found⟩
  exact below index _ (.text target carried text sought found)

/-- A file is resolved alike in two workspaces that find the same maps and texts wherever the
first one comes to. -/
theorem resolve_congr (visit : Visit) (depth : Nat)
    (links : ∀ place last, workspace.ComesTo visit place last →
      other.link? last.path last.content = workspace.link? last.path last.content)
    (texts : ∀ place last, workspace.ComesTo visit place last → ∀ index target carried,
      workspace.Seeks last index target carried →
        other.sourceText? target carried = workspace.sourceText? target carried) :
    other.resolve depth visit.path visit.content visit.above =
      workspace.resolve depth visit.path visit.content visit.above := by
  induction depth generalizing visit with
  | zero => rfl
  | succ depth inductionHypothesis =>
    have agreed := links [] visit (.here visit)
    cases linked : workspace.link? visit.path visit.content with
    | error error =>
      rw [resolve, resolve, agreed, linked]
      rfl
    | ok found =>
      rw [linked] at agreed
      cases found with
      | none => rw [resolve_of_bare linked, resolve_of_bare agreed]
      | some link =>
        rw [resolve_of_link linked, resolve_of_link agreed]
        apply congrArg (· >>= _)
        apply mapM_resolveSource_congr visit depth linked (texts [] visit (.here visit))
        intro index next goes
        exact inductionHypothesis next
          (fun place last comes => links _ last (.onward visit next last index place goes comes))
          (fun place last comes => texts _ last (.onward visit next last index place goes comes))

/-- Workspaces that find the same maps and texts, seen from one directory and on one depth, come to
the same chains. -/
theorem chain_congr {content : String} (seen : other.provider.cwd = workspace.provider.cwd)
    (depth : other.depth content = workspace.depth content)
    (links : ∀ path content, other.link? path content = workspace.link? path content)
    (texts : ∀ target carried,
      other.sourceText? target carried = workspace.sourceText? target carried) (path : Path) :
    other.chain path content = workspace.chain path content := by
  have resolved : other.resolve (workspace.depth content) path content [] =
      workspace.resolve (workspace.depth content) path content [] :=
    resolve_congr ⟨path, content, []⟩ _ (fun _ last _ => links last.path last.content)
      fun _ _ _ _ target carried _ => texts target carried
  simp only [chain, depth, resolved, seen]

end Congruence

/-- A walk can be taken one source further. -/
theorem ComesTo.onto {place : List Nat} {last next : Visit} {index : Nat}
    (comes : workspace.ComesTo visit place last) (goes : workspace.GoesOn last index next) :
    workspace.ComesTo visit (place ++ [index]) next := by
  induction comes with
  | here visit => exact .onward visit next next index [] goes (.here next)
  | onward visit second last first place before _ inductionHypothesis =>
    exact .onward visit second next first (place ++ [index]) before (inductionHypothesis goes)

/-- Trees of the files that building comes to. -/
def Visited (workspace : Workspace) (start : Visit) (above : List Path) : Resolution → Prop
  | .file path content table children =>
    (∃ place, workspace.ComesTo start place ⟨path, content, above⟩) ∧ ∃ depth,
      workspace.resolve depth path content above = .ok (.file path content table children)
  | .ancestor path => path ∈ above
  | .unresolved _ | .blank => True

/-- Being a tree of a file that building comes to is handed on to children. -/
theorem isHereditary_visited (start : Visit) :
    Resolution.IsHereditary (workspace.Visited start) fun _ => True := by
  refine ⟨?_, fun _ _ known => known⟩
  rintro above path content table children ⟨⟨place, comes⟩, depth, resolved⟩ _ child member
  rcases workspace.resolve_cases resolved with ⟨_, leaf⟩ | ⟨link, results, linked, same, leads⟩
  · obtain ⟨_, _, _, rfl⟩ := Resolution.file.inj leaf
    simp at member
  · obtain ⟨_, _, rfl, rfl⟩ := Resolution.file.inj same
    obtain ⟨entry, inside, each⟩ := exists_of_mem_right leads member
    obtain ⟨index, listed⟩ := List.mem_iff_getElem?.mp inside
    cases each with
    | blank => trivial
    | ancestor _ _ _ known => exact known
    | unresolved => trivial
    | file target text depth tree named seen new found resolved =>
      obtain ⟨table, children, rfl⟩ := workspace.exists_file_of_resolve resolved
      have sought : workspace.Seeks ⟨path, content, above⟩ index target entry.2 :=
        .source link entry target linked listed named seen new
      exact ⟨⟨_, comes.onto (.text target entry.2 text sought found)⟩, depth, resolved⟩

end Workspace

namespace Chain

variable {workspace : Workspace} {path : Path} {content : String}

/-- What building makes of a root that has a text: of the file at a path, or of a text without a
file. -/
inductive Runs (workspace : Workspace) : Path → String → Except ChainError Chain → Prop where
  | file (root : Path) (content : String)
      (found : workspace.required (workspace.provider.cwd.resolve root) = .ok content) :
      Runs workspace (workspace.provider.cwd.resolve root) content (build workspace root)
  | text (content : String) :
      Runs workspace (workspace.provider.cwd.under .anonymous) content
        (buildContent workspace content)

/-- What building makes of a root with a text is the chain of the two. -/
theorem Runs.eq_chain {result : Except ChainError Chain}
    (runs : Runs workspace path content result) : result = workspace.chain path content := by
  cases runs with
  | file root content found =>
    simp only [build, found]
    rfl
  | text content => rfl

/-- Every node of a chain is of a file that building comes to. -/
theorem exists_comesTo_of_mem {chain : Chain} (built : workspace.chain path content = .ok chain)
    {node : Node} (member : node ∈ chain.nodes) :
    ∃ place above,
      workspace.ComesTo ⟨path, content, []⟩ place ⟨node.path, node.content, above⟩ := by
  have visited (depth : Nat) (tree : Resolution)
      (resolved : workspace.resolve depth path content [] = .ok tree) :
      workspace.Visited ⟨path, content, []⟩ [] tree := by
    obtain ⟨table, children, rfl⟩ := workspace.exists_file_of_resolve resolved
    exact ⟨⟨[], .here _⟩, depth, resolved⟩
  obtain ⟨made, _⟩ := isMade_of_chain (Workspace.isHereditary_visited _) built visited
    fun _ _ => trivial
  obtain ⟨above, _, ⟨⟨place, comes⟩, _⟩, _⟩ := made node member
  exact ⟨place, above, comes⟩

/-- A chain is built only if nothing goes wrong. -/
theorem not_meets_of_chain {chain : Chain} (built : workspace.chain path content = .ok chain)
    (place : List Nat) (error : ChainError) :
    ¬workspace.Meets ⟨path, content, []⟩ place error := by
  obtain ⟨depth, tree, resolved, _⟩ := workspace.chain_cases built
  exact Workspace.not_meets_of_resolve resolved place error

/-- A build that fails, other than for being cut off, does so with the error of the first place
where something goes wrong. -/
theorem exists_first_of_chain {error : ChainError}
    (failed : workspace.chain path content = .error error) (whole : ∀ last, error ≠ .tooDeep last) :
    ∃ place, workspace.Meets ⟨path, content, []⟩ place error ∧
      workspace.IsFirst ⟨path, content, []⟩ place := by
  rcases cases_of_bind_eq_error failed with unresolved | ⟨_, _, last⟩
  · exact @Workspace.exists_first_of_resolve workspace ⟨path, content, []⟩ _ _ unresolved whole
  · simp [pure, Except.pure] at last

/-- If anything goes wrong, building fails: with this error, with one met before, or because it
is cut off. -/
theorem chain_eq_error_of_meets {place : List Nat} {error : ChainError}
    (meets : workspace.Meets ⟨path, content, []⟩ place error) :
    ∃ other, workspace.chain path content = .error other ∧
      (other = error ∨
        (∃ earlier, Precedes earlier place ∧
          workspace.Meets ⟨path, content, []⟩ earlier other) ∨
        ∃ last, other = .tooDeep last) := by
  cases made : workspace.chain path content with
  | ok chain => exact absurd meets (not_meets_of_chain made place error)
  | error other =>
    refine ⟨other, rfl, ?_⟩
    by_cases cut : ∃ last, other = .tooDeep last
    · exact .inr (.inr cut)
    · obtain ⟨first, own, least⟩ := exists_first_of_chain made fun last same => cut ⟨last, same⟩
      rcases least place error meets with rfl | precedes
      · exact .inl (own.unique meets)
      · exact .inr (.inl ⟨first, precedes, own⟩)

/-- A build that is not cut off fails with what goes wrong first, and with nothing else. -/
theorem chain_eq_error_iff (settles : Settles (workspace.chain path content)) {error : ChainError} :
    workspace.chain path content = .error error ↔
      ∃ place, workspace.Meets ⟨path, content, []⟩ place error ∧
        workspace.IsFirst ⟨path, content, []⟩ place := by
  constructor
  · intro failed
    exact exists_first_of_chain failed fun last same => settles last (failed.trans (same ▸ rfl))
  · rintro ⟨place, meets, first⟩
    obtain ⟨other, failed, _⟩ := chain_eq_error_of_meets meets
    obtain ⟨otherPlace, otherMeets, otherFirst⟩ :=
      exists_first_of_chain failed fun last same => settles last (failed.trans (same ▸ rfl))
    rcases first otherPlace other otherMeets with rfl | precedes
    · rw [failed, meets.unique otherMeets]
    · rcases otherFirst place error meets with rfl | follows
      · rw [failed, meets.unique otherMeets]
      · exact absurd follows precedes.asymm

end Chain

end MapChain
