import MapChain.Proofs.Chain.Anchors
import MapChain.Proofs.Chain.Resolution
import MapChain.Proofs.Chain.Steady
import MapChain.Proofs.Store.Written

/-!
# Building ends

Below a file, every further file is at an anchor that the branch has not come to, or has a
shorter text. A branch comes to an anchor once, and texts are no longer than those at
hand, so the anchors that are left, each weighed with the longest text, and the
characters of the text that was reached last make a number that falls from file to file.
The depth that building runs on is larger than this number.

This needs an absolute working directory. Seen from a relative one, steps up give one file
of a store ever new paths, and a file that refers to itself through them is followed
without end.
-/

namespace MapChain

namespace Workspace

variable {workspace : Workspace}

/-- Resolving a file goes on with a source that its map lists, that is not void and new on
the branch, and that has a text. -/
inductive Follows (workspace : Workspace) (branch : List Path) (path : Path) (content : String) :
    Path → String → Prop where
  | source (link : Link) (entry : String × Option String) (target : Path) (text : String)
      (linked : workspace.link? path content = .ok (some link))
      (listed : entry ∈ link.table.sources.zip link.table.contents)
      (named : ¬entry.1.toList.all Text.isBlank = true)
      (seen : target = link.directory.resolve (.ofText entry.1)) (new : target ∉ branch)
      (found : workspace.sourceText? target entry.2 = .ok (some text)) :
      Follows workspace branch path content target text

/-- Resolving a file can go on with one file after the other for as many steps. -/
inductive Descends (workspace : Workspace) : List Path → Path → String → Nat → Prop where
  | stays (above : List Path) (path : Path) (content : String) :
      Descends workspace above path content 0
  | goesOn (above : List Path) (path : Path) (content : String) (target : Path) (text : String)
      (steps : Nat) (follows : workspace.Follows (path :: above) path content target text)
      (below : Descends workspace (path :: above) target text steps) :
      Descends workspace above path content (steps + 1)

/-- A file whose map has one source, which is followed, comes to what that comes to. -/
theorem resolve_of_single {path target : Path} {content text source : String}
    {carried : Option String} {above : List Path} {link : Link}
    (linked : workspace.link? path content = .ok (some link))
    (single : link.table.sources.zip link.table.contents = [(source, carried)])
    (followed : ∀ follow, workspace.resolveSource link.directory (path :: above) follow
      (source, carried) = follow target text) (depth : Nat) :
    workspace.resolve (depth + 1) path content above =
      workspace.resolve depth target text (path :: above) >>= fun child =>
        .ok (.file path content (some link.table) [child]) := by
  rw [resolve_of_link linked, single, List.mapM_cons, followed]
  cases workspace.resolve depth target text (path :: above) <;> rfl

/-- A source is followed, or what it comes to does not hang on how files are followed. -/
theorem resolveSource_cases {path : Path} {content : String} {branch : List Path} {link : Link}
    {entry : String × Option String} (linked : workspace.link? path content = .ok (some link))
    (listed : entry ∈ link.table.sources.zip link.table.contents) :
    (∃ result, Settles result ∧
        ∀ follow, workspace.resolveSource link.directory branch follow entry = result) ∨
      ∃ target text, workspace.Follows branch path content target text ∧
        ∀ follow, workspace.resolveSource link.directory branch follow entry =
          follow target text := by
  generalize seen : link.directory.resolve (.ofText entry.1) = target
  by_cases void : entry.1.toList.all Text.isBlank = true
  · exact .inl ⟨.ok .blank, settles_ok _, fun follow => by simp only [resolveSource, if_pos void]⟩
  by_cases known : target ∈ branch
  · refine .inl ⟨.ok (.ancestor target), settles_ok _, fun follow => ?_⟩
    simp only [resolveSource, if_neg void, seen, if_pos known]
  have settles := workspace.settles_sourceText? target entry.2
  cases found : workspace.sourceText? target entry.2 with
  | error error =>
    rw [found] at settles
    refine .inl ⟨.error error, settles.error, fun follow => ?_⟩
    rw [resolveSource, if_neg void]
    simp only [seen, if_neg known, found]
    rfl
  | ok text =>
    cases text with
    | none =>
      refine .inl ⟨.ok (.unresolved target), settles_ok _, fun follow => ?_⟩
      rw [resolveSource, if_neg void]
      simp only [seen, if_neg known, found]
      rfl
    | some text =>
      exact .inr ⟨target, text,
        .source link entry target text linked listed void seen.symm known found,
        resolveSource_of_new void seen.symm known found⟩

/-- What is left for a branch: the anchors that it has not come to, each weighed with the
longest text, and the text that was reached last. -/
def pending (workspace : Workspace) (files : List (Path × List UInt8)) (longest : Nat)
    (branch : List Path) (content : String) : Nat :=
  ((workspace.anchors files).filter fun path => path ∉ branch).length * (longest + 1) +
    content.length

/-- Coming to a new anchor or to a shorter text leaves less. -/
theorem pending_lt {files : List (Path × List UInt8)} {longest : Nat} {branch : List Path}
    {target : Path} {content text : String} (new : target ∉ branch)
    (nearer : target ∈ workspace.anchors files ∧ text.length ≤ longest ∨
      text.length < content.length) :
    workspace.pending files longest (target :: branch) text <
      workspace.pending files longest branch content := by
  have narrower : (workspace.anchors files).filter (fun path => path ∉ target :: branch) =
      ((workspace.anchors files).filter fun path => path ∉ branch).filter
        fun path => path ≠ target := by
    rw [List.filter_filter]
    apply List.filter_congr
    intro path _
    simp
  have inside : target ∈ workspace.anchors files →
      target ∈ (workspace.anchors files).filter fun path => path ∉ branch := fun anchor =>
    List.mem_filter.mpr ⟨anchor, by simpa using new⟩
  simp only [pending, narrower]
  generalize (workspace.anchors files).filter (fun path => path ∉ branch) = left at inside ⊢
  rcases nearer with ⟨anchor, short⟩ | shorter
  · have fewer : (left.filter fun path => path ≠ target).length < left.length :=
      List.length_filter_lt_length_iff_exists.mpr ⟨target, inside anchor, by simp⟩
    have weighed := Nat.mul_le_mul_right (longest + 1) (Nat.succ_le_of_lt fewer)
    rw [Nat.succ_mul] at weighed
    omega
  · have most : (left.filter fun path => path ≠ target).length ≤ left.length :=
      List.length_filter_le _ _
    have weighed := Nat.mul_le_mul_right (longest + 1) most
    omega

section Listed

variable {files : List (Path × List UInt8)} (lists : workspace.provider.Lists files)

include lists

/-- A file that is followed leaves less, with a text that is not too long. -/
theorem Follows.nearer {longest : Nat} {above : List Path} {path target : Path}
    {content text : String} (follows : workspace.Follows (path :: above) path content target text)
    (room : workspace.volume ≤ longest) (short : content.length ≤ longest)
    (absolute : path.absolute = true) : target.absolute = true ∧ text.length ≤ longest ∧
      workspace.pending files longest (target :: path :: above) text <
        workspace.pending files longest (path :: above) content := by
  obtain ⟨link, entry, _, _, linked, listed, _, rfl, new, found⟩ := follows
  have under := workspace.absolute_link_directory linked absolute
  refine ⟨(Path.isLocation_resolve link.directory (.ofText entry.1) under).absolute, ?_⟩
  rcases anchored_or_shorter lists absolute linked listed found with ⟨anchor, least⟩ | shorter
  · have fits := Nat.le_trans least room
    exact ⟨fits, pending_lt new (.inl ⟨anchor, fits⟩)⟩
  · exact ⟨by omega, pending_lt new (.inr shorter)⟩

/-- Files do not follow one another for more steps than are pending. -/
theorem Descends.le_pending {longest steps : Nat} {above : List Path} {path : Path}
    {content : String} (descends : workspace.Descends above path content steps)
    (room : workspace.volume ≤ longest) (short : content.length ≤ longest)
    (absolute : path.absolute = true) :
    steps ≤ workspace.pending files longest (path :: above) content := by
  induction descends with
  | stays => exact Nat.zero_le _
  | goesOn above path content target text steps follows below inductionHypothesis =>
    obtain ⟨seen, fits, less⟩ := follows.nearer lists room short absolute
    have deeper := inductionHypothesis fits seen
    omega

/-- With more depth than what is pending, resolving a file is not cut off, and still more
depth makes no difference. -/
theorem steady_resolve {longest : Nat} (room : workspace.volume ≤ longest) (depth : Nat)
    (path : Path) (content : String) (above : List Path) (absolute : path.absolute = true)
    (short : content.length ≤ longest)
    (enough : workspace.pending files longest (path :: above) content < depth) :
    Steady (fun depth => workspace.resolve depth path content above) depth := by
  induction depth generalizing path content above with
  | zero => omega
  | succ depth inductionHypothesis =>
    apply Steady.succ
    have settles := workspace.settles_link? path content
    cases linked : workspace.link? path content with
    | error error =>
      rw [linked] at settles
      exact .of_eq settles.error (fun depth => by rw [resolve, linked]; rfl) depth
    | ok link =>
      cases link with
      | none =>
        exact .of_eq (settles_ok (.file path content none []))
          (fun depth => by rw [resolve, linked]; rfl) depth
      | some link =>
        have sources : Steady (fun depth => (link.table.sources.zip link.table.contents).mapM
            (workspace.resolveSource link.directory (path :: above) fun place text =>
              workspace.resolve depth place text (path :: above))) depth := by
          apply Steady.mapM
          intro entry listed
          rcases workspace.resolveSource_cases linked listed with
            ⟨result, ends, constant⟩ | ⟨target, text, follows, same⟩
          · exact .of_eq ends (fun _ => constant _) depth
          · obtain ⟨seen, fits, less⟩ := follows.nearer lists room short absolute
            have steady := inductionHypothesis target text (path :: above) seen fits (by omega)
            exact steady.congr fun depth => same _
        exact (sources.turn (Resolution.file path content (some link.table))).congr
          (resolve_of_link linked above)

/-- The depth that building runs on is more than what is pending at the root. -/
theorem pending_lt_depth (path : Path) (content : String) :
    workspace.pending files (workspace.volume + content.length) [path] content <
      workspace.depth content := by
  have anchors := length_anchors_le lists
  have left : ((workspace.anchors files).filter fun place => place ∉ [path]).length ≤
      workspace.volume := Nat.le_trans (List.length_filter_le _ _) anchors
  have depth : workspace.depth content = (workspace.volume + content.length + 2) *
      (workspace.volume + content.length + 2) := rfl
  calc workspace.pending files (workspace.volume + content.length) [path] content
      ≤ workspace.volume * (workspace.volume + content.length + 1) + content.length :=
        Nat.add_le_add_right (Nat.mul_le_mul_right _ left) _
    _ ≤ workspace.volume * (workspace.volume + content.length + 2) + content.length :=
        Nat.add_le_add_right (Nat.mul_le_mul_left _ (by omega)) _
    _ < workspace.depth content := by
        have more : content.length + 2 ≤
            (content.length + 2) * (workspace.volume + (content.length + 2)) :=
          Nat.le_mul_of_pos_right _ (by omega)
        rw [depth, Nat.add_assoc, Nat.add_mul]
        omega

/-- Files do not follow one another for as many steps as building runs on. -/
theorem descends_lt_depth {path : Path} {content : String} {steps : Nat}
    (absolute : path.absolute = true) (descends : workspace.Descends [] path content steps) :
    steps < workspace.depth content := by
  have most := descends.le_pending lists (Nat.le_add_right _ content.length)
    (Nat.le_add_left _ _) absolute
  exact Nat.lt_of_le_of_lt most (pending_lt_depth lists path content)

/-- On the depth that building runs on, and on every larger one, resolving a file comes to the same
and is not cut off. -/
theorem steady_resolve_depth {path : Path} (content : String) (absolute : path.absolute = true) :
    Steady (fun depth => workspace.resolve depth path content []) (workspace.depth content) :=
  steady_resolve lists (Nat.le_add_right _ content.length) _ path content [] absolute
    (Nat.le_add_left _ _) (pending_lt_depth lists path content)

/-- The chain of a file is not cut off. -/
theorem settles_chain {path : Path} (content : String) (absolute : path.absolute = true) :
    Settles (workspace.chain path content) :=
  (steady_resolve_depth lists content absolute).settles.bind fun tree _ =>
    settles_ok (Chain.ofTree workspace.provider.cwd tree)

end Listed

/-- Where two workspaces resolve a file to corresponding trees on every depth, they do so on the
depths that they run on. -/
theorem resolve_depth_congr {other : Workspace} {files otherFiles : List (Path × List UInt8)}
    (lists : workspace.provider.Lists files) (otherLists : other.provider.Lists otherFiles)
    {path : Path} (absolute : path.absolute = true) {content text : String}
    {turned : Resolution → Resolution}
    (same : ∀ depth, other.resolve depth path text [] =
      (workspace.resolve depth path content []).map turned) :
    other.resolve (other.depth text) path text [] =
      (workspace.resolve (workspace.depth content) path content []).map turned := by
  -- The two recursions run on depths of their own, so they are compared on a common one.
  have steady := steady_resolve_depth lists content absolute
  have otherSteady := steady_resolve_depth otherLists text absolute
  have common := same (max (workspace.depth content) (other.depth text))
  rwa [otherSteady.same _ (Nat.le_max_right _ _), steady.same _ (Nat.le_max_left _ _)] at common

end Workspace

/-- A path that building starts at: that of a root, or of content without a file. -/
def Workspace.StartsAt (workspace : Workspace) (path : Path) : Prop :=
  (∃ root, path = workspace.provider.cwd.resolve root) ∨
    path = workspace.provider.cwd.under .anonymous

/-- Building ends. Below a file files follow one another for fewer steps than `depth`, which
is computed from what there is to read, from what was given up front and from the text of
the file. A recursion of that depth is not cut off, and a deeper one comes to the same. -/
structure Workspace.Ends (workspace : Workspace) : Prop where
  bounded : ∀ path content steps, workspace.StartsAt path →
    workspace.Descends [] path content steps → steps < workspace.depth content
  steady : ∀ path content, workspace.StartsAt path →
    Steady (fun depth => workspace.resolve depth path content []) (workspace.depth content)
  build : ∀ root, Settles (Chain.build workspace root)
  buildContent : ∀ content, Settles (Chain.buildContent workspace content)

namespace Chain

/-- Building from a store with an absolute working directory ends, whatever its files, the
texts and maps given up front, and the root. -/
theorem ends_of_absolute (memory : Memory) (overrides : Overrides)
    (absolute : memory.cwd.absolute = true) : Workspace.Ends ⟨memory.provider, overrides⟩ := by
  have lists : memory.provider.Lists memory.files := memory.lists
  have starts : ∀ path, Workspace.StartsAt ⟨memory.provider, overrides⟩ path →
      path.absolute = true := by
    rintro path (⟨root, rfl⟩ | rfl)
    · exact (Path.isLocation_resolve _ root absolute).absolute
    · exact Path.under_absolute _ _ absolute
  refine ⟨?_, ?_, ?_, ?_⟩
  · intro path content steps start
    exact Workspace.descends_lt_depth lists (starts path start)
  · intro path content start
    exact Workspace.steady_resolve_depth lists content (starts path start)
  · intro root
    refine (Workspace.settles_required _).bind fun content _ => ?_
    exact Workspace.settles_chain lists content (starts _ (.inl ⟨root, rfl⟩))
  · intro content
    exact Workspace.settles_chain lists content (starts _ (.inr rfl))

/-- A map with one source, a file in the directory above. -/
def climbingMap : String :=
  "data:application/json;base64," ++
    "eyJ2ZXJzaW9uIjozLCJzb3VyY2VzIjpbIi4uL2EuanMiXSwibWFwcGluZ3MiOiIifQ=="

/-- A text that carries the map with the source in the directory above. -/
def climbingText : String := "//# sourceMappingURL=" ++ climbingMap

/-- A store that starts at a directory and holds a text under the name that the text's map knows. -/
def climbingFrom (cwd : Path) : Memory :=
  (Memory.startingAt cwd).put (.ofText "../a.js") (bytesOfText climbingText)

/-- Seen from the root, the file above is the file itself. -/
theorem ends_climbingFrom_root : Workspace.Ends ⟨(climbingFrom .root).provider, {}⟩ :=
  ends_of_absolute (climbingFrom .root) {} rfl

/-- A store whose files are seen from a relative directory. -/
def climbing : Workspace := ⟨(climbingFrom (.ofText "w")).provider, {}⟩

/-- The file as it is named from so many directories below. -/
def climb (steps : Nat) : Path :=
  ⟨false, List.replicate steps .up ++ [.name ⟨"a.js".toList, by decide⟩]⟩

/-- The table of the map in the file, and the directory that it is seen from there. -/
def climbingLink (steps : Nat) : Link where
  table := ⟨["../a.js"], [none], [], [[]]⟩
  directory := (climb steps).parent

/-- From its directory the file names itself with one more step up. -/
theorem resolve_climb (steps : Nat) :
    (climb (steps + 1)).parent.resolve (.ofText "../a.js") = climb (steps + 2) := by
  have parsed : Path.ofText "../a.js" = climb 1 := by decide +kernel
  have parent : (climb (steps + 1)).parent = ⟨false, List.replicate (steps + 1) .up⟩ := by
    simp [climb, Path.parent]
  have under : Path.under ⟨false, List.replicate (steps + 1) .up⟩ (climb 1) =
      climb (steps + 2) := by
    have more : List.replicate (steps + 2) Part.up = List.replicate (steps + 1) .up ++ [.up] :=
      List.replicate_succ'
    simp only [climb, more]
    simp [Path.under, Path.empty]
  have piled := Path.foldl_push_replicate_up 0 (steps + 2)
  rw [parsed, parent, Path.resolve, under]
  simp only [List.replicate_zero, Nat.zero_add] at piled
  simp [Path.normalize, climb, piled, Path.push]

/-- From however far down, the store finds the file. -/
theorem readText_climb (steps : Nat) :
    climbing.provider.readText (climb (steps + 1)) = .ok climbingText := by
  have cwd : (climbingFrom (.ofText "w")).cwd = ⟨false, [.name ⟨['w'], by decide⟩]⟩ := by
    decide +kernel
  have place : (climbingFrom (.ofText "w")).locate (climb (steps + 1)) = climb 0 := by
    rw [Memory.locate, cwd]
    simp [Path.under, Path.empty, climb, Path.clamp, List.filter_append,
      Path.foldl_clampPush_replicate_up, Path.clampPush]
  have stored : (Memory.startingAt (.ofText "w")).locate (.ofText "../a.js") = climb 0 := by
    decide +kernel
  have held : (climbingFrom (.ofText "w")).files.lookup (climb 0) =
      some (bytesOfText climbingText) := by
    rw [climbingFrom, Memory.put, stored]
    exact List.lookup_cons_self
  have read : climbing.provider.read (climb (steps + 1)) = .ok (bytesOfText climbingText) := by
    change (climbingFrom (.ofText "w")).read _ = _
    simp only [Memory.read, Memory.get?, place, held]
  rw [Provider.readText, read]
  exact textOfBytes_bytesOfText climbingText

/-- From however far down, the file follows the map that it carries. -/
theorem link?_climb (steps : Nat) :
    climbing.link? (climb steps) climbingText = .ok (some (climbingLink steps)) :=
  have located : Reference.locate climbingText = some (.inline climbingMap) := by decide +kernel
  have read : Document.ofDataUrl climbingMap =
      .ok { version := 3, sources := ["../a.js"], mappings := "" } := by decide +kernel
  climbing.link?_of_inline rfl located read (by decide +kernel)

/-- The file as it is named from below is new to a branch that has not come as far. -/
theorem climb_not_mem {branch : List Path} {steps : Nat}
    (nearer : ∀ path ∈ branch, path.parts.length ≤ steps) : climb steps ∉ branch := by
  intro member
  have short := nearer _ member
  simp only [climb, List.length_append, List.length_replicate, List.length_singleton] at short
  omega

/-- What a branch has come to is no farther than the file that it comes to next. -/
theorem nearer_cons {above : List Path} {steps : Nat}
    (nearer : ∀ path ∈ above, path.parts.length ≤ steps) :
    ∀ path ∈ climb steps :: above, path.parts.length ≤ steps + 1 := by
  intro path member
  rcases List.mem_cons.mp member with rfl | member
  · simp [climb]
  · exact Nat.le_succ_of_le (nearer path member)

/-- From however far down, the file is a source with a text. -/
theorem sourceText?_climb (steps : Nat) :
    climbing.sourceText? (climb (steps + 1)) none = .ok (some climbingText) := by
  have own : climbing.given? (climb (steps + 1)) = none := rfl
  simp only [Workspace.sourceText?, own, readText_climb]

/-- The file's map leads to the file as named from one directory farther below. -/
theorem resolveSource_climb {branch : List Path} {steps : Nat}
    (nearer : ∀ path ∈ branch, path.parts.length ≤ steps + 2)
    (follow : Path → String → Except ChainError Resolution) :
    climbing.resolveSource (climbingLink (steps + 1)).directory branch follow ("../a.js", none) =
      follow (climb (steps + 2)) climbingText :=
  Workspace.resolveSource_of_new (by decide) (resolve_climb steps).symm (climb_not_mem nearer)
    (sourceText?_climb (steps + 1)) follow

/-- The file followed by itself, for as many steps as one likes. -/
theorem descends_climb (steps : Nat) {start : Nat} {above : List Path}
    (nearer : ∀ path ∈ above, path.parts.length ≤ start + 1) :
    climbing.Descends above (climb (start + 1)) climbingText steps := by
  induction steps generalizing start above with
  | zero => exact .stays above _ _
  | succ steps inductionHypothesis =>
    refine .goesOn above _ _ (climb (start + 2)) climbingText steps ?_ ?_
    · exact .source (climbingLink (start + 1)) ("../a.js", none) _ _ (link?_climb _)
        (List.mem_singleton_self _) (by decide) (resolve_climb start).symm
        (climb_not_mem (nearer_cons nearer)) (sourceText?_climb (start + 1))
    · exact inductionHypothesis (nearer_cons nearer)

/-- On every depth, resolving the file is cut off. -/
theorem resolve_climb_tooDeep (depth : Nat) {start : Nat} {above : List Path}
    (nearer : ∀ path ∈ above, path.parts.length ≤ start + 1) :
    climbing.resolve depth (climb (start + 1)) climbingText above =
      .error (.tooDeep (climb (start + 1 + depth))) := by
  induction depth generalizing start above with
  | zero => rfl
  | succ depth inductionHypothesis =>
    have followed := resolveSource_climb (nearer_cons nearer)
    rw [Workspace.resolve_of_single (link?_climb (start + 1)) rfl followed,
      inductionHypothesis (nearer_cons nearer)]
    have same : start + 1 + 1 + depth = start + 1 + (depth + 1) := by omega
    rw [same]
    rfl

/-- Seen from a relative directory the file follows itself without end: for as many steps as
one likes, and on every depth resolving it is cut off. -/
theorem climbing_endless :
    climbing.provider.cwd.resolve (.ofText "../../a.js") = climb 1 ∧
      climbing.required (climb 1) = .ok climbingText ∧
      (∀ steps, climbing.Descends [] (climb 1) climbingText steps) ∧
      ∀ depth, climbing.resolve depth (climb 1) climbingText [] =
        .error (.tooDeep (climb (1 + depth))) := by
  refine ⟨by decide +kernel, ?_, ?_, ?_⟩
  · change (climbing.provider.readText (climb 1)).mapError _ = _
    rw [readText_climb 0]
    rfl
  · intro steps
    exact descends_climb steps (by simp)
  · intro depth
    exact resolve_climb_tooDeep depth (by simp)

end Chain

end MapChain
