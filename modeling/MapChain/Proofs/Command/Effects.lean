import MapChain.Command.Run
import MapChain.Proofs.Chain.Reopened
import MapChain.Proofs.Chain.RoundTrip
import MapChain.Proofs.Store.Frame

/-!
# What a run changes

Only writing a chain that has a map changes files, and of these only the destination and,
unless the content carries the map, the file beside it. Everything else that a command line
can ask for leaves all files as they are: tracing, flattening, a file without a map, a chain
that cannot be built, the version, help and misuse.

A run that ends with status one has changed nothing, or it has put the content in place and
failed to put the map beside it. A run of status zero has put both there.
-/

namespace MapChain

open Disk

/-- The files that a command may write as seen from a directory: its destination and, unless
the content carries the map, the file of the map beside it. -/
def Command.destinations (cwd : Path) : Command → List Path
  | .trace .. => []
  | .flatten .. => []
  | .write file output _ _ dataUrl _ =>
    let path := cwd.resolve (.ofText (output.getD file))
    if dataUrl then [path] else [path, path.append mapSuffix]

/-- The output of a command for a chain: only writing a chain with a map has one. -/
def Command.output? (chain : Chain) : Command → Option Output
  | .trace .. => none
  | .flatten .. => none
  | .write _ output base absolutePath dataUrl excludeContent =>
    if chain.hasMap then
      some (chain.render (output.map .ofText)
        { base := base.map .ofText, absolutePath, inline := dataUrl,
          includeContent := !excludeContent })
    else none

namespace Invocation

/-- The files that a command line may write. -/
def destinations (cwd : Path) : Invocation → List Path
  | .request command => command.destinations cwd
  | _ => []

/-- A command line asks for an output to be written: it is a command whose chain is built, and
the command has this output for the chain. -/
def AsksFor (disk : Disk) (invocation : Invocation) (output : Output) : Prop :=
  ∃ command chain, invocation = .request command ∧
    command.load disk.provider = .ok chain ∧ command.output? chain = some output

/-- What the files of a disk come to in a run that ends on another disk with a status. -/
structure Confines (disk : Disk) (invocation : Invocation) (after : Disk) (status : Nat) :
    Prop where
  /-- No file but the destinations changes. -/
  frame : AgreeBut (invocation.destinations disk.cwd) disk after
  /-- Without an output to be written no file changes. -/
  idle : (∀ output, ¬invocation.AsksFor disk output) → AgreeBut [] disk after
  /-- An output goes to the destinations. -/
  placed : ∀ output, invocation.AsksFor disk output →
    output.path :: output.mapPath.toList = invocation.destinations disk.cwd
  /-- Status one: no file has changed, or only the destination, which holds the content, and
  the map could not be written. -/
  failed : status = 1 → AgreeBut [] disk after ∨
    ∃ output mapPath between error, invocation.AsksFor disk output ∧
      output.mapPath = some mapPath ∧ AgreeBut [output.path] disk after ∧
      after.file? output.path = some (bytesOfText output.content) ∧
      disk.write output.path (bytesOfText output.content) = (between, none) ∧
      between.write mapPath (bytesOfText output.map.toText) = (after, some error)
  /-- Status zero: the destination holds the content, and the map's file the map. -/
  succeeded : status = 0 → ∀ output, invocation.AsksFor disk output →
    after.file? output.path = some (bytesOfText output.content) ∧
      ∀ mapPath, output.mapPath = some mapPath →
        after.file? mapPath = some (bytesOfText output.map.toText)

end Invocation

namespace Chain

/-- The chain of a file has the file's location for its root, and is seen from the directory
that it was built in. -/
theorem rootPath_of_build {workspace : Workspace} {root : Path} {chain : Chain}
    (built : build workspace root = .ok chain) :
    chain.rootPath = workspace.provider.cwd.resolve root ∧ chain.cwd = workspace.provider.cwd := by
  obtain ⟨content, _, made⟩ := Itemwise.exists_of_bind_eq_ok built
  obtain ⟨node, first, own, _⟩ := (isDescribed_of_made made).root
  constructor
  · rw [rootPath, first, Option.map_some, Option.getD_some, own]
  · obtain ⟨depth, tree, _, rfl⟩ := workspace.chain_cases made
    rfl

/-- The chain of a file is written to the location that is given or to that of the file. -/
theorem destination_of_build {workspace : Workspace} {file : String} {chain : Chain}
    (built : build workspace (.ofText file) = .ok chain) (given : Option String) :
    chain.destination (given.map .ofText) =
      workspace.provider.cwd.resolve (.ofText (given.getD file)) := by
  obtain ⟨root, directory⟩ := rootPath_of_build built
  cases given with
  | none => exact root
  | some given => exact congrArg (fun cwd : Path => cwd.resolve (.ofText given)) directory

end Chain

namespace Command

variable {disk : Disk} {command : Command} {chain : Chain} {output : Output}

/-- What a command writes goes to its destinations, which are locations. -/
theorem destinations_of_output? (directory : disk.cwd.IsLocation)
    (loaded : command.load disk.provider = .ok chain)
    (asked : command.output? chain = some output) :
    output.IsPlaced ∧ output.path :: output.mapPath.toList = command.destinations disk.cwd := by
  cases command with
  | trace | flatten => simp [output?] at asked
  | write file given base absolutePath dataUrl excludeContent =>
    simp only [output?] at asked
    split at asked
    · obtain rfl := Option.some.inj asked
      have destination := Chain.destination_of_build loaded given
      have location : (chain.destination (given.map .ofText)).IsLocation := by
        rw [destination]
        exact Path.isLocation_resolve _ _ directory.absolute
      constructor
      · exact Chain.isPlaced_render location
      · simp only [Chain.render, destinations, destination]
        cases dataUrl <;> rfl
    · simp at asked

/-- A command that has an output for its chain writes it, with the status of whether that
succeeds. -/
theorem run_of_output? (loaded : command.load disk.provider = .ok chain)
    (asked : command.output? chain = some output) :
    (command.run disk).1 = (disk.persist output).1 ∧
      (command.run disk).2.status = if (disk.persist output).2.isSome then 1 else 0 := by
  cases command with
  | trace | flatten => simp [output?] at asked
  | write file given base absolutePath dataUrl excludeContent =>
    simp only [output?] at asked
    split at asked
    · rename_i mapped
      obtain rfl := Option.some.inj asked
      simp only [run, action, refusal?, loaded, perform, if_pos mapped]
      split
      · rename_i after written
        simp [written]
      · rename_i after error written
        simp [written]
    · simp at asked

/-- A command that has no output for its chain leaves the disk as it is. -/
theorem run_of_idle (idle : ∀ chain, command.load disk.provider = .ok chain →
    command.output? chain = none) : (command.run disk).1 = disk := by
  rw [run, action]
  cases command.refusal? with
  | some report => rfl
  | none =>
    cases loaded : command.load disk.provider with
    | error error => rfl
    | ok chain =>
      have none := idle chain loaded
      cases command with
      | trace | flatten => rfl
      | write file given base absolutePath dataUrl excludeContent =>
        have unmapped : ¬chain.hasMap = true := by simpa [output?] using none
        simp only [perform, if_neg unmapped]

end Command

namespace Invocation

variable {disk : Disk} {invocation : Invocation}

/-- A command line that asks for nothing to be written leaves the disk as it is. -/
theorem run_of_idle (idle : ∀ output, ¬invocation.AsksFor disk output) :
    (invocation.run disk).1 = disk := by
  cases invocation with
  | version | help | misuse => rfl
  | request command =>
    apply Command.run_of_idle
    intro chain loaded
    by_contra asked
    obtain ⟨output, asked⟩ := Option.ne_none_iff_exists'.mp asked
    exact idle output ⟨command, chain, rfl, loaded, asked⟩

/-- A command line asks for one output at most. -/
theorem AsksFor.unique {output other : Output} (asked : invocation.AsksFor disk output)
    (otherAsked : invocation.AsksFor disk other) : output = other := by
  obtain ⟨command, chain, rfl, loaded, own⟩ := asked
  obtain ⟨second, otherChain, same, otherLoaded, otherOwn⟩ := otherAsked
  obtain rfl := Invocation.request.inj same
  obtain rfl := Except.ok.inj (loaded.symm.trans otherLoaded)
  exact Option.some.inj (own.symm.trans otherOwn)

/-- The output that a command line asks for goes to its destinations, and a run comes to what
writing this output comes to. -/
theorem persists_run {output : Output} (directory : disk.cwd.IsLocation)
    (asked : invocation.AsksFor disk output) :
    output.path :: output.mapPath.toList = invocation.destinations disk.cwd ∧
      ∃ failed, disk.Persists output (invocation.run disk).1 failed ∧
        (invocation.run disk).2.status = if failed.isSome then 1 else 0 := by
  obtain ⟨command, chain, rfl, loaded, own⟩ := asked
  obtain ⟨placed, destinations⟩ := Command.destinations_of_output? directory loaded own
  obtain ⟨after, status⟩ := Command.run_of_output? loaded own
  refine ⟨destinations, (disk.persist output).2, ?_, status⟩
  rw [run, after]
  exact disk.persists placed

/-- Where an output is asked for, a run changes what it may. -/
theorem confines_of_asksFor {output : Output} (directory : disk.cwd.IsLocation)
    (asked : invocation.AsksFor disk output) :
    invocation.Confines disk (invocation.run disk).1 (invocation.run disk).2.status := by
  obtain ⟨destinations, failed, persists, status⟩ := persists_run directory asked
  have idle : ¬∀ other, ¬invocation.AsksFor disk other := fun none => none output asked
  have placed (other : Output) (otherAsked : invocation.AsksFor disk other) :
      other.path :: other.mapPath.toList = invocation.destinations disk.cwd :=
    asked.unique otherAsked ▸ destinations
  rw [status]
  generalize (invocation.run disk).1 = after at persists
  cases persists with
  | refused error agree =>
    refine ⟨agree.mono (by simp), fun none => absurd none idle, placed, ?_, by simp⟩
    exact fun _ => .inl agree
  | withoutMap between mapPath error own content map agree held =>
    refine ⟨?_, fun none => absurd none idle, placed, ?_, by simp⟩
    · rw [← destinations]
      exact agree.mono (by simp)
    · intro _
      exact .inr ⟨output, mapPath, between, error, asked, own, agree, held, content, map⟩
  | done agree held mapped =>
    refine ⟨destinations ▸ agree, fun none => absurd none idle, placed, by simp, ?_⟩
    intro _ other otherAsked
    obtain rfl := asked.unique otherAsked
    exact ⟨held, mapped⟩

end Invocation

/-- Whatever the arguments, on a disk whose working directory is at a location, a run changes
no file but those that it says it writes, and none of them in part: if it fails, the
destination holds all of the content or nothing has changed. -/
theorem confines_run (arguments : List String) (disk : Disk) (directory : disk.cwd.IsLocation) :
    let invocation := Invocation.ofArguments arguments
    invocation.Confines disk (invocation.run disk).1 (invocation.run disk).2.status := by
  intro invocation
  by_cases asks : ∃ output, invocation.AsksFor disk output
  · obtain ⟨output, asked⟩ := asks
    exact Invocation.confines_of_asksFor directory asked
  · have idle : ∀ output, ¬invocation.AsksFor disk output :=
      fun output asked => asks ⟨output, asked⟩
    rw [Invocation.run_of_idle idle]
    constructor
    · exact .refl _ _
    · exact fun _ => .refl _ _
    · exact fun output asked => absurd asked (idle output)
    · exact fun _ => .inl (.refl _ _)
    · exact fun _ output asked => absurd asked (idle output)

/-- A disk with a script, its map, and a directory where the map of another script would be. -/
def obstructedDisk : Disk :=
  let script := Disk.insert ⟨.root, []⟩ (.ofText "/out.js")
    (.file (bytesOfText "f();\n//# sourceMappingURL=out.js.map\n"))
  let map := script.insert (.ofText "/out.js.map") (.file (bytesOfText
    "\x7b\"version\":3,\"sources\":[\"a.ts\"],\"names\":[],\"mappings\":\"AAAA\"\x7d"))
  map.insert (.ofText "/min.js.map") .directory

/-- Writing the script there puts its content in place and fails to put the map beside it. -/
theorem confines_run_obstructed :
    let invocation := Invocation.ofArguments ["write", "out.js", "-o", "min.js"]
    obstructedDisk.cwd.IsLocation ∧
      ((invocation.run obstructedDisk).2.status = 1 ∧
        (invocation.run obstructedDisk).1.file? (.ofText "/min.js") =
          some (bytesOfText "f();\n//# sourceMappingURL=min.js.map\n")) ∧
      invocation.Confines obstructedDisk (invocation.run obstructedDisk).1
        (invocation.run obstructedDisk).2.status :=
  ⟨Path.isLocation_root, by decide +kernel,
    confines_run ["write", "out.js", "-o", "min.js"] obstructedDisk Path.isLocation_root⟩

end MapChain
