import MapChain.Chain.Build
import MapChain.Chain.Output
import MapChain.Command.Arguments
import MapChain.Command.Report

/-!
# Running commands

A command first loads the chain of its file, then prints something or writes the file
out again. What it does is decided from what a provider shows; only writing changes a
disk. A file without a map is not written.
-/

namespace MapChain

/-- A location as a value. -/
def Location.toJson (location : Location) : Json :=
  .object [("source", .string location.source.text), ("line", .natural location.line.toNat),
    ("column", .natural location.column.toNat), ("name", Json.ofString? location.name)]

/-- What a command does once its chain is loaded. -/
inductive Action where
  | print (text : String)
  /-- Writes files; the context is what a failure is reported under. -/
  | persist (output : Output) (context : String)
  | nothing

/-- How a run ends. -/
structure Outcome where
  status : Nat
  printed : String := ""
  report : Option Report := none

namespace Command

/-- The file of a command. -/
def file : Command → String
  | .trace file _ _ => file
  | .flatten file _ _ => file
  | .write file _ _ _ _ _ => file

/-- What a command is refused for before it looks at its file. -/
def refusal? : Command → Option Report
  | .trace _ line _ => if line = 0 then some ⟨"Lines are 1-based, got line 0", []⟩ else none
  | _ => none

/-- The chain of a command's file. -/
def load (provider : Provider) (command : Command) : Except ChainError Chain :=
  Chain.build { provider } (.ofText command.file)

/-- What a command does with a chain. -/
def perform (chain : Chain) : Command → Action
  | .trace _ line column =>
    let location := chain.trace line column
    .print (((location.map Location.toJson).getD .null).pretty ++ "\n")
  | .flatten _ base excludeContent =>
    let options : FlattenOptions :=
      { base := base.map .ofText, includeContent := !excludeContent }
    .print ((chain.flatten options).toPrettyText ++ "\n")
  | .write file output base absolutePath dataUrl excludeContent =>
    if chain.hasMap then
      let options : OutputOptions :=
        { base := base.map .ofText, absolutePath, inline := dataUrl,
          includeContent := !excludeContent }
      .persist (chain.render (output.map .ofText) options)
        ("Failed to write " ++ output.getD file)
    else .nothing

/-- What a command does with what a provider shows. -/
def action (provider : Provider) (command : Command) : Except Report Action :=
  match command.refusal? with
  | some report => .error report
  | none =>
    match command.load provider with
    | .ok chain => .ok (command.perform chain)
    | .error error =>
      .error ⟨"Failed to load source map chain for " ++ command.file, Report.causesOf error⟩

/-- Runs a command on a disk. -/
def run (disk : Disk) (command : Command) : Disk × Outcome :=
  match command.action disk.provider with
  | .error report => (disk, { status := 1, report := some report })
  | .ok .nothing => (disk, { status := 0 })
  | .ok (.print text) => (disk, { status := 0, printed := text })
  | .ok (.persist output context) =>
    match disk.persist output with
    | (disk, none) => (disk, { status := 0 })
    | (disk, some error) =>
      (disk, { status := 1, report := some ⟨context, Report.causesOfFile error⟩ })

end Command

namespace Invocation

/-- The name and version of the program. -/
def versionText : String := "sorcery 0.1.0\n"

/-- Runs what a command line asks for on a disk. -/
def run (disk : Disk) : Invocation → Disk × Outcome
  | .request command => command.run disk
  | .version => (disk, { status := 0, printed := versionText })
  | .help => (disk, { status := 0 })
  | .misuse => (disk, { status := 2 })

end Invocation

end MapChain
