import MapChain.Command.Run

/-!
# The program

The command line on the files of the system. What a command does is decided by
`Command.action`, which only needs the files that it looks at. So the program starts
without any file, and whenever the chain asks for one that has not been read, reads it
and asks again. Writing and printing come last.
-/

namespace MapChain.Program

/-- What has been read so far. -/
abbrev Known := List (Path × Except Fault (List UInt8))

/-- The fault that an error of the system stands for. -/
def faultOf : IO.Error → Fault
  | .noFileOrDirectory .. => .missing
  | _ => .refused .system

/-- Reads a file of the system. -/
def readFile (path : Path) : IO (Except Fault (List UInt8)) := do
  try
    return .ok (← IO.FS.readBinFile path.text).toList
  catch error => return .error (faultOf error)

/-- Writes a file of the system, the directories above it first. -/
def writeFile (path : Path) (content : String) : IO (Option FileError) := do
  try IO.FS.createDirAll path.parent.text
  catch error => return some ⟨path.parent.text, faultOf error⟩
  try
    IO.FS.writeFile path.text content
    return none
  catch error => return some ⟨path.text, faultOf error⟩

/-- Writes files up to the first that fails. -/
def writeFiles : List (Path × String) → IO (Option FileError)
  | [] => return none
  | (path, content) :: rest => do
    match ← writeFile path content with
    | none => writeFiles rest
    | some error => return some error

/-- What a command sees of the files that have been read; all others are refused. -/
def provider (cwd : Path) (known : Known) : Provider where
  cwd
  read path := (known.lookup path).getD (.error (.refused .system))
  volume :=
    volumeOf (fun file => match file.2 with
      | .ok bytes => bytes.length
      | .error _ => 0) known

/-- The path of a file that loading was refused because it has not been read. -/
def unread? (known : Known) : Except ChainError Chain → Option Path
  | .error (.file ⟨spelling, .refused _⟩) =>
    let path := Path.ofText spelling
    if (known.lookup path).isNone then some path else none
  | _ => none

/-- Reads the files that a command looks at. -/
partial def explore (cwd : Path) (command : Command) (known : Known) : IO Known := do
  match unread? known (command.load (provider cwd known)) with
  | none => return known
  | some path => explore cwd command ((path, ← readFile path) :: known)

/-- Prints a report. -/
def fail (report : Report) : IO UInt32 := do
  IO.eprintln report.text
  return 1

/-- Runs a command on the files of the system. -/
def run (command : Command) : IO UInt32 := do
  let cwd := Path.ofText (← IO.currentDir).toString
  let known ← if command.refusal?.isSome then pure [] else explore cwd command []
  match command.action (provider cwd known) with
  | .error report => fail report
  | .ok .nothing => return 0
  | .ok (.print text) =>
    IO.print text
    return 0
  | .ok (.persist output context) =>
    match ← writeFiles output.files with
    | none => return 0
    | some error => fail ⟨context, Report.causesOfFile error⟩

end MapChain.Program

/-- Runs what the arguments ask for. -/
def main (arguments : List String) : IO UInt32 := do
  match MapChain.Invocation.ofArguments arguments with
  | .request command => MapChain.Program.run command
  | .version =>
    IO.print MapChain.Invocation.versionText
    return 0
  | .help => return 0
  | .misuse => return 2
