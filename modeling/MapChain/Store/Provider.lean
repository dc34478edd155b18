import MapChain.Path.Basic
import MapChain.Text.Utf8

/-!
# Providers

Building a chain needs two things from its surroundings: the directory that relative
paths are seen from, and the bytes of a file. A provider gives both and is all that
the builder sees. Here too are the causes for which a file cannot be had.
-/

namespace MapChain

/-- Why a system refuses a path that exists or that it cannot look up. -/
inductive Refusal where
  /-- The system's own reason: a directory where a file should be, or the reverse. -/
  | system
  /-- The path holds a NUL, which no system call can take. -/
  | nulByte
  deriving DecidableEq, Repr

/-- The words for a refusal. -/
def Refusal.message : Refusal → String
  | .system => "os error"
  | .nulByte => "file name contained an unexpected NUL byte"

/-- Why a file cannot be read or written. -/
inductive Fault where
  | missing
  /-- The bytes are no UTF-8. -/
  | notText
  | refused (cause : Refusal)
  deriving DecidableEq, Repr

/-- A fault and the path at which it arose, as that was spelled. -/
structure FileError where
  path : String
  fault : Fault
  deriving DecidableEq, Repr

/-- The message of an error. -/
def FileError.message (error : FileError) : String :=
  match error.fault with
  | .missing => "File not found: " ++ error.path
  | .notText => "Invalid UTF-8 in file: " ++ error.path
  | .refused cause => "I/O error on " ++ error.path ++ ": " ++ cause.message

/-- What the builder sees of its surroundings. -/
structure Provider where
  /-- The directory that relative paths are seen from. -/
  cwd : Path
  /-- The bytes of the file at a path. -/
  read : Path → Except Fault (List UInt8)
  /-- At least as many as there are files and bytes in them. -/
  volume : Nat

/-- The number of entries and of all that they hold, as `size` counts it. -/
def volumeOf (size : α → Nat) (entries : List α) : Nat :=
  entries.foldr (fun entry volume => size entry + 1 + volume) 0

/-- The text that some bytes spell. -/
def textOfBytes (bytes : List UInt8) : Except Fault String :=
  match Utf8.decode? bytes with
  | some text => .ok (String.ofList text)
  | none => .error .notText

/-- The bytes of a text. -/
def bytesOfText (text : String) : List UInt8 := Utf8.encode text.toList

/-- The text of the file at a path. -/
def Provider.readText (provider : Provider) (path : Path) : Except Fault String :=
  provider.read path >>= textOfBytes

end MapChain
