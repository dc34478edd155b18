import MapChain.Store.Disk
import MapChain.Store.Memory

/-!
# Stores

A store holds files in memory or on a disk. It is read and written by paths as they
are spelled, and its errors quote that spelling. A disk can be read by blocking calls
or by calls that need a runtime to make progress; both see the same files.
-/

namespace MapChain

/-- How the files of a disk are read. -/
inductive Access where
  | blocking
  | concurrent
  deriving DecidableEq, Repr

/-- A place for files. -/
inductive Store where
  | inMemory (memory : Memory)
  | onDisk (disk : Disk) (access : Access)

namespace Store

/-- What the builder sees of a store. -/
def provider : Store → Provider
  | .inMemory memory => memory.provider
  | .onDisk disk _ => disk.provider

/-- Whether reading needs a runtime to make progress. -/
def requiresRuntime : Store → Bool
  | .onDisk _ .concurrent => true
  | _ => false

/-- The bytes at a path. -/
def read (store : Store) (spelling : String) : Except FileError (List UInt8) :=
  let read :=
    match store with
    | .inMemory memory => memory.read (.ofText spelling)
    | .onDisk disk _ => disk.readSpelled spelling.toList
  read.mapError fun fault => ⟨spelling, fault⟩

/-- The text at a path. -/
def readText (store : Store) (spelling : String) : Except FileError String := do
  (textOfBytes (← store.read spelling)).mapError fun fault => ⟨spelling, fault⟩

/-- The store with other bytes at a path, and what went wrong, if something did. -/
def write (store : Store) (spelling : String) (bytes : List UInt8) : Store × Option FileError :=
  match store with
  | .inMemory memory => (.inMemory (memory.put (.ofText spelling) bytes), none)
  | .onDisk disk access =>
    let (disk, failed) := disk.writeSpelled spelling.toList bytes
    (.onDisk disk access, failed)

end Store

end MapChain
