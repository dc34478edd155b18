import MapChain.Store.Provider

/-!
# Files in memory

A memory store keeps files under locations. A location is a path without steps up: one
that leads above the first part is dropped, and a path of which nothing is left is the
root. Directories are not kept, so every path can be written.
-/

namespace MapChain

/-- Takes one more part onto a stack of parts; a step up removes one if there is one. -/
def Path.clampPush (stack : List Part) : Part → List Part
  | .here => stack
  | .up => stack.tail
  | .name name => .name name :: stack

/-- The location that a path names. -/
def Path.clamp (path : Path) : Path :=
  match path.parts.foldl Path.clampPush [] with
  | [] => .root
  | stack => { path with parts := stack.reverse }

/-- Files by location, and the directory that relative paths are seen from. -/
structure Memory where
  cwd : Path := .root
  /-- Each location occurs once. -/
  files : List (Path × List UInt8) := []

namespace Memory

/-- A store without files whose relative paths are seen from `cwd`. -/
def startingAt (cwd : Path) : Memory := { cwd := cwd.clamp }

/-- The location of a path in a store. -/
def locate (memory : Memory) (path : Path) : Path := (memory.cwd.under path).clamp

/-- The bytes at a path. -/
def get? (memory : Memory) (path : Path) : Option (List UInt8) :=
  memory.files.lookup (memory.locate path)

/-- The store with other bytes at a path. -/
def put (memory : Memory) (path : Path) (bytes : List UInt8) : Memory :=
  let location := memory.locate path
  { memory with
    files := (location, bytes) :: memory.files.filter fun file => file.1 ≠ location }

/-- Reads a path; all that can go wrong is that nothing is there. -/
def read (memory : Memory) (path : Path) : Except Fault (List UInt8) :=
  match memory.get? path with
  | some bytes => .ok bytes
  | none => .error .missing

/-- The files and the bytes in them. -/
def volume (memory : Memory) : Nat := volumeOf (fun file => file.2.length) memory.files

/-- What the builder sees of the store. -/
def provider (memory : Memory) : Provider := ⟨memory.cwd, memory.read, memory.volume⟩

/-- Removing the file of one location leaves every other location as it is. -/
theorem lookup_filter_ne (files : List (Path × α)) (removed kept : Path)
    (distinct : kept ≠ removed) :
    (files.filter fun file => file.1 ≠ removed).lookup kept = files.lookup kept := by
  induction files with
  | nil => rfl
  | cons file rest ih =>
    obtain ⟨place, bytes⟩ := file
    by_cases same : place = removed
    · subst same
      have other : (kept == place) = false := by simpa using distinct
      simpa [List.lookup_cons, other] using ih
    · simp only [List.filter_cons, ne_eq, same, not_false_eq_true, decide_true, if_true,
        List.lookup_cons]
      split
      · rfl
      · exact ih

/-- What was put at a path is read there, and other locations keep their bytes. -/
theorem get?_put (memory : Memory) (path other : Path) (bytes : List UInt8) :
    (memory.put path bytes).get? other =
      if memory.locate other = memory.locate path then some bytes else memory.get? other := by
  have same_place : (memory.put path bytes).locate other = memory.locate other := rfl
  simp only [get?, same_place]
  simp only [put, List.lookup_cons]
  split
  · rename_i found
    simp [eq_of_beq found]
  · rename_i different
    have distinct : memory.locate other ≠ memory.locate path := by simpa using different
    rw [if_neg distinct]
    exact lookup_filter_ne memory.files _ _ distinct

end Memory

end MapChain
