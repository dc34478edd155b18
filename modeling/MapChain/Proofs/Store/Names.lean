import MapChain.Proofs.Path.Clamped
import MapChain.Proofs.Store.Written
import Mathlib.Data.List.Induction

/-!
# One name for a file

The builder calls a file by the normal path that it has in the working directory, and a store
in memory keeps it at a location of its own reckoning. In an absolute directory both are the
same path, so what was put at a path is what building reads for it.

A store can also be started in a relative directory. Then the builder's name is relative as
well, and the store sees it from that directory once more. The two agree about a relative path
only if it climbs out of the directory twice.
-/

namespace MapChain

/-- A path keeps its place in a store's directory if one of the two is absolute, or if the
builder's name for it still climbs by as many steps as the directory has names. -/
def Path.KeepsPlace (cwd path : Path) : Prop :=
  cwd.absolute = true ∨ path.absolute = true ∨
    cwd.parts.length ≤ (cwd.resolve path).parts.count .up

namespace Memory

/-- The store behind calls that put bytes at paths, one after the other. -/
def putAll (memory : Memory) (calls : List (Path × List UInt8)) : Memory :=
  calls.foldl (fun memory call => memory.put call.1 call.2) memory

/-- The bytes of the last call whose path has this location. -/
def lastAt? (memory : Memory) (calls : List (Path × List UInt8)) (location : Path) :
    Option (List UInt8) :=
  (calls.reverse.find? fun call => memory.locate call.1 = location).map (·.2)

/-- How a store and the builder name files behind some calls. A path is read as the last call
with its location left it. In an absolute directory its location is the builder's name for it.
The builder's name leads to the location exactly where the path keeps its place, and then both
are read alike and building finds the path's own text. -/
structure NamesAlike (memory : Memory) (calls : List (Path × List UInt8)) : Prop where
  last : ∀ path, memory.get? path = memory.lastAt? calls (memory.locate path)
  named : memory.cwd.absolute = true → ∀ path, memory.locate path = memory.cwd.resolve path
  kept : ∀ path, memory.locate (memory.cwd.resolve path) = memory.locate path ↔
    memory.cwd.KeepsPlace path
  alike : ∀ path, memory.cwd.KeepsPlace path →
    memory.get? (memory.cwd.resolve path) = memory.get? path
  found : ∀ path text, memory.cwd.KeepsPlace path → memory.provider.readText path = .ok text →
    Chain.build ⟨memory.provider, {}⟩ path =
      Workspace.chain ⟨memory.provider, {}⟩ (memory.cwd.resolve path) text

variable (memory : Memory)

/-- Calls leave the directory as it is. -/
theorem cwd_putAll (calls : List (Path × List UInt8)) : (memory.putAll calls).cwd = memory.cwd := by
  induction calls generalizing memory with
  | nil => rfl
  | cons call calls inductionHypothesis => exact inductionHypothesis (memory.put call.1 call.2)

/-- Calls leave every path its location. -/
theorem locate_putAll (calls : List (Path × List UInt8)) (path : Path) :
    (memory.putAll calls).locate path = memory.locate path := by
  rw [locate, locate, cwd_putAll]

/-- Behind calls a path holds the bytes of the last one with its location, or else what it held
before. -/
theorem get?_putAll (calls : List (Path × List UInt8)) (path : Path) :
    (memory.putAll calls).get? path =
      (memory.lastAt? calls (memory.locate path)).or (memory.get? path) := by
  induction calls using List.reverseRecOn with
  | nil => rfl
  | append_singleton calls call inductionHypothesis =>
    have behind : memory.putAll (calls ++ [call]) = (memory.putAll calls).put call.1 call.2 := by
      simp [putAll]
    rw [behind, get?_put, locate_putAll, locate_putAll, inductionHypothesis]
    by_cases same : memory.locate path = memory.locate call.1
    · simp [lastAt?, same]
    · simp [lastAt?, same, Ne.symm same]

/-- In an absolute directory, and of an absolute path, the location is the builder's name. -/
theorem locate_of_absolute {path : Path} (absolute : (memory.cwd.under path).absolute = true) :
    memory.locate path = memory.cwd.resolve path := Path.clamp_of_absolute absolute

/-- The builder's name leads to the location of the paths that keep their place and of no
others. -/
theorem locate_resolve_iff (grounded : memory.cwd.IsGrounded) (path : Path) :
    memory.locate (memory.cwd.resolve path) = memory.locate path ↔
      memory.cwd.KeepsPlace path := by
  by_cases absolute : memory.cwd.absolute = true ∨ path.absolute = true
  · have seen : (memory.cwd.under path).absolute = true := by
      rcases absolute with directory | own
      · exact Path.under_absolute _ path directory
      · rw [Path.under_of_absolute _ own]
        exact own
    have location : (memory.cwd.resolve path).IsLocation := Path.isLocation_normalize _ seen
    rw [memory.locate_eq_self location, memory.locate_of_absolute seen]
    refine ⟨fun _ => ?_, fun _ => rfl⟩
    rcases absolute with directory | own
    · exact .inl directory
    · exact .inr (.inl own)
  · obtain ⟨directory, own⟩ := not_or.mp absolute
    refine (Path.clamp_under_resolve_iff grounded directory own).trans ?_
    refine ⟨fun climbs => .inr (.inr climbs), fun keeps => ?_⟩
    exact (keeps.resolve_left directory).resolve_left own

/-- A path that keeps its place is read under the builder's name as it is. -/
theorem get?_resolve (grounded : memory.cwd.IsGrounded) {path : Path}
    (keeps : memory.cwd.KeepsPlace path) :
    memory.get? (memory.cwd.resolve path) = memory.get? path := by
  rw [get?, (memory.locate_resolve_iff grounded path).mpr keeps, get?]

/-- Building a path that keeps its place starts from the text that is read there. -/
theorem build_of_keepsPlace (grounded : memory.cwd.IsGrounded) {path : Path} {text : String}
    (keeps : memory.cwd.KeepsPlace path) (read : memory.provider.readText path = .ok text) :
    Chain.build ⟨memory.provider, {}⟩ path =
      Workspace.chain ⟨memory.provider, {}⟩ (memory.cwd.resolve path) text := by
  have same := memory.get?_resolve grounded keeps
  have own : memory.provider.readText (memory.cwd.resolve path) = .ok text := by
    rw [← read]
    simp only [Provider.readText, provider, Memory.read, same]
  have required := Workspace.required_of_text ⟨memory.provider, {}⟩ own
  rw [Chain.build]
  exact congrArg (· >>= _) required

/-- Whatever directory a store is started in, it and the builder name files alike behind any
calls, as far as paths keep their place. -/
theorem namesAlike_putAll (cwd : String) (calls : List (Path × List UInt8)) :
    ((startingAt (.ofText cwd)).putAll calls).NamesAlike calls := by
  have grounded : ((startingAt (.ofText cwd)).putAll calls).cwd.IsGrounded := by
    rw [cwd_putAll]
    exact Path.isGrounded_clamp _
  refine ⟨fun path => ?_, fun absolute path => ?_, locate_resolve_iff _ grounded,
    fun path keeps => get?_resolve _ grounded keeps,
    fun path text keeps read => build_of_keepsPlace _ grounded keeps read⟩
  · have before : (startingAt (.ofText cwd)).get? path = none := rfl
    simp only [get?_putAll, before, Option.or_none, lastAt?, locate_putAll]
  · exact locate_of_absolute _ (Path.under_absolute _ path absolute)

/-- In a relative directory a path keeps its place if it climbs out of it twice. -/
example : (Path.ofText "w").KeepsPlace (.ofText "../../a.js") := .inr (.inr (by decide +kernel))

/-- A store in a relative directory with one file. -/
def adrift : Memory := (startingAt (.ofText "w")).putAll [(.ofText "a.js", bytesOfText "x")]

/-- In a relative directory the builder's name for a file can lead elsewhere. -/
theorem not_alike_adrift : ¬∀ (cwd : String) (calls : List (Path × List UInt8)) (path : Path),
    ((startingAt (.ofText cwd)).putAll calls).get?
        (((startingAt (.ofText cwd)).putAll calls).cwd.resolve path) =
      ((startingAt (.ofText cwd)).putAll calls).get? path := by
  intro alike
  have own : adrift.get? (.ofText "a.js") = some (bytesOfText "x") := by decide +kernel
  have named : adrift.get? (adrift.cwd.resolve (.ofText "a.js")) = none := by decide +kernel
  have same := alike "w" [(.ofText "a.js", bytesOfText "x")] (.ofText "a.js")
  rw [← adrift, own, named] at same
  simp at same

end Memory

end MapChain
