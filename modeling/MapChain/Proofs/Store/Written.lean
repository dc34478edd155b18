import MapChain.Chain.Output
import MapChain.Proofs.Path.Beside
import MapChain.Proofs.Chain.Anchors
import MapChain.Proofs.Text.Utf8

/-!
# Reading what was written

A text that is written to a store at a location is read there again, and every other
location holds what it held before. An output is its content and, unless the content
carries it, the map beside it; the map is written last and lies elsewhere, so both are
read again.
-/

namespace MapChain

/-- A text reads back from its bytes. -/
theorem textOfBytes_bytesOfText (text : String) : textOfBytes (bytesOfText text) = .ok text := by
  rw [textOfBytes, bytesOfText, Utf8.decode?_encode]
  exact congrArg Except.ok String.ofList_toList

namespace Memory

variable (memory : Memory) {path other : Path}

/-- A location is where it says. -/
theorem locate_eq_self (location : path.IsLocation) : memory.locate path = path := by
  rw [locate, Path.under_eq_self _ path location, Path.clamp_eq_self path location]

/-- Reading a location behind a write there and elsewhere. -/
theorem read_put (placed : path.IsLocation) (otherPlaced : other.IsLocation)
    (bytes : List UInt8) : (memory.put path bytes).provider.read other =
      if other = path then .ok bytes else memory.provider.read other := by
  have found := memory.get?_put path other bytes
  rw [locate_eq_self memory placed, locate_eq_self memory otherPlaced] at found
  simp only [provider, read, found]
  by_cases same : other = path
  · simp only [if_pos same]
  · simp only [if_neg same]

/-- Where two stores hold the same bytes they hold the same text. -/
theorem readText_congr {store : Memory} (same : store.get? path = memory.get? path) :
    store.provider.readText path = memory.provider.readText path := by
  simp only [Provider.readText, provider, read, same]

/-- The text of a file is the one that its bytes spell. -/
theorem readText_of_held {bytes : List UInt8} (held : memory.get? path = some bytes) :
    memory.provider.readText path = textOfBytes bytes := by
  simp only [Provider.readText, provider, read, held]
  rfl

/-- Where no file is, none is read. -/
theorem readText_of_absent (absent : memory.get? path = none) :
    memory.provider.readText path = .error .missing := by
  simp only [Provider.readText, provider, read, absent]
  rfl

/-- A text that was written is read again. -/
theorem readText_put (placed : path.IsLocation) (text : String) :
    (memory.put path (bytesOfText text)).provider.readText path = .ok text := by
  rw [Provider.readText, read_put memory placed placed, if_pos rfl]
  exact textOfBytes_bytesOfText text

/-- A location keeps its text when another one is written. -/
theorem readText_put_of_ne (placed : path.IsLocation) (otherPlaced : other.IsLocation)
    (distinct : other ≠ path) (bytes : List UInt8) :
    (memory.put path bytes).provider.readText other = memory.provider.readText other := by
  rw [Provider.readText, read_put memory placed otherPlaced, if_neg distinct, Provider.readText]

end Memory

namespace Output

variable (memory : Memory) {output : Output}

/-- An output at a location whose map, if it has a file of its own, lies beside it. -/
structure IsPlaced (output : Output) : Prop where
  location : output.path.IsLocation
  beside : ∀ mapPath ∈ output.mapPath, mapPath = output.path.append mapSuffix

/-- The content of an output that was written is read again. -/
theorem readText_content (placed : output.IsPlaced) :
    (memory.persist output).provider.readText output.path = .ok output.content := by
  obtain ⟨path, content, map, mapPath⟩ := output
  obtain ⟨location, beside⟩ := placed
  cases mapPath with
  | none => exact memory.readText_put location content
  | some mapPath =>
    obtain rfl : mapPath = path.append mapSuffix := beside mapPath rfl
    have mapPlaced := Path.isLocation_append_mapSuffix location
    have distinct := (Path.append_mapSuffix_ne location).symm
    have kept := (memory.put path (bytesOfText content)).readText_put_of_ne mapPlaced location
      distinct (bytesOfText map.toText)
    exact kept.trans (memory.readText_put location content)

/-- The map of an output that was written is read again, if it has a file of its own. -/
theorem readText_map (placed : output.IsPlaced) {mapPath : Path}
    (own : output.mapPath = some mapPath) :
    (memory.persist output).provider.readText mapPath = .ok output.map.toText := by
  obtain ⟨path, content, map, mapPath'⟩ := output
  obtain ⟨location, beside⟩ := placed
  subst own
  obtain rfl : mapPath = path.append mapSuffix := beside mapPath rfl
  exact (memory.put path (bytesOfText content)).readText_put
    (Path.isLocation_append_mapSuffix location) map.toText

/-- All other locations keep their texts. -/
theorem readText_other (placed : output.IsPlaced) {other : Path} (location : other.IsLocation)
    (notContent : other ≠ output.path) (notMap : other ≠ output.path.append mapSuffix) :
    (memory.persist output).provider.readText other = memory.provider.readText other := by
  obtain ⟨path, content, map, mapPath⟩ := output
  obtain ⟨pathPlaced, beside⟩ := placed
  have first := memory.readText_put_of_ne pathPlaced location notContent (bytesOfText content)
  cases mapPath with
  | none => exact first
  | some mapPath =>
    obtain rfl : mapPath = path.append mapSuffix := beside mapPath rfl
    have second := (memory.put path (bytesOfText content)).readText_put_of_ne
      (Path.isLocation_append_mapSuffix pathPlaced) location notMap (bytesOfText map.toText)
    exact second.trans first

end Output

end MapChain
