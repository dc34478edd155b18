import MapChain.Proofs.Store.Disk
import MapChain.Proofs.Store.Written

/-!
# What writing to a disk leaves alone

A file is written to a location and nowhere else: its spelling leads from the root over the
names of the location to the location itself. The directories that are created on the way
replace nothing, so every other file is still there with the bytes that it had. A write that
fails has put no bytes anywhere, though directories may have been created.

An output is written in two steps. If the second one fails, the content is in place, and the
map's file is what it was.
-/

namespace MapChain

namespace Path

/-- The pieces in the spelling of a location are its parts, void ones apart. -/
theorem filter_split_chars {path : Path} (location : path.IsLocation) :
    (Text.split '/' path.chars).filter (· ≠ []) = path.parts.map Part.text := by
  obtain ⟨absolute, parts⟩ := path
  obtain rfl : absolute = true := location.absolute
  by_cases inhabited : parts = []
  · subst inhabited
    decide
  · rw [chars, if_pos rfl, List.singleton_append, Text.split, if_pos rfl,
      split_join_text parts inhabited, List.filter_cons_of_neg (by simp), List.filter_eq_self]
    intro piece member
    obtain ⟨part, _, rfl⟩ := List.mem_map.mp member
    simpa using part.text_ne_nil

/-- The last name in the spelling of a location is the name of its last part. -/
theorem exists_of_lastName?_chars {path : Path} (location : path.IsLocation) {name : Name}
    (last : Spelling.lastName? path.chars = some name) :
    ∃ front, path = ⟨true, front ++ [.name name]⟩ := by
  rw [Spelling.lastName?, filter_split_chars location] at last
  obtain ⟨absolute, parts⟩ := path
  obtain rfl : absolute = true := location.absolute
  rcases List.eq_nil_or_concat parts with rfl | ⟨front, own, rfl⟩
  · simp at last
  · obtain ⟨other, rfl⟩ := location.named own (by simp)
    rw [List.concat_eq_append, List.map_append, List.map_singleton, List.getLast?_concat] at last
    have valid : isName (Part.name other).text = true := other.valid
    simp only [dif_pos valid] at last
    obtain rfl := Option.some.inj last
    exact ⟨front, by rw [List.concat_eq_append]; rfl⟩
end Path

namespace Disk

/-- The bytes of the file at a place, if one is there. -/
def file? (disk : Disk) (place : Path) : Option (List UInt8) :=
  match disk.entry? place with
  | some (.file bytes) => some bytes
  | _ => none

/-- Two disks that hold the same files, those at some places apart. -/
def AgreeBut (places : List Path) (disk other : Disk) : Prop :=
  ∀ place, place ∉ places → other.file? place = disk.file? place

/-- A disk agrees with itself. -/
theorem AgreeBut.refl (places : List Path) (disk : Disk) : AgreeBut places disk disk :=
  fun _ _ => rfl

variable {places more : List Path} {disk other last : Disk}

/-- Where more places are set apart, two disks still agree. -/
theorem AgreeBut.mono (agree : AgreeBut places disk other) (fewer : places ⊆ more) :
    AgreeBut more disk other :=
  fun place outside => agree place fun inside => outside (fewer inside)

/-- A disk agrees with the last of two changed ones, where both changes leave it alone. -/
theorem AgreeBut.trans (agree : AgreeBut places disk other) (next : AgreeBut places other last) :
    AgreeBut places disk last :=
  fun place outside => (next place outside).trans (agree place outside)

/-- A new directory where nothing is changes no file. -/
theorem agreeBut_insert_directory {place : Path} (below : place ≠ .root)
    (free : disk.entry? place = none) : AgreeBut [] disk (disk.insert place .directory) := by
  intro other _
  simp only [file?, disk.entry?_insert below]
  by_cases same : other = place
  · rw [if_pos same, same, free]
  · rw [if_neg same]

/-- A written file is there, and no other file changes. -/
theorem file?_insert (disk : Disk) {place : Path} (below : place ≠ .root) (bytes : List UInt8) :
    AgreeBut [place] disk (disk.insert place (.file bytes)) ∧
      (disk.insert place (.file bytes)).file? place = some bytes := by
  constructor
  · intro other outside
    have different : other ≠ place := by simpa using outside
    simp only [file?, disk.entry?_insert below, if_neg different]
  · simp [file?, disk.entry?_insert below]

/-- Creating directories changes no file. -/
theorem agreeBut_makeDirectories (disk : Disk) (place : Path) (parts : List Part) :
    AgreeBut [] disk (disk.makeDirectories place parts).1 := by
  -- Only the case of a name that is missing adds an entry.
  fun_induction Disk.makeDirectories disk place parts with
  | case1 | case2 | case5 | case8 => exact .refl _ _
  | case3 _ _ _ _ inductionHypothesis => exact inductionHypothesis
  | case4 _ _ _ _ inductionHypothesis => exact inductionHypothesis
  | case6 _ _ _ _ _ _ _ inductionHypothesis => exact inductionHypothesis
  | case7 disk place parts directory name short missing inductionHypothesis =>
    have free : disk.entry? (child place name) = none := by simpa using missing
    exact (agreeBut_insert_directory (child_ne_root place name) free).trans inductionHypothesis

/-- Creating the directory of a spelling changes no file. -/
theorem agreeBut_makeDirectory (disk : Disk) (spelling : List Char) :
    AgreeBut [] disk (disk.makeDirectory spelling).1 := by
  have made := disk.agreeBut_makeDirectories (disk.start (.ofChars spelling))
    (Path.ofChars spelling).parts
  rw [Disk.makeDirectory]
  split
  · exact .refl _ _
  · dsimp only
    split
    · rename_i other _ same
      rwa [same] at made
    · rename_i other _ same
      rwa [same] at made

/-- A walk over names that ends does so at the place that they lead to. -/
theorem eq_onto_of_walk {place target : Path} {parts : List Part}
    (named : ∀ part ∈ parts, part.IsName) (walked : disk.walk place parts = .ok target) :
    target = place.onto parts := by
  induction parts generalizing place with
  | nil => exact (Except.ok.inj walked).symm.trans (Path.onto_nil place).symm
  | cons part parts inductionHypothesis =>
    obtain ⟨name, rfl⟩ := named part (by simp)
    have behind : ∀ part ∈ parts, part.IsName := fun other member => named other (by simp [member])
    cases held : disk.entry? place with
    | none => simp [walk, held] at walked
    | some entry =>
      rw [walk_cons held] at walked
      split at walked
      · simp at walked
      · split at walked
        · rw [onto_cons]
          exact inductionHypothesis behind walked
        · simp at walked

/-- What is written under the spelling of a location is written there, and that is not the
root. -/
theorem eq_of_target {path target : Path} (location : path.IsLocation)
    (found : disk.target path.chars = .ok target) : target = path ∧ path ≠ .root := by
  obtain ⟨directory, name, rfl, _, _, _, last, walked⟩ := exists_child_of_target found
  obtain ⟨front, rfl⟩ := Path.exists_of_lastName?_chars location last
  rw [Path.ofChars_chars_of_isLocation location, start, if_pos rfl] at walked
  have above : ∀ part ∈ front, part.IsName :=
    fun part member => location.named part (by simp [member])
  have led : directory = ⟨true, front⟩ := by
    simpa [Path.onto, Path.root] using eq_onto_of_walk (by simpa using above) walked
  subst led
  exact ⟨rfl, child_ne_root ⟨true, front⟩ name⟩

/-- Writing to a location fails and changes no file, or the file there has the bytes and no
other file changes. -/
theorem write_cases {path : Path} (location : path.IsLocation) (bytes : List UInt8)
    {after : Disk} {failed : Option FileError} (written : disk.write path bytes = (after, failed)) :
    (∃ error, failed = some error ∧ AgreeBut [] disk after) ∨
      failed = none ∧ AgreeBut [path] disk after ∧ after.file? path = some bytes := by
  have made : AgreeBut [] disk (if (Path.Spelling.parent? path.chars).getD [] = [] then (disk, none)
      else disk.makeDirectory ((Path.Spelling.parent? path.chars).getD [])).1 := by
    split
    · exact .refl _ _
    · apply agreeBut_makeDirectory
  rw [Disk.write, Disk.writeSpelled] at written
  generalize (if (Path.Spelling.parent? path.chars).getD [] = [] then (disk, none)
    else disk.makeDirectory ((Path.Spelling.parent? path.chars).getD [])) = result at made written
  cases result with
  | mk other fault =>
    cases fault with
    | some fault =>
      cases written
      exact .inl ⟨_, rfl, made⟩
    | none =>
      dsimp only at written
      split at written
      · cases written
        exact .inl ⟨_, rfl, made⟩
      · rename_i found
        cases written
        obtain ⟨rfl, below⟩ := eq_of_target location found
        obtain ⟨others, own⟩ := other.file?_insert below bytes
        exact .inr ⟨rfl, (made.mono (by simp)).trans others, own⟩

/-- What writing an output comes to, with the disk behind it and what went wrong. -/
inductive Persists (disk : Disk) (output : Output) : Disk → Option FileError → Prop where
  /-- The content could not be written, and no file has changed. -/
  | refused {after : Disk} (error : FileError) (agree : AgreeBut [] disk after) :
      Persists disk output after (some error)
  /-- The content is in place, and the map could not be written behind it. -/
  | withoutMap {after : Disk} (between : Disk) (mapPath : Path) (error : FileError)
      (own : output.mapPath = some mapPath)
      (content : disk.write output.path (bytesOfText output.content) = (between, none))
      (map : between.write mapPath (bytesOfText output.map.toText) = (after, some error))
      (agree : AgreeBut [output.path] disk after)
      (held : after.file? output.path = some (bytesOfText output.content)) :
      Persists disk output after (some error)
  /-- The content is in place, and so is the map, if it has a file of its own. -/
  | done {after : Disk} (agree : AgreeBut (output.path :: output.mapPath.toList) disk after)
      (held : after.file? output.path = some (bytesOfText output.content))
      (mapped : ∀ mapPath, output.mapPath = some mapPath →
        after.file? mapPath = some (bytesOfText output.map.toText)) :
      Persists disk output after none

/-- Writing an output fails at its content, or at its map with the content in place, or puts both in
place. Nothing else changes. -/
theorem persists (disk : Disk) {output : Output} (placed : output.IsPlaced) :
    disk.Persists output (disk.persist output).1 (disk.persist output).2 := by
  have location := placed.location
  cases first : disk.write output.path (bytesOfText output.content) with
  | mk between failed =>
    rcases write_cases location _ first with ⟨error, rfl, agree⟩ | ⟨rfl, agree, held⟩
    · simp only [Disk.persist, Output.files, writeAll, first]
      exact .refused error agree
    · cases own : output.mapPath with
      | none =>
        simp only [Disk.persist, Output.files, writeAll, first, own, Option.map_none,
          Option.toList_none]
        apply Persists.done
        · simpa [own] using agree
        · exact held
        · simp [own]
      | some mapPath =>
        have beside : mapPath = output.path.append mapSuffix := placed.beside mapPath own
        have mapLocation : mapPath.IsLocation :=
          beside ▸ Path.isLocation_append_mapSuffix location
        have apart : output.path ∉ [mapPath] := by
          rw [beside, List.mem_singleton]
          exact Ne.symm (Path.append_mapSuffix_ne location)
        cases second : between.write mapPath (bytesOfText output.map.toText) with
        | mk after failed =>
          rcases write_cases mapLocation _ second with ⟨error, rfl, next⟩ | ⟨rfl, next, mapped⟩
          · simp only [Disk.persist, Output.files, writeAll, first, own, second, Option.map_some,
              Option.toList_some]
            apply Persists.withoutMap between mapPath error own first second
            · exact agree.trans (next.mono (by simp))
            · exact (next output.path (by simp)).trans held
          · simp only [Disk.persist, Output.files, writeAll, first, own, second, Option.map_some,
              Option.toList_some]
            apply Persists.done
            · rw [own]
              exact (agree.mono (by simp)).trans (next.mono (by simp))
            · exact (next output.path apart).trans held
            · intro path same
              obtain rfl := Option.some.inj (own.symm.trans same)
              exact mapped

end Disk

end MapChain
