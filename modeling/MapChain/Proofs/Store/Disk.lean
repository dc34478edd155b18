import MapChain.Proofs.Chain.Anchors
import MapChain.Store.Disk

/-!
# What a disk reads

The entries of a disk form a tree: above every entry are directories, up to the root. A location
is looked up part by part. The way to it is blocked where it leads through a file, or from a
directory to a name that is longer than any entry's; otherwise it ends at the entry there, or
nothing is there. So reading a location gives the bytes of its file, or says that nothing is
there, or is barred: by the spelling, by a directory, or by what blocks the way.

A disk without files is a tree, and writing keeps it one: a directory is created where nothing
is, and a file is put into a directory where no directory is.
-/

namespace MapChain

namespace Path

/-- The path with more parts behind its own. -/
def onto (path : Path) (parts : List Part) : Path := { path with parts := path.parts ++ parts }

/-- Without more parts a path stays as it is. -/
theorem onto_nil (path : Path) : path.onto [] = path := by simp [onto]

/-- A location is seen from the root by its parts. -/
theorem onto_root {path : Path} (location : path.IsLocation) : root.onto path.parts = path := by
  obtain ⟨absolute, parts⟩ := path
  obtain rfl : absolute = true := location.absolute
  simp [onto, root]

end Path

/-- An entry that cannot be left by a name: a file, or a directory if no entry has such a name. -/
def Entry.stops (name : Name) : Entry → Bool
  | .file _ => true
  | .directory => Disk.isTooLong name

namespace Disk

/-- A disk on which every entry lies in a directory and has a name that is not too long. -/
structure IsTree (disk : Disk) : Prop where
  nested : ∀ place name, (disk.entry? (child place name)).isSome = true →
    disk.entry? place = some .directory
  named : ∀ place name, (disk.entry? (child place name)).isSome = true → isTooLong name = false

/-- The way from a place over some parts is blocked by an entry in front of one of them. -/
def Blocks (disk : Disk) (place : Path) (parts : List Part) : Prop :=
  ∃ front name rest entry, parts = front ++ .name name :: rest ∧
    disk.entry? (place.onto front) = some entry ∧ entry.stops name = true

/-- Reading a location is barred. Its spelling is none that a system takes, a directory is there,
or the way to it is blocked. -/
inductive Bars (disk : Disk) (path : Path) : Refusal → Prop where
  | nulByte (spelled : '\x00' ∈ path.chars) : Bars disk path .nulByte
  | long (clean : '\x00' ∉ path.chars)
      (long : spellingLimit ≤ (Utf8.encode path.chars).length) : Bars disk path .system
  | directory (clean : '\x00' ∉ path.chars) (held : disk.entry? path = some .directory) :
      Bars disk path .system
  | blocked (clean : '\x00' ∉ path.chars) (blocks : disk.Blocks .root path.parts) :
      Bars disk path .system

/-- What reading a location comes to. -/
inductive Reads (disk : Disk) (path : Path) : Except Fault (List UInt8) → Prop where
  | file (bytes : List UInt8) (free : ∀ cause, ¬disk.Bars path cause)
      (held : disk.entry? path = some (.file bytes)) : Reads disk path (.ok bytes)
  | missing (free : ∀ cause, ¬disk.Bars path cause) (absent : disk.entry? path = none) :
      Reads disk path (.error .missing)
  | barred (cause : Refusal) (bars : disk.Bars path cause) :
      Reads disk path (.error (.refused cause))

variable {disk : Disk} {place : Path} {name : Name} {parts : List Part}

/-- More parts behind a name are parts behind the child of that name. -/
theorem onto_cons (place : Path) (name : Name) (parts : List Part) :
    place.onto (.name name :: parts) = (child place name).onto parts := by
  simp [Path.onto, child]

/-- Behind an entry that cannot be left, or at its child, the way is blocked. -/
theorem blocks_cons_iff {entry : Entry} (held : disk.entry? place = some entry) :
    disk.Blocks place (.name name :: parts) ↔
      entry.stops name = true ∨ disk.Blocks (child place name) parts := by
  constructor
  · rintro ⟨front, other, rest, stopping, split, found, stops⟩
    cases front with
    | nil =>
      obtain ⟨same, _⟩ := List.cons.inj split
      obtain rfl := Part.name.inj same
      rw [Path.onto_nil, held] at found
      obtain rfl := Option.some.inj found
      exact .inl stops
    | cons part front =>
      obtain ⟨rfl, behind⟩ := List.cons.inj split
      rw [onto_cons] at found
      exact .inr ⟨front, other, rest, stopping, behind, found, stops⟩
  · rintro (stops | ⟨front, other, rest, stopping, rfl, found, stops⟩)
    · exact ⟨[], name, parts, entry, rfl, (Path.onto_nil place).symm ▸ held, stops⟩
    · exact ⟨.name name :: front, other, rest, stopping, rfl, onto_cons place name front ▸ found,
        stops⟩

/-- One step of a walk: an entry that cannot be left refuses, and a child that is not there is
missing. -/
theorem walk_cons {entry : Entry} (held : disk.entry? place = some entry) :
    disk.walk place (.name name :: parts) =
      if entry.stops name then .error refused
      else if (disk.entry? (child place name)).isSome then disk.walk (child place name) parts
      else .error .missing := by
  cases entry with
  | file bytes => simp [walk, held, Entry.stops]
  | directory =>
    simp only [walk, held, Entry.stops]
    rfl

namespace IsTree

variable (tree : disk.IsTree)

include tree

/-- Below a place without an entry there is none. -/
theorem entry?_onto_eq_none (named : ∀ part ∈ parts, part.IsName)
    (absent : disk.entry? place = none) : disk.entry? (place.onto parts) = none := by
  induction parts generalizing place with
  | nil => rwa [Path.onto_nil]
  | cons part parts inductionHypothesis =>
    obtain ⟨name, rfl⟩ := named part (by simp)
    rw [onto_cons]
    refine inductionHypothesis (fun other member => named other (by simp [member])) ?_
    by_contra present
    have directory := tree.nested place name (Option.isSome_iff_ne_none.mpr present)
    simp [absent] at directory

/-- The way to an entry is not blocked. -/
theorem not_blocks_of_isSome (named : ∀ part ∈ parts, part.IsName)
    (present : (disk.entry? (place.onto parts)).isSome = true) : ¬disk.Blocks place parts := by
  rintro ⟨front, name, rest, entry, rfl, held, stops⟩
  have split : place.onto (front ++ .name name :: rest) =
      (child (place.onto front) name).onto rest := by simp [Path.onto, child]
  have further : (disk.entry? (child (place.onto front) name)).isSome = true := by
    rw [Option.isSome_iff_ne_none]
    intro absent
    have behind : ∀ part ∈ rest, part.IsName := fun part member => named part (by simp [member])
    rw [split, tree.entry?_onto_eq_none behind absent] at present
    cases present
  obtain rfl := Option.some.inj (held.symm.trans (tree.nested _ _ further))
  simp [Entry.stops, tree.named _ _ further] at stops

/-- The way to anything below a place without an entry is not blocked. -/
theorem not_blocks_of_absent (named : ∀ part ∈ parts, part.IsName)
    (absent : disk.entry? place = none) : ¬disk.Blocks place parts := by
  rintro ⟨front, name, rest, entry, rfl, held, _⟩
  have before : ∀ part ∈ front, part.IsName := fun part member => named part (by simp [member])
  rw [tree.entry?_onto_eq_none before absent] at held
  cases held

/-- A walk over names ends at the entry that they lead to, or where nothing is, or it is refused
where the way is blocked. -/
theorem walk_cases (named : ∀ part ∈ parts, part.IsName)
    (held : (disk.entry? place).isSome = true) :
    (disk.walk place parts = .ok (place.onto parts) ∧
        (disk.entry? (place.onto parts)).isSome = true) ∨
      (disk.walk place parts = .error .missing ∧ disk.entry? (place.onto parts) = none ∧
        ¬disk.Blocks place parts) ∨
      disk.walk place parts = .error refused ∧ disk.Blocks place parts := by
  induction parts generalizing place with
  | nil => exact .inl ⟨by rw [walk, Path.onto_nil], by rwa [Path.onto_nil]⟩
  | cons part parts inductionHypothesis =>
    obtain ⟨name, rfl⟩ := named part (by simp)
    have behind : ∀ part ∈ parts, part.IsName := fun other member => named other (by simp [member])
    obtain ⟨entry, held⟩ := Option.isSome_iff_exists.mp held
    rw [walk_cons held, blocks_cons_iff held, onto_cons]
    by_cases stops : entry.stops name = true
    · exact .inr (.inr ⟨if_pos stops, .inl stops⟩)
    · rw [if_neg stops, or_iff_right stops]
      by_cases present : (disk.entry? (child place name)).isSome = true
      · rw [if_pos present]
        exact inductionHypothesis behind present
      · rw [if_neg present]
        have absent : disk.entry? (child place name) = none := by simpa using present
        exact .inr (.inl ⟨rfl, tree.entry?_onto_eq_none behind absent,
          tree.not_blocks_of_absent behind absent⟩)

end IsTree

/-- A location is looked up from the root. -/
theorem locate_of_isLocation {path : Path} (location : path.IsLocation) :
    disk.locate path = disk.walk .root path.parts := by
  have parted : path ≠ .empty := by
    rintro rfl
    cases location.absolute
  rw [locate, if_neg parted, start, if_pos location.absolute]

/-- A spelling without a NUL and with few bytes is taken, and another one refused. -/
theorem vet_cases (path : Path) :
    (vet path.chars = .ok () ∧ '\x00' ∉ path.chars ∧
        ¬spellingLimit ≤ (Utf8.encode path.chars).length) ∨
      ∃ cause, vet path.chars = .error (.refused cause) ∧ disk.Bars path cause := by
  by_cases spelled : '\x00' ∈ path.chars
  · exact .inr ⟨.nulByte, by simp [vet, spelled], .nulByte spelled⟩
  · by_cases long : spellingLimit ≤ (Utf8.encode path.chars).length
    · exact .inr ⟨.system, by simp [vet, spelled, long, refused], .long spelled long⟩
    · exact .inl ⟨by simp [vet, spelled, long], spelled, long⟩

/-- A spelling that is taken is not barred where no directory is and nothing blocks the way. -/
theorem not_bars {path : Path} (clean : '\x00' ∉ path.chars)
    (short : ¬spellingLimit ≤ (Utf8.encode path.chars).length)
    (whole : ¬disk.Blocks .root path.parts) (other : disk.entry? path ≠ some .directory)
    (cause : Refusal) : ¬disk.Bars path cause := by
  intro bars
  cases bars with
  | nulByte spelled => exact clean spelled
  | long _ long => exact short long
  | directory _ held => exact other held
  | blocked _ blocks => exact whole blocks

/-- A location is found if it has an entry; otherwise nothing is there or the way is blocked. -/
theorem locate_cases (tree : disk.IsTree) {path : Path} (location : path.IsLocation) :
    (∃ entry, disk.locate path = .ok path ∧ disk.entry? path = some entry ∧
        ¬disk.Blocks .root path.parts) ∨
      (disk.locate path = .error .missing ∧ disk.entry? path = none ∧
        ¬disk.Blocks .root path.parts) ∨
      disk.locate path = .error refused ∧ disk.Blocks .root path.parts := by
  have rooted : (disk.entry? .root).isSome = true := by simp [Disk.entry?]
  have walked := tree.walk_cases location.named rooted
  rw [Path.onto_root location, ← locate_of_isLocation location] at walked
  rcases walked with ⟨arrives, present⟩ | ⟨lost, absent, whole⟩ | ⟨blocked, blocks⟩
  · obtain ⟨entry, held⟩ := Option.isSome_iff_exists.mp present
    have whole : ¬disk.Blocks .root path.parts := by
      apply tree.not_blocks_of_isSome location.named
      rwa [Path.onto_root location]
    exact .inl ⟨entry, arrives, held, whole⟩
  · exact .inr (.inl ⟨lost, absent, whole⟩)
  · exact .inr (.inr ⟨blocked, blocks⟩)

/-- Reading a location gives its bytes, or nothing is there, or it is barred. -/
theorem reads (tree : disk.IsTree) {path : Path} (location : path.IsLocation) :
    disk.Reads path (disk.read path) := by
  rcases disk.vet_cases path with ⟨taken, clean, short⟩ | ⟨cause, refused, bars⟩
  · rcases disk.locate_cases tree location with
      ⟨entry, found, held, whole⟩ | ⟨lost, absent, whole⟩ | ⟨blocked, blocks⟩
    · cases entry with
      | file bytes =>
        have read : disk.read path = .ok bytes := by
          simp only [Disk.read, taken, found, held, bind, Except.bind, pure, Except.pure]
        exact read ▸ .file bytes (not_bars clean short whole (by simp [held])) held
      | directory =>
        have read : disk.read path = .error (.refused .system) := by
          simp only [Disk.read, taken, found, held, bind, Except.bind, Disk.refused]
        exact read ▸ .barred .system (.directory clean held)
    · have read : disk.read path = .error .missing := by
        simp only [Disk.read, taken, lost, bind, Except.bind]
      exact read ▸ .missing (not_bars clean short whole (by simp [absent])) absent
    · have read : disk.read path = .error (.refused .system) := by
        simp only [Disk.read, taken, blocked, bind, Except.bind, Disk.refused]
      exact read ▸ .barred .system (.blocked clean blocks)
  · have read : disk.read path = .error (.refused cause) := by
      simp only [Disk.read, refused, bind, Except.bind]
    exact read ▸ .barred cause bars

/-- What bars a location has one cause. -/
theorem Bars.unique {path : Path} {cause other : Refusal} (one : disk.Bars path cause)
    (another : disk.Bars path other) : cause = other := by
  -- Only a NUL has a cause of its own, and all else bars spellings without one.
  cases one <;> cases another <;> first | rfl | contradiction

/-- A location with a file is one of the files of the disk. -/
theorem mem_files {path : Path} {bytes : List UInt8}
    (held : disk.entry? path = some (.file bytes)) : (path, bytes) ∈ disk.files := by
  rw [Disk.entry?] at held
  split at held
  · simp at held
  · obtain ⟨front, behind, entries, _⟩ := List.lookup_eq_some_iff.mp held
    simp only [files, entries, List.filterMap_append, List.filterMap_cons]
    simp

/-- The files of a disk are no more than its entries. -/
theorem volumeOf_files_le (disk : Disk) :
    volumeOf (fun file => file.2.length) disk.files ≤ disk.volume := by
  simp only [files, volume]
  induction disk.entries with
  | nil => exact Nat.le_refl 0
  | cons known rest inductionHypothesis =>
    obtain ⟨place, entry⟩ := known
    cases entry with
    | file bytes => exact Nat.add_le_add_left inductionHypothesis _
    | directory => exact Nat.le_add_left_of_le inductionHypothesis

/-- A disk lists its files. -/
theorem lists (tree : disk.IsTree) : disk.provider.Lists disk.files := by
  refine ⟨?_, disk.volumeOf_files_le⟩
  intro path bytes location read
  have found := disk.reads tree location
  simp only [provider] at read
  rw [read] at found
  cases found with
  | file _ _ held => exact mem_files held

/-- An entry that is put below the root is found there, and elsewhere nothing changes. -/
theorem entry?_insert (disk : Disk) {place : Path} (below : place ≠ .root) (entry : Entry)
    (other : Path) : Disk.entry? (disk.insert place entry) other =
      if other = place then some entry else disk.entry? other := by
  by_cases top : other = .root
  · subst top
    rw [if_neg (Ne.symm below)]
    simp [Disk.entry?]
  · simp only [Disk.entry?, insert, if_neg top, List.lookup_cons]
    by_cases same : other = place
    · simp [same]
    · have other : (other == place) = false := by simpa using same
      rw [if_neg same, other]
      exact Memory.lookup_filter_ne disk.entries _ _ same

/-- A child is not the root. -/
theorem child_ne_root (place : Path) (name : Name) : child place name ≠ .root := by
  simp [child, Path.root]

/-- A child tells its directory and its name. -/
theorem child_inj {other : Path} {second : Name} (same : child place name = child other second) :
    place = other ∧ name = second := by
  obtain ⟨absolute, parts⟩ := place
  obtain ⟨otherAbsolute, otherParts⟩ := other
  simpa [child, and_assoc] using same

/-- A disk without entries is a tree. -/
theorem isTree_empty (cwd : Path) : IsTree ⟨cwd, []⟩ := by
  have nothing (place : Path) (name : Name) :
      ¬(Disk.entry? ⟨cwd, []⟩ (child place name)).isSome = true := by
    simp [Disk.entry?, child_ne_root]
  exact ⟨fun place name present => absurd present (nothing place name),
    fun place name present => absurd present (nothing place name)⟩

/-- A directory can take another entry, unless a directory of that name would be lost. -/
theorem IsTree.insert (tree : disk.IsTree) (directory : disk.entry? place = some .directory)
    (short : isTooLong name = false) {entry : Entry}
    (keeps : entry = .directory ∨ disk.entry? (child place name) ≠ some .directory) :
    (disk.insert (child place name) entry).IsTree := by
  have found := disk.entry?_insert (child_ne_root place name) entry
  constructor
  · intro other second present
    rw [found] at present ⊢
    -- The new entry's own directory stands above it; an old one is not replaced by a file.
    by_cases same : child other second = child place name
    · obtain ⟨rfl, rfl⟩ := child_inj same
      have apart : other ≠ child other second := by
        intro equal
        have lengths := congrArg (fun path => path.parts.length) equal
        simp [child] at lengths
      rwa [if_neg apart]
    · rw [if_neg same] at present
      have held := tree.nested other second present
      by_cases above : other = child place name
      · subst above
        rw [if_pos rfl, keeps.resolve_right (absurd held)]
      · rwa [if_neg above]
  · intro other second present
    rw [found] at present
    by_cases same : child other second = child place name
    · obtain ⟨_, rfl⟩ := child_inj same
      exact short
    · rw [if_neg same] at present
      exact tree.named other second present

/-- Creating directories keeps a tree. -/
theorem IsTree.makeDirectories (tree : disk.IsTree) (place : Path) (parts : List Part) :
    (disk.makeDirectories place parts).1.IsTree := by
  -- Only the case of a name that is missing adds an entry.
  fun_induction Disk.makeDirectories disk place parts with
  | case1 | case2 | case5 | case8 => exact tree
  | case3 _ _ _ _ inductionHypothesis => exact inductionHypothesis tree
  | case4 _ _ _ _ inductionHypothesis => exact inductionHypothesis tree
  | case6 _ _ _ _ _ _ _ inductionHypothesis => exact inductionHypothesis tree
  | case7 disk place parts directory name short missing inductionHypothesis =>
    exact inductionHypothesis (tree.insert directory (by simpa using short) (.inl rfl))

/-- Creating the directory of a spelling keeps a tree. -/
theorem IsTree.makeDirectory (tree : disk.IsTree) (spelling : List Char) :
    (disk.makeDirectory spelling).1.IsTree := by
  have made := tree.makeDirectories (disk.start (.ofChars spelling)) (Path.ofChars spelling).parts
  rw [Disk.makeDirectory]
  split
  · exact tree
  · dsimp only
    split
    · rename_i other _ same
      rwa [same] at made
    · rename_i other _ same
      rwa [same] at made

/-- A file is written to the directory that its spelling leads to without the last part, under
the last name, which is not too long and which no directory has. -/
theorem exists_child_of_target {spelling : List Char} {target : Path}
    (found : disk.target spelling = .ok target) :
    ∃ directory name, target = child directory name ∧
      disk.entry? directory = some .directory ∧ isTooLong name = false ∧
      disk.entry? (child directory name) ≠ some .directory ∧
      Path.Spelling.lastName? spelling = some name ∧
      disk.walk (disk.start (.ofChars spelling)) (Path.ofChars spelling).parts.dropLast =
        .ok directory := by
  obtain ⟨_, _, rest⟩ := Itemwise.exists_of_bind_eq_ok found
  cases last : Path.Spelling.lastName? spelling with
  | none =>
    simp only [last] at rest
    obtain ⟨_, _, rest⟩ := Itemwise.exists_of_bind_eq_ok rest
    simp at rest
  | some name =>
    simp only [last] at rest
    obtain ⟨directory, walked, rest⟩ := Itemwise.exists_of_bind_eq_ok rest
    cases held : disk.entry? directory with
    | none => simp [held] at rest
    | some entry =>
      cases entry with
      | file bytes => simp [held] at rest
      | directory =>
        simp only [held] at rest
        by_cases ends : Path.Spelling.endsInSeparator spelling = true ∨ isTooLong name = true
        · simp [ends, bind, Except.bind] at rest
        · rw [if_neg ends] at rest
          have short : isTooLong name = false := by simpa using fun long => ends (.inr long)
          split at rest
          · simp at rest
          · rename_i fits
            obtain rfl := Except.ok.inj rest
            exact ⟨directory, name, rfl, held, short, fits, rfl, walked⟩

/-- Writing keeps a tree, whether it succeeds or fails. -/
theorem IsTree.writeSpelled (tree : disk.IsTree) (spelling : List Char) (bytes : List UInt8) :
    (disk.writeSpelled spelling bytes).1.IsTree := by
  have made : (if (Path.Spelling.parent? spelling).getD [] = [] then (disk, none)
      else disk.makeDirectory ((Path.Spelling.parent? spelling).getD [])).1.IsTree := by
    split
    · exact tree
    · exact tree.makeDirectory _
  rw [Disk.writeSpelled]
  generalize (if (Path.Spelling.parent? spelling).getD [] = [] then (disk, none)
    else disk.makeDirectory ((Path.Spelling.parent? spelling).getD [])) = result at made ⊢
  obtain ⟨other, failed⟩ := result
  cases failed with
  | some fault => exact made
  | none =>
    dsimp only
    split
    · exact made
    · rename_i found
      obtain ⟨directory, name, rfl, held, short, fits, _⟩ := exists_child_of_target found
      exact IsTree.insert made held short (.inr fits)

/-- A disk without files is a tree. -/
theorem isTree_startingAt (cwd : Path) : (startingAt cwd).IsTree :=
  (isTree_empty cwd).makeDirectories .root cwd.parts

end Disk

end MapChain
