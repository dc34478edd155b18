import MapChain.Chain.Output
import MapChain.Proofs.Path.Normal
import MapChain.Proofs.Path.Written

/-!
# The path of a map beside its file

The map of a file lies in the file's own directory, under the file's name with a suffix. Of
the root directory, which has no name, the suffix is the whole name. Seen from that
directory the map is found under its name, and under its text from everywhere.
-/

namespace MapChain

/-- A name goes on to be one with the suffix of maps behind it. -/
theorem isName_append_mapSuffix (text : List Char) (clean : '/' ∉ text) :
    isName (text ++ mapSuffix) = true := by
  have long : 4 ≤ (text ++ mapSuffix).length := by
    rw [List.length_append]
    exact Nat.le_add_left 4 text.length
  have separator : '/' ∉ text ++ mapSuffix := by
    rw [List.mem_append, not_or]
    exact ⟨clean, by decide⟩
  have different (short : List Char) (few : short.length < 4) : text ++ mapSuffix ≠ short := by
    rintro rfl
    omega
  simp only [isName, Bool.and_eq_true, bne_iff_ne, Bool.not_eq_true', List.contains_eq_mem,
    decide_eq_false_iff_not]
  exact ⟨⟨⟨different [] (by decide), different ['.'] (by decide)⟩,
    different ['.', '.'] (by decide)⟩, separator⟩

/-- More text behind the last piece is more text behind the whole. -/
theorem Text.join_concat (separator : Char) (pieces : List (List Char)) (last more : List Char) :
    join separator (pieces ++ [last]) ++ more = join separator (pieces ++ [last ++ more]) := by
  induction pieces with
  | nil => rfl
  | cons piece pieces inductionHypothesis =>
    have parted (last : List Char) : join separator (piece :: (pieces ++ [last])) =
        piece ++ separator :: join separator (pieces ++ [last]) := by
      cases pieces <;> rfl
    rw [List.cons_append, List.cons_append, parted, parted, List.append_assoc,
      List.cons_append, inductionHypothesis]

namespace Path

variable {path : Path}

/-- A location is read back from its text. -/
theorem ofChars_chars_of_isLocation (location : path.IsLocation) : ofChars path.chars = path := by
  refine ofChars_chars path ?_
  rw [IsSpelled, if_pos location.absolute]
  intro member
  obtain ⟨name, impossible⟩ := location.named .here member
  simp at impossible

/-- The map of a file lies in the file's directory under the file's name with the suffix. -/
theorem append_mapSuffix (location : path.IsLocation) : ∃ name : Name,
    name.text = path.fileName ++ mapSuffix ∧
      path.append mapSuffix = ⟨true, path.parent.parts ++ [.name name]⟩ := by
  obtain ⟨absolute, parts⟩ := path
  obtain rfl : absolute = true := location.absolute
  rcases List.eq_nil_or_concat parts with rfl | ⟨front, last, spelled⟩
  · exact ⟨⟨mapSuffix, by decide⟩, rfl, by decide⟩
  · rw [List.concat_eq_append] at spelled
    subst spelled
    obtain ⟨name, rfl⟩ := location.named last (by simp)
    have own : fileName ⟨true, front ++ [.name name]⟩ = name.text := by simp [fileName]
    have valid := isName_append_mapSuffix name.text name.spelling.2.2.2
    have parent : parent ⟨true, front ++ [.name name]⟩ = ⟨true, front⟩ := by simp [parent]
    refine ⟨⟨name.text ++ mapSuffix, valid⟩, by rw [own], ?_⟩
    have written : chars ⟨true, front ++ [.name name]⟩ ++ mapSuffix =
        chars ⟨true, front ++ [.name ⟨name.text ++ mapSuffix, valid⟩]⟩ := by
      simp only [chars, List.map_append, List.map_cons, List.map_nil, List.append_assoc,
        Text.join_concat]
      rfl
    rw [append, written, parent]
    refine ofChars_chars_of_isLocation ⟨rfl, ?_⟩
    intro part member
    rcases List.mem_append.mp member with member | member
    · exact location.named part (by simp [member])
    · exact ⟨_, List.mem_singleton.mp member⟩

/-- The map of a file at a location is at a location. -/
theorem isLocation_append_mapSuffix (location : path.IsLocation) :
    (path.append mapSuffix).IsLocation := by
  obtain ⟨name, _, spelled⟩ := append_mapSuffix location
  rw [spelled]
  refine ⟨rfl, ?_⟩
  intro part member
  rcases List.mem_append.mp member with member | member
  · exact (isLocation_parent path location).named part member
  · exact ⟨_, List.mem_singleton.mp member⟩

/-- The map of a file lies in the file's directory. -/
theorem parent_append_mapSuffix (location : path.IsLocation) :
    (path.append mapSuffix).parent = path.parent := by
  obtain ⟨name, _, spelled⟩ := append_mapSuffix location
  have absolute : path.parent.absolute = true := location.absolute
  rw [spelled, parent, List.dropLast_concat, ← absolute]

/-- The map of a file has the file's name with the suffix. -/
theorem fileName_append_mapSuffix (location : path.IsLocation) :
    (path.append mapSuffix).fileName = path.fileName ++ mapSuffix := by
  obtain ⟨name, named, spelled⟩ := append_mapSuffix location
  rw [spelled, ← named]
  simp [fileName]

/-- A file is not its own map. -/
theorem append_mapSuffix_ne (location : path.IsLocation) : path.append mapSuffix ≠ path := by
  intro same
  have named := fileName_append_mapSuffix location
  rw [same, List.self_eq_append_right] at named
  exact absurd named (by decide)

/-- Seen from its directory the map of a file is found under its name. -/
theorem resolve_fileName_append_mapSuffix (location : path.IsLocation) :
    path.parent.resolve (.ofText (String.ofList (path.append mapSuffix).fileName)) =
      path.append mapSuffix := by
  obtain ⟨name, named, spelled⟩ := append_mapSuffix location
  have own : ofText (String.ofList (path.append mapSuffix).fileName) = ⟨false, [.name name]⟩ := by
    rw [fileName_append_mapSuffix location, ← named, ofText, String.toList_ofList]
    exact ofChars_chars ⟨false, [.name name]⟩ (by simp [IsSpelled])
  have seen : path.parent.under ⟨false, [.name name]⟩ = path.append mapSuffix := by
    have absolute : path.parent.absolute = true := location.absolute
    rw [under_of_relative (ne_empty_of_absolute absolute) (by simp), spelled, ← absolute]
    simp
  rw [own, resolve, seen, normalize_eq_self _ (isLocation_append_mapSuffix location)]

/-- A location is found under its text from everywhere. -/
theorem resolve_text (base : Path) (location : path.IsLocation) :
    base.resolve (.ofText path.text) = path := by
  have read : ofText path.text = path := by
    rw [ofText, text, String.toList_ofList, ofChars_chars_of_isLocation location]
  rw [read, resolve_eq_self base path location]

end Path

end MapChain
