/-!
# Splitting and joining at a separator

Lines, mapping lists and paths are all sequences of pieces between one separating
character. `split` cuts such a sequence, `join` writes it back, and `join_split`
says that cutting loses nothing. The empty text is one empty piece.
-/

namespace MapChain.Text

/-- The pieces of `text` between occurrences of `separator`, empty ones included. -/
def split (separator : Char) : List Char → List (List Char)
  | [] => [[]]
  | c :: rest =>
    if c = separator then [] :: split separator rest
    else
      match split separator rest with
      | [] => [[c]]
      | piece :: pieces => (c :: piece) :: pieces

/-- The pieces written one after the other with `separator` between them. -/
def join (separator : Char) : List (List Char) → List Char
  | [] => []
  | [piece] => piece
  | piece :: next :: pieces => piece ++ separator :: join separator (next :: pieces)

/-- A text has at least one piece. -/
theorem split_ne_nil (separator : Char) (text : List Char) : split separator text ≠ [] := by
  cases text with
  | nil => simp [split]
  | cons c rest =>
    simp only [split]
    split
    · simp
    · split <;> simp

/-- Joining the pieces of a text gives the text back. -/
theorem join_split (separator : Char) (text : List Char) :
    join separator (split separator text) = text := by
  induction text with
  | nil => rfl
  | cons c rest ih =>
    simp only [split]
    split
    · rename_i same
      cases pieces : split separator rest with
      | nil => exact absurd pieces (split_ne_nil separator rest)
      | cons piece others => simp [join, ← pieces, ih, same]
    · cases pieces : split separator rest with
      | nil => exact absurd pieces (split_ne_nil separator rest)
      | cons piece others =>
        cases others with
        | nil => simpa [join, pieces] using ih
        | cons next others => simpa [join, pieces] using ih

/-- No piece holds the separator. -/
theorem not_mem_of_mem_split (separator : Char) (text piece : List Char)
    (member : piece ∈ split separator text) : separator ∉ piece := by
  induction text generalizing piece with
  | nil => simp_all [split]
  | cons c rest ih =>
    simp only [split] at member
    split at member
    · rcases List.mem_cons.mp member with rfl | later
      · simp
      · exact ih piece later
    · rename_i different
      cases pieces : split separator rest with
      | nil => exact absurd pieces (split_ne_nil separator rest)
      | cons first others =>
        rw [pieces] at member ih
        rcases List.mem_cons.mp member with rfl | later
        · have inner := ih first (by simp)
          simp only [List.mem_cons, not_or]
          exact ⟨fun same => different same.symm, inner⟩
        · exact ih piece (by simp [later])

end MapChain.Text
