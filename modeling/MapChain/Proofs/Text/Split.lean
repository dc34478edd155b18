import MapChain.Text.Split

/-!
# Cutting what was joined

Joining pieces and cutting the text again gives the same pieces, provided that there is
one at all and that none of them holds the separator. No pieces at all are written as the
empty text, which reads as one empty piece. Nothing but the pieces and the separator
stands in a joined text.
-/

namespace MapChain.Text

/-- Cutting in front of a separator that ends a piece. -/
theorem split_piece (separator : Char) (piece rest : List Char) (clean : separator ∉ piece) :
    split separator (piece ++ separator :: rest) = piece :: split separator rest := by
  induction piece with
  | nil => simp [split]
  | cons c piece inductionHypothesis =>
    have different : c ≠ separator := by
      intro same
      exact clean (by simp [same])
    have tailClean : separator ∉ piece := fun member => clean (List.mem_cons_of_mem c member)
    simp [split, different, inductionHypothesis tailClean]

/-- A text without separator is one piece. -/
theorem split_clean (separator : Char) (piece : List Char) (clean : separator ∉ piece) :
    split separator piece = [piece] := by
  induction piece with
  | nil => rfl
  | cons c piece inductionHypothesis =>
    have different : c ≠ separator := by
      intro same
      exact clean (by simp [same])
    have tailClean : separator ∉ piece := fun member => clean (List.mem_cons_of_mem c member)
    simp [split, different, inductionHypothesis tailClean]

/-- Cutting a text at a separator cuts both sides of it. -/
theorem split_append (separator : Char) (text rest : List Char) :
    split separator (text ++ separator :: rest) =
      split separator text ++ split separator rest := by
  induction text with
  | nil => simp [split]
  | cons c text inductionHypothesis =>
    by_cases same : c = separator
    · simp [split, same, inductionHypothesis]
    · obtain ⟨piece, pieces, cut⟩ := List.exists_cons_of_ne_nil (split_ne_nil separator text)
      rw [cut, List.cons_append] at inductionHypothesis
      simp [split, same, inductionHypothesis, cut]

/-- A text without separator in front of another one belongs to that one's first piece. -/
theorem split_append_clean {separator : Char} {front rest first : List Char}
    {others : List (List Char)} (clean : separator ∉ front)
    (cut : split separator rest = first :: others) :
    split separator (front ++ rest) = (front ++ first) :: others := by
  induction front with
  | nil => exact cut
  | cons c front inductionHypothesis =>
    rw [List.mem_cons, not_or] at clean
    obtain ⟨different, behind⟩ := clean
    rw [List.cons_append, split, if_neg (Ne.symm different), inductionHypothesis behind]
    rfl

/-- The first piece of a text reaches up to the separator, and the others are parts of the
text. -/
theorem exists_split_eq_cons (separator : Char) (text : List Char) : ∃ others,
    split separator text = text.takeWhile (· ≠ separator) :: others ∧
      ∀ piece ∈ others, piece ⊆ text := by
  induction text with
  | nil => exact ⟨[], rfl, by simp⟩
  | cons c text inductionHypothesis =>
    obtain ⟨others, cut, parts⟩ := inductionHypothesis
    by_cases same : c = separator
    · refine ⟨split separator text, by simp [split, same], ?_⟩
      rw [cut]
      intro piece member
      rcases List.mem_cons.mp member with rfl | later
      · exact List.subset_cons_of_subset c (List.takeWhile_sublist _).subset
      · exact List.subset_cons_of_subset c (parts piece later)
    · refine ⟨others, by simp [split, same, cut], ?_⟩
      intro piece member
      exact List.subset_cons_of_subset c (parts piece member)

/-- A piece of a text is a part of it. -/
theorem subset_of_mem_split {separator : Char} {text piece : List Char}
    (member : piece ∈ split separator text) : piece ⊆ text := by
  obtain ⟨others, cut, parts⟩ := exists_split_eq_cons separator text
  rw [cut] at member
  rcases List.mem_cons.mp member with rfl | later
  · exact (List.takeWhile_sublist _).subset
  · exact parts piece later

/-- Cutting a joined text gives back its pieces. -/
theorem split_join (separator : Char) (pieces : List (List Char)) (inhabited : pieces ≠ [])
    (clean : ∀ piece ∈ pieces, separator ∉ piece) :
    split separator (join separator pieces) = pieces := by
  induction pieces with
  | nil => exact absurd rfl inhabited
  | cons piece rest inductionHypothesis =>
    have pieceClean : separator ∉ piece := clean piece (by simp)
    cases rest with
    | nil => exact split_clean separator piece pieceClean
    | cons next rest =>
      have tail : split separator (join separator (next :: rest)) = next :: rest :=
        inductionHypothesis (by simp) fun other member => clean other (by simp [member])
      rw [join, split_piece separator piece _ pieceClean, tail]

/-- A character of a joined text is the separator or one of a piece. -/
theorem mem_join (separator c : Char) (pieces : List (List Char))
    (member : c ∈ join separator pieces) : c = separator ∨ ∃ piece ∈ pieces, c ∈ piece := by
  induction pieces with
  | nil => simp [join] at member
  | cons piece pieces inductionHypothesis =>
    cases pieces with
    | nil => exact .inr ⟨piece, by simp, member⟩
    | cons next pieces =>
      simp only [join, List.mem_append, List.mem_cons] at member
      rcases member with first | same | rest
      · exact .inr ⟨piece, by simp, first⟩
      · exact .inl same
      · rcases inductionHypothesis rest with same | ⟨other, later, inside⟩
        · exact .inl same
        · exact .inr ⟨other, by simp [later], inside⟩

end MapChain.Text
