import MapChain.Path.Basic
import MapChain.Proofs.Text.Split

/-!
# Reading written paths

A path reads back from its text if it refers to the directory itself at most at the front
and only where it is relative. That is the form in which every path is read, so nothing
is lost by writing a path that was read.
-/

namespace MapChain

/-- A name is neither void nor one of the two references, and holds no separator. -/
theorem Name.spelling (name : Name) :
    name.text ≠ [] ∧ name.text ≠ ['.'] ∧ name.text ≠ ['.', '.'] ∧ '/' ∉ name.text := by
  have valid := name.valid
  simp only [isName, Bool.and_eq_true, bne_iff_ne, Bool.not_eq_true', List.contains_eq_mem,
    decide_eq_false_iff_not] at valid
  exact ⟨valid.1.1.1, valid.1.1.2, valid.1.2, valid.2⟩

namespace Part

/-- The text of a part holds no separator. -/
theorem separator_not_mem_text (part : Part) : '/' ∉ part.text := by
  cases part with
  | here => decide
  | up => decide
  | name name => exact name.spelling.2.2.2

/-- The text of a part is not empty. -/
theorem text_ne_nil (part : Part) : part.text ≠ [] := by
  cases part with
  | here => decide
  | up => decide
  | name name => exact name.spelling.1

/-- Only the reference to the directory itself is written as a point. -/
theorem text_eq_point_iff (part : Part) : part.text = ['.'] ↔ part = .here := by
  cases part with
  | here => decide
  | up => decide
  | name name => simpa [text] using name.spelling.2.1

/-- A part other than the directory itself reads back from its text. -/
theorem ofPiece?_text (part : Part) (distinct : part ≠ .here) :
    ofPiece? part.text = some part := by
  cases part with
  | here => exact absurd rfl distinct
  | up => rfl
  | name name => simp [ofPiece?, text, name.spelling.2.2.1, name.valid]

/-- Parts read back from their texts, references to the directory itself apart. -/
theorem filterMap_ofPiece?_text (parts : List Part) (distinct : .here ∉ parts) :
    (parts.map text).filterMap ofPiece? = parts := by
  induction parts with
  | nil => rfl
  | cons part parts inductionHypothesis =>
    have first : part ≠ .here := fun same => distinct (by simp [same])
    have rest : .here ∉ parts := fun member => distinct (List.mem_cons_of_mem part member)
    simp [ofPiece?_text part first, inductionHypothesis rest]

end Part

namespace Path

/-- A path whose only reference to the directory itself leads a relative path. -/
def IsSpelled (path : Path) : Prop :=
  .here ∉ if path.absolute then path.parts else path.parts.tail

/-- The pieces of a written sequence of parts are their texts. -/
theorem split_join_text (parts : List Part) (inhabited : parts ≠ []) :
    Text.split '/' (Text.join '/' (parts.map Part.text)) = parts.map Part.text := by
  refine Text.split_join '/' _ (by simpa using inhabited) ?_
  intro piece member
  obtain ⟨part, _, rfl⟩ := List.mem_map.mp member
  exact part.separator_not_mem_text

/-- A text of parts does not start with a separator. -/
theorem head?_join_text (parts : List Part) :
    (Text.join '/' (parts.map Part.text)).head? ≠ some '/' := by
  cases parts with
  | nil => simp [Text.join]
  | cons part parts =>
    obtain ⟨c, rest, spelled⟩ := List.exists_cons_of_ne_nil part.text_ne_nil
    have clean : '/' ∉ part.text := part.separator_not_mem_text
    have different : c ≠ '/' := by
      intro same
      exact clean (by simp [spelled, same])
    cases parts <;> simpa [Text.join, spelled] using different

/-- A path reads back from its text. -/
theorem ofChars_chars (path : Path) (spelled : path.IsSpelled) : ofChars path.chars = path := by
  obtain ⟨absolute, parts⟩ := path
  cases absolute with
  | true =>
    have distinct : .here ∉ parts := by simpa [IsSpelled] using spelled
    cases parts with
    | nil => decide
    | cons part parts =>
      have pieces : Text.split '/' ('/' :: Text.join '/' ((part :: parts).map Part.text)) =
          [] :: (part :: parts).map Part.text := by
        rw [Text.split, if_pos rfl, split_join_text _ (by simp)]
      have void : Part.ofPiece? [] = none := by decide
      simp only [ofChars, chars, if_true, List.singleton_append, List.head?_cons, pieces,
        List.filterMap_cons, void, Part.filterMap_ofPiece?_text _ distinct]
  | false =>
    cases parts with
    | nil => decide
    | cons part parts =>
      have distinct : .here ∉ parts := by simpa [IsSpelled] using spelled
      have written : chars ⟨false, part :: parts⟩ =
          Text.join '/' ((part :: parts).map Part.text) := rfl
      have relative : (chars ⟨false, part :: parts⟩).head? ≠ some '/' :=
        written ▸ head?_join_text (part :: parts)
      have pieces : Text.split '/' (chars ⟨false, part :: parts⟩) =
          part.text :: parts.map Part.text :=
        written ▸ split_join_text (part :: parts) (by simp)
      simp only [ofChars, relative, if_false, pieces, List.head?_cons, Option.some.injEq,
        Part.text_eq_point_iff]
      by_cases point : part = .here
      · subst point
        have void : Part.ofPiece? Part.here.text = none := by decide
        simp only [if_true, List.filterMap_cons, void, Part.filterMap_ofPiece?_text _ distinct]
      · simp only [point, if_false, List.filterMap_cons, Part.ofPiece?_text part point,
          Part.filterMap_ofPiece?_text _ distinct]

/-- A path reads back from its text. -/
theorem ofText_text (path : Path) (spelled : path.IsSpelled) : ofText path.text = path := by
  simp [ofText, text, ofChars_chars path spelled]

end Path

end MapChain
