import MapChain.Text.Blank
import Mathlib.Data.List.TakeWhile

/-!
# Blanks at the ends of a text

Trimming takes blanks and nothing else, so a text in front of blanks is trimmed to what it is
trimmed to without them. A text that does not end in a blank is firm: however a line goes on
behind it with blanks, none of the ways to cut a line's end reaches into it.
-/

namespace MapChain.Text

/-- A gap is blank. -/
theorem isBlank_of_isGap {c : Char} (gap : isGap c = true) : isBlank c = true := by
  simp only [isGap, Bool.or_eq_true, beq_iff_eq] at gap
  rcases gap with rfl | rfl <;> decide

/-- A text that ends in a character other than a blank. -/
def IsFirm (text : List Char) : Prop :=
  ∃ front last, text = front ++ [last] ∧ isBlank last = false

/-- A text is firm if nothing else stands at its end. -/
theorem isFirm_of_getLast? {text : List Char} (inhabited : text ≠ [])
    (kept : text.getLast?.any isBlank = false) : IsFirm text := by
  refine ⟨text.dropLast, text.getLast inhabited, ?_, ?_⟩
  · exact (List.dropLast_concat_getLast inhabited).symm
  · simpa [List.getLast?_eq_some_getLast inhabited] using kept

/-- More text in front keeps a text firm. -/
theorem IsFirm.append {text : List Char} (firm : IsFirm text) (before : List Char) :
    IsFirm (before ++ text) := by
  obtain ⟨front, last, rfl, kept⟩ := firm
  exact ⟨before ++ front, last, by simp, kept⟩

/-- A firm text is not empty. -/
theorem IsFirm.ne_nil {text : List Char} (firm : IsFirm text) : text ≠ [] := by
  obtain ⟨front, last, rfl, _⟩ := firm
  simp

/-- Trimming takes blanks from the end of a text and nothing else. -/
theorem exists_trimEnd_append (text : List Char) :
    ∃ blanks, text = trimEnd text ++ blanks ∧ blanks.all isBlank = true := by
  refine ⟨(text.reverse.takeWhile isBlank).reverse, ?_, ?_⟩
  · rw [trimEnd, ← List.reverse_append, List.takeWhile_append_dropWhile, List.reverse_reverse]
  · rw [List.all_reverse]
    exact List.all_takeWhile

/-- Blanks at the end are trimmed. -/
theorem trimEnd_append_blanks (text : List Char) {blanks : List Char}
    (blank : blanks.all isBlank = true) : trimEnd (text ++ blanks) = trimEnd text := by
  have each : ∀ c ∈ blanks.reverse, isBlank c = true := by
    intro c member
    exact List.all_eq_true.mp blank c (List.mem_reverse.mp member)
  rw [trimEnd, List.reverse_append, List.dropWhile_append_of_pos each, trimEnd]

/-- A firm text has no blanks to trim at its end. -/
theorem trimEnd_of_isFirm {text : List Char} (firm : IsFirm text) : trimEnd text = text := by
  obtain ⟨front, last, rfl, kept⟩ := firm
  simp [trimEnd, kept]

/-- Blanks behind a firm text that does not start with one are trimmed, and nothing else. -/
theorem trim_append_blanks {text blanks : List Char} (firm : IsFirm text)
    (starts : text.head?.any isBlank = false) (blank : blanks.all isBlank = true) :
    trim (text ++ blanks) = text := by
  obtain ⟨c, rest, rfl⟩ := List.exists_cons_of_ne_nil firm.ne_nil
  have kept : isBlank c = false := starts
  have started : trimStart (c :: rest ++ blanks) = c :: rest ++ blanks := by
    rw [trimStart, List.cons_append, List.dropWhile_cons_of_neg (by simp [kept])]
  rw [trim, started, trimEnd_append_blanks _ blank, trimEnd_of_isFirm firm]

/-- Nothing is left to trim. -/
theorem trimEnd_trimEnd (text : List Char) : trimEnd (trimEnd text) = trimEnd text := by
  obtain ⟨blanks, whole, blank⟩ := exists_trimEnd_append text
  calc trimEnd (trimEnd text)
      = trimEnd (trimEnd text ++ blanks) := (trimEnd_append_blanks _ blank).symm
    _ = trimEnd text := by rw [← whole]

/-- A character that something other than blanks follows is not trimmed. -/
theorem mem_trimEnd (front : List Char) (c : Char) {rest : List Char} {mark : Char}
    (later : mark ∈ rest) (kept : isBlank mark = false) : c ∈ trimEnd (front ++ c :: rest) := by
  have left : rest.reverse.dropWhile isBlank ≠ [] := by
    intro none
    have blank := List.dropWhile_eq_nil_iff.mp none mark (List.mem_reverse.mpr later)
    simp [kept] at blank
  rw [trimEnd, List.mem_reverse, List.reverse_append, List.reverse_cons, List.append_assoc,
    List.dropWhile_append, if_neg (by simpa using left)]
  simp

end MapChain.Text
