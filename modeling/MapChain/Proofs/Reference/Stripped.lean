import MapChain.Proofs.Reference.Comment

/-!
# What stripping takes away

Stripping a content takes blanks from its end and at most one stretch of other text, which
stands on one line, opens like a reference comment and ends the content up to blanks. A line
comment reaches to the end of its line anyway. A block comment is taken up to the last closing
mark, not up to the first one. So whatever stands on the line between a block comment and the
last closing mark is taken with it, code and further comments included.
-/

namespace MapChain

namespace Reference

/-- A text that opens like a reference comment and goes on to its end on one line. If it is a
block comment, it ends with a closing mark, which need not be its only one. -/
inductive IsStretch : List Char → Prop where
  | line {text value : List Char} (opened : open? text = some (.line, value))
      (within : value.all (fun c => !Text.isLineEnd c) = true) : IsStretch text
  | block {text value : List Char} (opened : open? text = some (.block, value ++ "*/".toList))
      (within : value.all (fun c => !Text.isLineEnd c) = true) : IsStretch text

/-- A single reference comment: if it is a block comment, its only closing mark is at its
end. -/
structure IsComment (text : List Char) : Prop where
  stretch : IsStretch text
  closed : ∀ value, open? text = some (.block, value) →
    ∀ before behind, text = before ++ "*/".toList ++ behind → behind = []

/-- Stripping a content takes blanks from it and, between them, at most one text of a kind. -/
def StripsOnly (Kind : List Char → Prop) (content : String) : Prop :=
  ∃ before taken behind,
    content.toList = (strip content).toList ++ (before ++ (taken ++ behind)) ∧
      before.all Text.isBlank = true ∧ behind.all Text.isBlank = true ∧
      (taken = [] ∨ Kind taken)

/-- What opens a comment does so in front of any other text as well. -/
theorem exists_opening {text value : List Char} {style : CommentStyle}
    (opened : open? text = some (style, value)) : ∃ opening, text = opening ++ value ∧
      ∀ other, open? (opening ++ other) = some (style, other) := by
  obtain ⟨second, sign, rest, rfl, styled, signed, keyed⟩ := open?_cases opened
  have gaps : rest.takeWhile Text.isGap ++ (keyword ++ value) = rest := by
    rw [keyed, List.takeWhile_append_dropWhile]
  refine ⟨'/' :: second :: sign :: (rest.takeWhile Text.isGap ++ keyword), ?_, ?_⟩
  · conv => lhs; rw [← gaps]
    simp
  · intro other
    have gap : ∀ c ∈ rest.takeWhile Text.isGap, Text.isGap c = true :=
      List.all_eq_true.mp List.all_takeWhile
    have word : keyword.isPrefixOf? ((keyword ++ other).dropWhile Text.isGap) = some other := rfl
    simp only [List.cons_append, List.append_assoc, open?, styled, if_pos signed,
      List.dropWhile_append_of_pos gap, word, Option.map_some]

/-- A comment that ends a text is a stretch of it in front of blanks. -/
theorem exists_stretch_of_endsText {text value : List Char} {style : CommentStyle}
    (opened : open? text = some (style, value)) (ends : endsText style value = true) :
    ∃ taken behind, text = taken ++ behind ∧ behind.all Text.isBlank = true ∧
      IsStretch taken := by
  obtain ⟨opening, rfl, opens⟩ := exists_opening opened
  cases style with
  | line =>
    refine ⟨opening ++ value.takeWhile (fun c => !Text.isLineEnd c),
      value.dropWhile (fun c => !Text.isLineEnd c), ?_, ends, .line (opens _) List.all_takeWhile⟩
    rw [List.append_assoc, List.takeWhile_append_dropWhile]
  | block =>
    obtain ⟨blanks, whole, blank⟩ := Text.exists_trimEnd_append value
    rw [endsText] at ends
    split at ends
    · rename_i inner turned
      have closed := eq_append_closing turned
      have whole' : opening ++ value = opening ++ Text.trimEnd value ++ blanks := by
        rw [List.append_assoc, ← whole]
      have opened' : open? (opening ++ Text.trimEnd value) =
          some (.block, inner.reverse ++ "*/".toList) := closed ▸ opens (Text.trimEnd value)
      have within : inner.reverse.all (fun c => !Text.isLineEnd c) = true := by
        rw [List.all_reverse]
        exact ends
      exact ⟨opening ++ Text.trimEnd value, blanks, whole', blank, .block opened' within⟩
    · simp at ends

/-- Behind what stands in front of the comment that ends a text there are only a stretch, if
there is such a comment, and blanks. -/
theorem exists_beforeLast_append (text : List Char) : ∃ taken behind,
    text = beforeLast text ++ (taken ++ behind) ∧ behind.all Text.isBlank = true ∧
      (taken = [] ∨ IsStretch taken) := by
  induction text with
  | nil => exact ⟨[], [], rfl, rfl, .inl rfl⟩
  | cons c text inductionHypothesis =>
    obtain ⟨taken, behind, whole, blank, kind⟩ := inductionHypothesis
    have later : c :: text = (c :: beforeLast text) ++ (taken ++ behind) :=
      congrArg (c :: ·) whole
    rw [beforeLast]
    split
    · rename_i style value opened
      by_cases ends : endsText style value = true
      · obtain ⟨stretch, blanks, same, blank, isStretch⟩ := exists_stretch_of_endsText opened ends
        rw [if_pos ends]
        exact ⟨stretch, blanks, same, blank, .inr isStretch⟩
      · rw [if_neg ends]
        exact ⟨taken, behind, later, blank, kind⟩
    · exact ⟨taken, behind, later, blank, kind⟩

/-- Stripping takes blanks and at most one stretch of a single line, which opens like a
reference comment and, if that is a block comment, ends with a closing mark. -/
theorem strip_takes_stretch (content : String) : StripsOnly IsStretch content := by
  obtain ⟨taken, behind, whole, blank, kind⟩ := exists_beforeLast_append content.toList
  obtain ⟨before, trimmed, beforeBlank⟩ :=
    Text.exists_trimEnd_append (beforeLast content.toList)
  refine ⟨before, taken, behind, ?_, beforeBlank, blank, kind⟩
  rw [strip, String.toList_ofList, ← List.append_assoc, ← trimmed, ← whole]

/-- A block comment, code behind it, and another comment at the end of the line. -/
def commentedLine : String := "/*# sourceMappingURL=a.map */ run(); /* done */"

/-- Nothing is left of such a line, although no reference comment ends it. -/
theorem not_strip_takes_comment : strip commentedLine = "" ∧
    ¬StripsOnly IsComment commentedLine := by
  have nothing : strip commentedLine = "" := by decide +kernel
  have noBlank : Text.isBlank '/' = false := by decide
  refine ⟨nothing, ?_⟩
  rintro ⟨before, taken, behind, whole, beforeBlank, behindBlank, kind⟩
  rw [nothing] at whole
  -- The line starts and ends with a slash, so no blanks were taken.
  obtain rfl : before = [] := by
    cases before with
    | nil => rfl
    | cons c before =>
      obtain rfl : '/' = c := (List.cons.inj whole).1
      simp [noBlank] at beforeBlank
  obtain rfl : behind = [] := by
    rcases List.eq_nil_or_concat behind with none | ⟨front, c, rfl⟩
    · exact none
    · have last : commentedLine.toList.getLast? = some c := by simp [whole]
      obtain rfl : '/' = c := Option.some.inj (Eq.trans (by decide +kernel) last)
      simp [noBlank] at behindBlank
  obtain rfl : commentedLine.toList = taken := by simpa using whole
  have opened : open? commentedLine.toList =
      some (.block, "a.map */ run(); /* done */".toList) := by decide +kernel
  rcases kind with none | single
  · exact absurd none (by decide)
  · have impossible := single.closed _ opened "/*# sourceMappingURL=a.map ".toList
      " run(); /* done */".toList (by decide)
    exact absurd impossible (by decide)

end Reference

end MapChain
