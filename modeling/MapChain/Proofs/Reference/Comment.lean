import MapChain.Reference
import MapChain.Proofs.Text.Blank
import MapChain.Proofs.Text.Length
import MapChain.Proofs.Text.Split

/-!
# Comments at the end of a text

A reference comment that stands on a line of its own behind any text, with nothing but blanks
behind it, is looked at twice. Stripping takes it away together with the blanks around it,
whatever blanks these are. Nothing in the text can come in between, because a comment that
opens in front of this one has a line end behind it.

Locating looks at the line of the comment alone, and is less tolerant of what stands on that
line behind the comment. A carriage return that does not end the line hides the comment, and
the text then has the reference that it had without it. A closing mark counts as such only in
front of gaps: in front of any other blank it is read as a part of the value. Where only gaps
follow up to the end of the line, both agree on what the comment is.
-/

namespace MapChain.Reference

/-- A comment opens with two marks, a sign, gaps and the keyword. -/
theorem open?_cases {text value : List Char} {style : CommentStyle}
    (opened : open? text = some (style, value)) : ∃ second sign rest,
      text = '/' :: second :: sign :: rest ∧ style? second = some style ∧
        (sign = '#' ∨ sign = '@') ∧ keyword ++ value = rest.dropWhile Text.isGap := by
  rw [open?.eq_def] at opened
  split at opened
  · rename_i second sign rest
    split at opened
    · rename_i own styled
      split at opened
      · rename_i signed
        obtain ⟨found, spelled, same⟩ := Option.map_eq_some_iff.mp opened
        obtain ⟨rfl, rfl⟩ := Prod.mk.inj same
        exact ⟨second, sign, rest, rfl, styled, signed,
          Text.append_of_isPrefixOf? spelled⟩
      · simp at opened
    · simp at opened
  · simp at opened

/-- A comment that opens in front of a line end goes on behind it. -/
theorem exists_of_open?_append {text rest value : List Char} {style : CommentStyle} {mark : Char}
    (ends : Text.isLineEnd mark = true)
    (opened : open? (text ++ mark :: rest) = some (style, value)) :
    ∃ front, value = front ++ mark :: rest := by
  have foreign : mark ≠ '/' ∧ style? mark = none ∧ mark ≠ '#' ∧ mark ≠ '@' ∧
      Text.isGap mark = false ∧ mark ∉ keyword := by
    rw [Text.isLineEnd, Bool.or_eq_true, beq_iff_eq, beq_iff_eq] at ends
    rcases ends with rfl | rfl <;> decide
  obtain ⟨notSlash, noStyle, notNumber, notAt, noGap, notInside⟩ := foreign
  obtain ⟨second, sign, behind, spelled, styled, signed, keyed⟩ := open?_cases opened
  -- None of the three marks is the line end, so all of them stand in front of it.
  rcases text with _ | ⟨_, _ | ⟨_, _ | ⟨_, more⟩⟩⟩
  · exact absurd (List.cons.inj spelled).1 notSlash
  · obtain ⟨_, rfl, _⟩ : _ ∧ mark = second ∧ _ := by simpa using spelled
    simp [noStyle] at styled
  · obtain ⟨_, _, rfl, _⟩ : _ ∧ _ ∧ mark = sign ∧ _ := by simpa using spelled
    simp [notNumber, notAt] at signed
  · obtain ⟨_, _, _, rfl⟩ : _ ∧ _ ∧ _ ∧ more ++ mark :: rest = behind := by simpa using spelled
    obtain ⟨inner, gaps⟩ : ∃ inner,
        (more ++ mark :: rest).dropWhile Text.isGap = inner ++ mark :: rest := by
      rw [List.dropWhile_append]
      split
      · exact ⟨[], List.dropWhile_cons_of_neg (by simp [noGap])⟩
      · exact ⟨_, rfl⟩
    rw [gaps] at keyed
    rcases List.append_eq_append_iff.mp keyed with ⟨front, _, same⟩ | ⟨front, word, same⟩
    · exact ⟨front, same⟩
    · cases front with
      | nil => exact ⟨[], by simpa using same.symm⟩
      | cons c front =>
        obtain ⟨rfl, _⟩ := List.cons.inj same
        exact absurd (by simp [word]) notInside

/-- A text that starts with a closing mark from behind ends with it. -/
theorem eq_append_closing {text inner : List Char}
    (turned : text.reverse = '/' :: '*' :: inner) : text = inner.reverse ++ "*/".toList := by
  have back := congrArg List.reverse turned
  rwa [List.reverse_reverse, List.reverse_cons, List.reverse_cons, List.append_assoc] at back

/-- A carriage return at the end of a line is looked for behind a firm text only. -/
theorem withoutReturn_append {text : List Char} (firm : Text.IsFirm text) (rest : List Char) :
    withoutReturn (text ++ rest) = text ++ withoutReturn rest := by
  obtain ⟨front, last, rfl, kept⟩ := firm
  rcases List.eq_nil_or_concat rest with rfl | ⟨before, c, rfl⟩
  · have other : last ≠ '\r' := by
      rintro rfl
      exact absurd kept (by decide)
    simp [withoutReturn, other]
  · by_cases same : c = '\r' <;> simp [withoutReturn, same]

/-- A line loses its last character if that is a carriage return, and nothing else. -/
theorem withoutReturn_concat (front : List Char) (last : Char) :
    withoutReturn (front ++ [last]) = if last = '\r' then front else front ++ [last] := by
  by_cases final : last = '\r' <;> simp [withoutReturn, final]

/-- A carriage return that is left in a line is not the last character. -/
theorem exists_of_mem_withoutReturn {rest : List Char} (left : '\r' ∈ withoutReturn rest) :
    ∃ before after, rest = before ++ '\r' :: after ∧ after ≠ [] := by
  rcases List.eq_nil_or_concat rest with rfl | ⟨front, last, spelled⟩
  · simp [withoutReturn] at left
  · rw [List.concat_eq_append] at spelled
    subst spelled
    have inside : '\r' ∈ front := by
      rw [withoutReturn_concat] at left
      by_cases final : last = '\r'
      · simpa [final] using left
      · simpa [final, Ne.symm final] using left
    obtain ⟨before, after, rfl⟩ := List.append_of_mem inside
    exact ⟨before, after ++ [last], by simp, by simp⟩

/-- Blanks without a carriage return at their end are blanks. -/
theorem all_isBlank_withoutReturn {rest : List Char} (blank : rest.all Text.isBlank = true) :
    (withoutReturn rest).all Text.isBlank = true := by
  rcases List.eq_nil_or_concat rest with rfl | ⟨front, last, spelled⟩
  · rfl
  · rw [List.concat_eq_append] at spelled
    subst spelled
    rw [withoutReturn_concat]
    split
    · rw [List.all_append, Bool.and_eq_true] at blank
      exact blank.1
    · exact blank

/-- Gaps at the end of a line are looked for behind a firm text only. -/
theorem withoutGaps_append {text : List Char} (firm : Text.IsFirm text) (rest : List Char) :
    withoutGaps (text ++ rest) = text ++ withoutGaps rest := by
  obtain ⟨front, last, rfl, kept⟩ := firm
  have noGap : Text.isGap last = false := by
    refine Bool.eq_false_iff.mpr fun gap => ?_
    exact absurd (Text.isBlank_of_isGap gap) (by simp [kept])
  simp only [withoutGaps, List.reverse_append, List.dropWhile_append]
  split
  · rename_i nothing
    rw [List.isEmpty_iff] at nothing
    simp [nothing, noGap]
  · simp

/-- Nothing but gaps is left out altogether. -/
theorem withoutGaps_eq_nil_iff {rest : List Char} :
    withoutGaps rest = [] ↔ rest.all Text.isGap = true := by
  simp [withoutGaps, List.dropWhile_eq_nil_iff]

/-- Blanks without the gaps at their end are blanks. -/
theorem all_isBlank_withoutGaps {rest : List Char} (blank : rest.all Text.isBlank = true) :
    (withoutGaps rest).all Text.isBlank = true := by
  apply List.all_eq_true.mpr
  intro c member
  have inside := (List.dropWhile_sublist _).subset (List.mem_reverse.mp member)
  exact List.all_eq_true.mp blank c (List.mem_reverse.mp inside)

/-- A line whose blanks are no gaps behind a closing mark loses only gaps. -/
theorem withoutClosing_append {text rest : List Char} (firm : Text.IsFirm text)
    (unclosed : ¬(rest.all Text.isGap = true ∧ "*/".toList <:+ text))
    (blank : rest.all Text.isBlank = true) :
    withoutClosing (text ++ rest) = text ++ withoutGaps rest := by
  rw [withoutClosing, withoutGaps_append firm]
  split
  · rename_i reversed turned
    have closed := eq_append_closing turned
    rcases List.eq_nil_or_concat (withoutGaps rest) with none | ⟨front, c, last⟩
    · rw [none, List.append_nil] at closed
      exact absurd ⟨withoutGaps_eq_nil_iff.mp none, _, closed.symm⟩ unclosed
    · -- The line ends in a blank, which is no part of a closing mark.
      have whole : (text ++ front) ++ [c] = (reversed.reverse ++ ['*']) ++ ['/'] := by
        simpa [last] using closed
      obtain rfl : c = '/' := (List.append_singleton_inj.mp whole).2
      have inside : '/' ∈ withoutGaps rest := by simp [last]
      exact absurd (List.all_eq_true.mp (all_isBlank_withoutGaps blank) _ inside) (by decide)
  · rfl

/-- A line that ends in a closing mark and gaps loses both. -/
theorem withoutClosing_closed (text : List Char) {rest : List Char}
    (gaps : rest.all Text.isGap = true) :
    withoutClosing (text ++ "*/".toList ++ rest) = withoutGaps text := by
  have firm : Text.IsFirm (text ++ "*/".toList) :=
    ⟨text ++ ['*'], '/', by simp, by decide⟩
  have turned : (text ++ "*/".toList).reverse = '/' :: '*' :: text.reverse := by simp
  rw [withoutClosing, withoutGaps_append firm, withoutGaps_eq_nil_iff.mpr gaps, List.append_nil,
    turned]
  simp

/-- A text without a slash opens no comment. -/
theorem ofLine?_eq_none {text : List Char} (clean : '/' ∉ text) : ofLine? text = none := by
  induction text with
  | nil => rfl
  | cons c text inductionHypothesis =>
    rw [List.mem_cons, not_or] at clean
    have closed : open? (c :: text) = none := by
      cases opened : open? (c :: text) with
      | none => rfl
      | some found =>
        obtain ⟨_, _, _, spelled, _⟩ := open?_cases opened
        exact absurd (List.cons.inj spelled).1.symm clean.1
    simp only [ofLine?, closed, Option.bind_none]
    exact inductionHypothesis clean.2

/-- A carriage return inside a line hides all comments in front of it. -/
theorem ofLine?_append_return (text : List Char) {rest : List Char} (inside : rest ≠ [])
    (clean : '/' ∉ rest) : ofLine? (text ++ '\r' :: rest) = none := by
  induction text with
  | nil => exact ofLine?_eq_none (by simpa using clean)
  | cons c text inductionHypothesis =>
    have hidden : (open? (c :: (text ++ '\r' :: rest))).bind (fun found => value? found.2) =
        none := by
      cases opened : open? (c :: (text ++ '\r' :: rest)) with
      | none => rfl
      | some found =>
        rw [← List.cons_append] at opened
        obtain ⟨front, same⟩ := exists_of_open?_append (by decide) opened
        obtain ⟨before, last, rfl⟩ : ∃ before last, rest = before ++ [last] := by
          simpa using (List.eq_nil_or_concat rest).resolve_left inside
        have kept : '\r' ∈ withoutReturn found.2 := by
          by_cases final : last = '\r' <;> simp [same, withoutReturn, final]
        simp [value?, kept]
    rw [List.cons_append, ofLine?, hidden]
    exact inductionHypothesis

/-- A reference comment in any of its forms. -/
structure Comment where
  style : CommentStyle
  /-- The number sign, or the at sign that older comments have. -/
  sign : Char
  /-- The gaps in front of the keyword. -/
  lead : List Char
  value : List Char
  /-- The blanks between the value and the closing mark of a block comment. -/
  trail : List Char
  signed : sign = '#' ∨ sign = '@'
  gaps : lead.all Text.isGap = true
  spaced : trail.all (fun c => Text.isBlank c && !Text.isLineEnd c) = true
  inhabited : value ≠ []
  starts : value.head?.any Text.isBlank = false
  ends : value.getLast?.any Text.isBlank = false
  within : value.all (fun c => !Text.isLineEnd c) = true
  unclosed : ¬"*/".toList <:+ value

namespace Comment

/-- A comment as it is mostly written, with a number sign and one space around each part. -/
def usual (style : CommentStyle) (value : List Char) (inhabited : value ≠ [])
    (starts : value.head?.any Text.isBlank = false) (ends : value.getLast?.any Text.isBlank = false)
    (within : value.all (fun c => !Text.isLineEnd c) = true) (unclosed : ¬"*/".toList <:+ value) :
    Comment where
  style
  sign := '#'
  lead := [' ']
  value
  trail := [' ']
  signed := .inl rfl
  gaps := by decide
  spaced := by decide
  inhabited
  starts
  ends
  within
  unclosed

/-- The character that tells the style of a comment. -/
def mark : CommentStyle → Char
  | .line => '/'
  | .block => '*'

variable (comment : Comment)

/-- The comment up to its value. -/
def opening : List Char := '/' :: mark comment.style :: comment.sign :: (comment.lead ++ keyword)

/-- What stands in the comment behind its keyword: the value, and in a block comment the closing
mark. -/
def body : List Char :=
  match comment.style with
  | .line => comment.value
  | .block => comment.value ++ (comment.trail ++ "*/".toList)

/-- The comment as it is written. -/
def chars : List Char := comment.opening ++ comment.body

/-- A text with the comment on a line of its own behind it, and more behind that. -/
def behind (text : String) (blanks : List Char) : String :=
  text ++ String.ofList ('\n' :: (comment.chars ++ blanks))

/-- The value that is read on a line where `rest` stands behind the comment. -/
def valueBefore? (rest : List Char) : Option (List Char) :=
  let rest := withoutReturn rest
  if rest.contains '\r' then none
  else if rest.all Text.isGap then some comment.value
  else some comment.body

/-- A comment opens as what it is. -/
theorem open?_chars (rest : List Char) :
    open? (comment.chars ++ rest) = some (comment.style, comment.body ++ rest) := by
  have gap : ∀ c ∈ comment.lead, Text.isGap c = true := List.all_eq_true.mp comment.gaps
  have styled : style? (mark comment.style) = some comment.style := by
    cases comment.style <;> rfl
  have word (rest : List Char) :
      keyword.isPrefixOf? ((keyword ++ rest).dropWhile Text.isGap) = some rest := rfl
  simp only [chars, opening, List.cons_append, List.append_assoc, open?, styled,
    if_pos comment.signed, List.dropWhile_append_of_pos gap, word, Option.map_some]

/-- A value is firm. -/
theorem isFirm_value : Text.IsFirm comment.value :=
  Text.isFirm_of_getLast? comment.inhabited comment.ends

/-- What stands in a comment behind its keyword is firm. -/
theorem isFirm_body : Text.IsFirm comment.body := by
  rw [body]
  split
  · exact comment.isFirm_value
  · refine ⟨comment.value ++ (comment.trail ++ ['*']), '/', by simp, by decide⟩

/-- What stands in a comment behind its keyword does not start with a blank. -/
theorem head?_body : comment.body.head?.any Text.isBlank = false := by
  have starts := comment.starts
  rw [body]
  split
  · exact starts
  · obtain ⟨c, rest, spelled⟩ := List.exists_cons_of_ne_nil comment.inhabited
    rw [spelled] at starts ⊢
    exact starts

/-- What stands in a comment behind its keyword holds no line end. -/
theorem not_isLineEnd_of_mem_body {c : Char} (member : c ∈ comment.body) :
    Text.isLineEnd c = false := by
  have value := List.all_eq_true.mp comment.within c
  have closing : "*/".toList.all (fun c => !Text.isLineEnd c) = true := by decide
  rw [body] at member
  split at member
  · simpa using value member
  · rcases List.mem_append.mp member with own | behind
    · simpa using value own
    · rcases List.mem_append.mp behind with space | mark
      · have plain := List.all_eq_true.mp comment.spaced c space
        simp only [Bool.and_eq_true, Bool.not_eq_eq_eq_not, Bool.not_true] at plain
        exact plain.2
      · simpa using List.all_eq_true.mp closing c mark

/-- No line end stands in a comment. -/
theorem not_isLineEnd_of_mem_chars {c : Char} (member : c ∈ comment.chars) :
    Text.isLineEnd c = false := by
  have word : keyword.all (fun c => !Text.isLineEnd c) = true := by decide
  have opening : ∀ c ∈ comment.opening, Text.isLineEnd c = false := by
    intro c member
    simp only [Comment.opening, List.mem_cons, List.mem_append] at member
    rcases member with rfl | rfl | rfl | gap | inside
    · decide
    · cases comment.style <;> decide
    · rcases comment.signed with sign | sign <;> rw [sign] <;> decide
    · have own := List.all_eq_true.mp comment.gaps c gap
      simp only [Text.isGap, Bool.or_eq_true, beq_iff_eq] at own
      rcases own with rfl | rfl <;> decide
    · simpa using List.all_eq_true.mp word c inside
  rcases List.mem_append.mp member with front | inside
  · exact opening c front
  · exact comment.not_isLineEnd_of_mem_body inside

/-- The value is what is left of a comment without its closing mark, if only gaps follow. Where
another blank follows nothing is cut off but blanks. -/
theorem trim_withoutClosing {rest : List Char} (blank : rest.all Text.isBlank = true) :
    Text.trim (withoutClosing (comment.body ++ rest)) =
      if rest.all Text.isGap then comment.value else comment.body := by
  have trimmed := all_isBlank_withoutGaps blank
  by_cases gaps : rest.all Text.isGap = true
  · rw [if_pos gaps, body]
    split
    · rw [withoutClosing_append comment.isFirm_value (fun both => comment.unclosed both.2) blank]
      exact Text.trim_append_blanks comment.isFirm_value comment.starts trimmed
    · have spaces : comment.trail.all Text.isBlank = true :=
        List.all_eq_true.mpr fun c member =>
          (Bool.and_eq_true_iff.mp (List.all_eq_true.mp comment.spaced c member)).1
      rw [← List.append_assoc, withoutClosing_closed _ gaps,
        withoutGaps_append comment.isFirm_value]
      exact Text.trim_append_blanks comment.isFirm_value comment.starts
        (all_isBlank_withoutGaps spaces)
  · rw [if_neg gaps, withoutClosing_append comment.isFirm_body (fun both => gaps both.1) blank]
    exact Text.trim_append_blanks comment.isFirm_body comment.head?_body trimmed

/-- A line with a comment and blanks behind it has the value that is read there. -/
theorem ofLine?_chars {rest : List Char} (blank : rest.all Text.isBlank = true) :
    (ofLine? (comment.chars ++ rest)).map Text.trim = comment.valueBefore? rest := by
  have clean : '\r' ∉ comment.body := by
    intro member
    exact absurd (comment.not_isLineEnd_of_mem_body member) (by decide)
  by_cases hidden : '\r' ∈ withoutReturn rest
  · obtain ⟨before, after, rfl, inside⟩ := exists_of_mem_withoutReturn hidden
    have noSlash : '/' ∉ after := by
      intro member
      exact absurd (List.all_eq_true.mp blank '/' (by simp [member])) (by decide)
    have nothing := ofLine?_append_return (comment.chars ++ before) inside noSlash
    rw [List.append_assoc] at nothing
    simp [nothing, valueBefore?, hidden]
  · have read : value? (comment.body ++ rest) =
        some (withoutClosing (comment.body ++ withoutReturn rest)) := by
      simp [value?, withoutReturn_append comment.isFirm_body, clean, hidden]
    have opened := comment.open?_chars rest
    obtain ⟨c, others, spelled⟩ : ∃ c others, comment.chars ++ rest = c :: others := ⟨_, _, rfl⟩
    rw [spelled] at opened
    rw [spelled, ofLine?, opened]
    simp only [Option.bind_some, read, Option.map_some]
    rw [comment.trim_withoutClosing (all_isBlank_withoutReturn blank), valueBefore?]
    simp only [List.contains_eq_mem, hidden, decide_false, Bool.false_eq_true, if_false]
    split <;> rfl

/-- What is read is never void. -/
theorem ne_nil_of_valueBefore? {rest value : List Char}
    (read : comment.valueBefore? rest = some value) : value ≠ [] := by
  simp only [valueBefore?] at read
  split at read
  · simp at read
  · split at read
    · exact Option.some.inj read ▸ comment.inhabited
    · exact Option.some.inj read ▸ comment.isFirm_body.ne_nil

/-- A comment on a line of its own adds its value to those of the text. -/
theorem values_append (text : List Char) {blanks : List Char}
    (blank : blanks.all Text.isBlank = true) :
    values (text ++ '\n' :: (comment.chars ++ blanks)) =
      values text ++ (comment.valueBefore? (blanks.takeWhile (· ≠ '\n'))).toList := by
  have clean : '\n' ∉ comment.chars := by
    intro member
    exact absurd (comment.not_isLineEnd_of_mem_chars member) (by decide)
  obtain ⟨others, cut, parts⟩ := Text.exists_split_eq_cons '\n' blanks
  have lines : Text.split '\n' (text ++ '\n' :: (comment.chars ++ blanks)) =
      Text.split '\n' text ++ (comment.chars ++ blanks.takeWhile (· ≠ '\n')) :: others := by
    rw [Text.split_append, Text.split_append_clean clean cut]
  have nothing : others.filterMap ofLine? = [] := by
    refine List.filterMap_eq_nil_iff.mpr fun piece member => ofLine?_eq_none ?_
    intro slash
    exact absurd (List.all_eq_true.mp blank '/' (parts piece member slash)) (by decide)
  have first : (blanks.takeWhile (· ≠ '\n')).all Text.isBlank = true := by
    apply List.all_eq_true.mpr
    intro c member
    exact List.all_eq_true.mp blank c ((List.takeWhile_sublist _).subset member)
  have own := comment.ofLine?_chars first
  rw [values, lines, List.filterMap_append, List.map_append, List.filter_append, values]
  congr 1
  rw [← own, List.filterMap_cons]
  cases found : ofLine? (comment.chars ++ blanks.takeWhile (· ≠ '\n')) with
  | none => simp [nothing]
  | some value =>
    rw [found, Option.map_some] at own
    simp [nothing, comment.ne_nil_of_valueBefore? own.symm]

/-- A text with a comment on a line of its own behind it, where the comment is seen, has the
reference of the comment. Otherwise it has that of the text. -/
theorem locate_behind (text : String) {blanks : List Char}
    (blank : blanks.all Text.isBlank = true) :
    locate (comment.behind text blanks) =
      ((comment.valueBefore? (blanks.takeWhile (· ≠ '\n'))).map ofValue <|> locate text) := by
  rw [locate, behind, String.toList_append, String.toList_ofList, comment.values_append _ blank,
    List.getLast?_append, locate]
  cases comment.valueBefore? (blanks.takeWhile (· ≠ '\n')) <;> simp

/-- A comment in front of another one, on an earlier line, does not end the text. -/
theorem endsText_append (earlier : CommentStyle) (front blanks : List Char) :
    endsText earlier (front ++ '\n' :: (comment.chars ++ blanks)) = false := by
  have mark : '/' ∈ comment.chars ++ blanks := List.mem_cons_self ..
  cases earlier with
  | line =>
    obtain ⟨rest, dropped⟩ : ∃ rest,
        (front ++ '\n' :: (comment.chars ++ blanks)).dropWhile (fun c => !Text.isLineEnd c) =
          rest ++ '\n' :: (comment.chars ++ blanks) := by
      rw [List.dropWhile_append]
      split
      · exact ⟨[], rfl⟩
      · exact ⟨_, rfl⟩
    have inside : '/' ∈ rest ++ '\n' :: (comment.chars ++ blanks) :=
      List.mem_append_right rest (List.mem_cons_of_mem _ mark)
    rw [endsText, dropped]
    exact List.all_eq_false.mpr ⟨'/', inside, by decide⟩
  | block =>
    have kept := Text.mem_trimEnd front '\n' mark (by decide)
    rw [endsText]
    split
    · rename_i inner turned
      have inside : '\n' ∈ inner := by
        rw [← List.mem_reverse, turned] at kept
        simpa using kept
      exact List.all_eq_false.mpr ⟨'\n', inside, by decide⟩
    · rfl

/-- A comment ends the text, whatever blanks follow it. -/
theorem endsText_body {blanks : List Char} (blank : blanks.all Text.isBlank = true) :
    endsText comment.style (comment.body ++ blanks) = true := by
  have within : ∀ c ∈ comment.body, (!Text.isLineEnd c) = true := by
    intro c member
    rw [comment.not_isLineEnd_of_mem_body member]
    rfl
  cases style : comment.style with
  | line =>
    rw [endsText, List.dropWhile_append_of_pos within]
    apply List.all_eq_true.mpr
    intro c member
    exact List.all_eq_true.mp blank c ((List.dropWhile_sublist _).subset member)
  | block =>
    have closed : comment.body = (comment.value ++ comment.trail) ++ ['*', '/'] := by
      rw [body, style, List.append_assoc]
      rfl
    have turned : (Text.trimEnd (comment.body ++ blanks)).reverse =
        '/' :: '*' :: (comment.value ++ comment.trail).reverse := by
      rw [Text.trimEnd_append_blanks _ blank, Text.trimEnd_of_isFirm comment.isFirm_body, closed]
      simp
    rw [endsText, turned]
    apply List.all_eq_true.mpr
    intro c member
    exact within c (closed ▸ List.mem_append_left _ (List.mem_reverse.mp member))

/-- The text in front of a comment on a line of its own is kept, and nothing else. -/
theorem beforeLast_append (text : List Char) {blanks : List Char}
    (blank : blanks.all Text.isBlank = true) :
    beforeLast (text ++ '\n' :: (comment.chars ++ blanks)) = text ++ ['\n'] := by
  induction text with
  | nil =>
    have closed : open? ('\n' :: (comment.chars ++ blanks)) = none := by simp [open?]
    have last : beforeLast (comment.chars ++ blanks) = [] := by
      have opened := comment.open?_chars blanks
      obtain ⟨c, others, spelled⟩ : ∃ c others, comment.chars ++ blanks = c :: others :=
        ⟨_, _, rfl⟩
      rw [spelled] at opened ⊢
      simp only [beforeLast, opened, comment.endsText_body blank, if_true]
    rw [List.nil_append, List.nil_append, beforeLast, closed, last]
  | cons c text inductionHypothesis =>
    rw [List.cons_append, beforeLast]
    split
    · rename_i earlier found opened
      rw [← List.cons_append] at opened
      obtain ⟨front, rfl⟩ := exists_of_open?_append (by decide) opened
      rw [comment.endsText_append earlier front, inductionHypothesis]
      rfl
    · rw [inductionHypothesis]
      rfl

/-- Stripping a text with a comment on a line of its own behind it leaves the text without
blanks at its end. -/
theorem strip_behind (text : String) {blanks : List Char}
    (blank : blanks.all Text.isBlank = true) :
    strip (comment.behind text blanks) = String.ofList (Text.trimEnd text.toList) := by
  rw [strip, behind, String.toList_append, String.toList_ofList, comment.beforeLast_append _ blank,
    Text.trimEnd_append_blanks _ (by decide)]

/-- In front of gaps and a line end the value is what is read. -/
theorem valueBefore?_of_gaps {rest : List Char}
    (gaps : (withoutReturn rest).all Text.isGap = true) :
    comment.valueBefore? rest = some comment.value := by
  have clean : '\r' ∉ withoutReturn rest := by
    intro member
    exact absurd (List.all_eq_true.mp gaps _ member) (by decide)
  simp [valueBefore?, clean, gaps]

/-- Both ways to look at a comment behind a text take it for what it is. -/
def IsRecognised (text : String) (blanks : List Char) : Prop :=
  strip (comment.behind text blanks) = String.ofList (Text.trimEnd text.toList) ∧
    locate (comment.behind text blanks) = some (ofValue comment.value)

/-- A comment on a line of its own behind any text, with blanks behind it, is stripped together
with all blanks around it. The reference is what is read on its line: nothing, so that the
reference of the text is left, if a carriage return stands inside the line; the value in front
of gaps; and the value together with the closing mark in front of other blanks. -/
theorem strip_locate_behind (text : String) (blanks : List Char)
    (blank : blanks.all Text.isBlank = true) :
    strip (comment.behind text blanks) = String.ofList (Text.trimEnd text.toList) ∧
      locate (comment.behind text blanks) =
        ((comment.valueBefore? (blanks.takeWhile (· ≠ '\n'))).map ofValue <|> locate text) :=
  ⟨comment.strip_behind text blank, comment.locate_behind text blank⟩

/-- The comment of a style sheet. -/
def ofStyleSheet : Comment :=
  usual .block "a.map".toList (by decide) (by decide) (by decide) (by decide) (by decide)

/-- An older comment of a script. -/
def ofScript : Comment where
  style := .line
  sign := '@'
  lead := ['\t']
  value := "b.map".toList
  trail := []
  signed := by decide
  gaps := by decide
  spaced := by decide
  inhabited := by decide
  starts := by decide
  ends := by decide
  within := by decide
  unclosed := by decide

/-- A line separator behind the closing mark makes that a part of the value. -/
theorem strip_locate_behind_lineSeparator :
    ['\u2028', '\n'].all Text.isBlank = true ∧
      strip (ofStyleSheet.behind "//# sourceMappingURL=old.map\nx \n" ['\u2028', '\n']) =
        "//# sourceMappingURL=old.map\nx" ∧
      locate (ofStyleSheet.behind "//# sourceMappingURL=old.map\nx \n" ['\u2028', '\n']) =
        some (.file "a.map */") := by
  have blank : ['\u2028', '\n'].all Text.isBlank = true := by decide
  obtain ⟨stripped, located⟩ :=
    ofStyleSheet.strip_locate_behind "//# sourceMappingURL=old.map\nx \n" _ blank
  exact ⟨blank, stripped.trans (by decide +kernel), located.trans (by decide +kernel)⟩

/-- Not every comment in front of blanks is taken for what it is in both ways: behind a block
comment a line separator is not expected, and behind a line comment a second carriage return. -/
theorem not_isRecognised :
    (['\u2028'].all Text.isBlank = true ∧ ¬ofStyleSheet.IsRecognised "x" ['\u2028']) ∧
      ['\r', '\r', '\n'].all Text.isBlank = true ∧
        ¬ofScript.IsRecognised "x" ['\r', '\r', '\n'] := by
  have separated : locate (ofStyleSheet.behind "x" ['\u2028']) = some (.file "a.map */") := by
    decide +kernel
  have hidden : locate (ofScript.behind "x" ['\r', '\r', '\n']) = none := by decide +kernel
  refine ⟨⟨by decide, ?_⟩, by decide, ?_⟩
  · rintro ⟨_, located⟩
    rw [separated] at located
    exact absurd located (by decide +kernel)
  · rintro ⟨_, located⟩
    rw [hidden] at located
    exact absurd located (by decide +kernel)

end Comment

end MapChain.Reference
