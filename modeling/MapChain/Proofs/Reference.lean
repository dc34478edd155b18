import MapChain.Proofs.Document.Written
import MapChain.Proofs.Reference.Comment

/-!
# Rendered comments are recognised

A comment that is rendered behind any text is a reference comment on a line of its own, with a
line end behind it. So it is the reference that the whole then has, and stripping the whole
removes that comment and nothing of the text but blanks at its end.

The value must not be empty and not end in a closing mark. Percent coding keeps both away from
what is written if they are away from the URL, and writes nothing blank, so whatever else the
URL holds is found again. Names of maps and data URLs are such URLs.
-/

namespace MapChain

namespace Reference

/-- A value as it is written: not empty, without blanks, and with no closing mark at its
end. -/
structure IsValue (value : List Char) : Prop where
  inhabited : value ≠ []
  plain : ∀ c ∈ value, Text.isBlank c = false
  unclosed : ∀ front, value ≠ front ++ "*/".toList

namespace IsValue

variable {value : List Char} (written : IsValue value)

include written

/-- A value does not start with a blank. -/
theorem starts : value.head?.any Text.isBlank = false := by
  obtain ⟨c, rest, rfl⟩ := List.exists_cons_of_ne_nil written.inhabited
  exact written.plain c (by simp)

/-- A value does not end with a blank. -/
theorem ends : value.getLast?.any Text.isBlank = false := by
  rw [List.getLast?_eq_some_getLast written.inhabited]
  exact written.plain _ (List.getLast_mem written.inhabited)

/-- A value stands on one line. -/
theorem within : value.all (fun c => !Text.isLineEnd c) = true := by
  apply List.all_eq_true.mpr
  intro c member
  cases ends : Text.isLineEnd c with
  | false => rfl
  | true => exact absurd (Text.isBlank_of_isLineEnd c ends) (by simp [written.plain c member])

/-- A value does not end with a closing mark. -/
theorem not_closed : ¬"*/".toList <:+ value := by
  rintro ⟨front, same⟩
  exact written.unclosed front same.symm

end IsValue

/-- The comment of a style that is written for a value. -/
def Comment.rendered (style : CommentStyle) {value : List Char} (written : IsValue value) :
    Comment :=
  .usual style value written.inhabited written.starts written.ends written.within
    written.not_closed

/-- A comment is rendered on a line of its own. -/
theorem append_render (text : String) (style : CommentStyle) {url : String}
    (written : IsValue (Percent.encode url.toList)) :
    text ++ style.render url = (Comment.rendered style written).behind text ['\n'] := by
  rw [Comment.behind]
  congr 1
  cases style with
  | line => rfl
  | block =>
    refine congrArg String.ofList ?_
    generalize Percent.encode url.toList = value at written
    have closing : " */\n".toList = [' '] ++ "*/".toList ++ ['\n'] := rfl
    have body : (Comment.rendered .block written).body = value ++ ([' '] ++ "*/".toList) := rfl
    rw [closing, Comment.chars, body]
    simp only [List.append_assoc]
    rfl

/-- A rendered comment is the reference that a text has. -/
theorem locate_render (text : String) (style : CommentStyle) {url : String}
    (written : IsValue (Percent.encode url.toList)) :
    locate (text ++ style.render url) = some (ofValue (Percent.encode url.toList)) := by
  rw [append_render text style written, Comment.locate_behind _ text (by decide),
    Comment.valueBefore?_of_gaps _ (by decide)]
  rfl

/-- Stripping a text behind which a comment was rendered leaves the text without blanks at
its end. -/
theorem strip_render (text : String) (style : CommentStyle) {url : String}
    (written : IsValue (Percent.encode url.toList)) :
    strip (text ++ style.render url) = String.ofList (Text.trimEnd text.toList) := by
  rw [append_render text style written, Comment.strip_behind _ text (by decide)]

/-- What is written for a URL is a value, unless the URL is empty or ends in a closing mark
itself. -/
theorem isValue_encode {url : List Char} (inhabited : url ≠ [])
    (unclosed : ¬"*/".toList <:+ url) : IsValue (Percent.encode url) := by
  refine ⟨?_, fun c member => (Percent.isPlain_of_mem_encode member).not_isBlank, ?_⟩
  · intro none
    have same : Percent.decode (Percent.encode url) = Percent.decode (Percent.encode []) :=
      congrArg Percent.decode none
    rw [Percent.decode_encode, Percent.decode_encode] at same
    exact inhabited same
  · intro front written
    have marks : "*/".toList = ['*'] ++ ['/'] := rfl
    rw [marks, ← List.append_assoc] at written
    obtain ⟨before, rfl, rest⟩ := Percent.exists_concat_of_encode (by decide) written
    obtain ⟨start, rfl, -⟩ := Percent.exists_concat_of_encode (by decide) rest
    exact unclosed ⟨start, by simp⟩

/-- What is written for a URL is a value if the URL does not end like a closing mark. -/
theorem isValue_of_last (front : List Char) {last : Char} (different : last ≠ '/') :
    IsValue (Percent.encode (front ++ [last])) := by
  refine isValue_encode (by simp) ?_
  rintro ⟨before, same⟩
  rw [show "*/".toList = ['*'] ++ ['/'] from rfl, ← List.append_assoc] at same
  exact different (List.append_singleton_inj.mp same).2.symm

/-- The data URL of a document is a value, and percent coding leaves it as it is. -/
theorem isValue_toDataUrl (document : Document) :
    IsValue document.toDataUrl.toList ∧
      Percent.encode document.toDataUrl.toList = document.toDataUrl.toList := by
  have kept : ∀ c ∈ document.toDataUrl.toList, Percent.isKept c = true :=
    fun c member => (Document.isKept_of_mem_toDataUrl member).1
  refine ⟨⟨?_, ?_, ?_⟩, Percent.encode_eq_self kept⟩
  · rw [Document.toDataUrl, String.toList_ofList]
    exact List.append_ne_nil_of_left_ne_nil (by decide) _
  · exact fun c member => Percent.IsPlain.not_isBlank (.inl (kept c member))
  · intro front same
    have mark : '*' ∈ document.toDataUrl.toList := by
      rw [same]
      exact List.mem_append_right front (by decide)
    exact (Document.isKept_of_mem_toDataUrl mark).2 rfl

/-- Percent coding keeps what a text starts with if that needs no coding, and adds no such
start. -/
theorem isPrefixOf_encode {front : List Char} (kept : front.all Percent.isKept = true)
    (text : List Char) : front.isPrefixOf (Percent.encode text) = front.isPrefixOf text := by
  induction front generalizing text with
  | nil => rfl
  | cons first front inductionHypothesis =>
    cases text with
    | nil => rfl
    | cons c text =>
      obtain ⟨own, others⟩ := Bool.and_eq_true_iff.mp kept
      have rest := inductionHypothesis others text
      by_cases plain : Percent.isKept c = true
      · have written : Percent.encode (c :: text) = c :: Percent.encode text := by
          simp [Percent.encode, plain]
        rw [written, List.isPrefixOf, rest, List.isPrefixOf]
      · have other (mark : Char) (coded : ¬Percent.isKept mark = true) :
            (first == mark) = false := by
          refine beq_eq_false_iff_ne.mpr ?_
          rintro rfl
          exact coded own
        obtain ⟨byte, bytes, spelled, _⟩ := Utf8.step_encode_char c
        have written : ∃ more, Percent.encode (c :: text) = '%' :: more := by
          simp [Percent.encode, plain, Utf8.encode, spelled, Percent.triple]
        obtain ⟨more, written⟩ := written
        rw [written, List.isPrefixOf, List.isPrefixOf, other '%' (by decide), other c plain]
        rfl

/-- What is written for a data URL refers to what it carries. -/
theorem ofValue_toDataUrl (document : Document) :
    ofValue document.toDataUrl.toList = .inline document.toDataUrl := by
  have whole : document.toDataUrl.toList = Document.header ++
      Base64.encode (Utf8.encode document.toText.toList) := String.toList_ofList
  have data : "data:".toList.isPrefixOf document.toDataUrl.toList = true := by
    rw [whole]
    -- The payload is not to be evaluated.
    generalize Base64.encode (Utf8.encode document.toText.toList) = payload
    rfl
  rw [ofValue, if_pos data, String.ofList_toList]

/-- What is written for a text that starts like a data URL is read as one. -/
theorem ofValue_encode_of_data {url : String}
    (data : "data:".toList.isPrefixOf url.toList = true) :
    ofValue (Percent.encode url.toList) = .inline (String.ofList (Percent.encode url.toList)) := by
  have written : "data:".toList.isPrefixOf (Percent.encode url.toList) = true := by
    rw [isPrefixOf_encode (by decide), data]
  rw [ofValue, if_pos written]

/-- What is written for a text that is no data URL refers to the file of that name. -/
theorem ofValue_encode {url : String} (other : "data:".toList.isPrefixOf url.toList = false) :
    ofValue (Percent.encode url.toList) = .file url := by
  have plain : "data:".toList.isPrefixOf (Percent.encode url.toList) = false := by
    rw [isPrefixOf_encode (by decide), other]
  rw [ofValue, if_neg (Bool.eq_false_iff.mp plain), Percent.decode_encode, String.ofList_toList]

/-- Rendering a reference behind a stripped content is undone by stripping, and by locating,
which finds the URL again: a data URL as it is written, any other one as it was. The content may
hold any comments, and so may the URL, which must not be empty nor end in a closing mark. Percent
coding reads back for every text, and writes nothing that is blank or ends a line. -/
theorem strip_locate_render :
    (∀ text, Percent.decode (Percent.encode text) = text ∧
      ∀ c ∈ Percent.encode text, Text.isBlank c = false ∧ Text.isLineEnd c = false) ∧
    ∀ (content : String) (style : CommentStyle) (url : String), url ≠ "" →
      ¬"*/".toList <:+ url.toList →
        strip (strip content ++ style.render url) = strip content ∧
          locate (strip content ++ style.render url) =
            some (if "data:".toList.isPrefixOf url.toList then
                .inline (String.ofList (Percent.encode url.toList))
              else .file url) := by
  refine ⟨fun text => ⟨Percent.decode_encode text, fun c member => ?_⟩, ?_⟩
  · have plain := (Percent.isPlain_of_mem_encode member).not_isBlank
    refine ⟨plain, Bool.eq_false_iff.mpr fun ends => ?_⟩
    exact absurd (Text.isBlank_of_isLineEnd c ends) (by simp [plain])
  · intro content style url inhabited unclosed
    have written : IsValue (Percent.encode url.toList) :=
      isValue_encode (by simpa using inhabited) unclosed
    constructor
    · rw [strip_render _ style written, strip, String.toList_ofList, Text.trimEnd_trimEnd]
    · rw [locate_render _ style written]
      split
      · rename_i data
        rw [ofValue_encode_of_data data]
      · rename_i other
        rw [ofValue_encode (Bool.eq_false_iff.mpr other)]

/-- A URL that is a whole reference comment, with a percent sign, a letter that takes two bytes
and a blank at its end. -/
def nestedUrl : String := "/*# sourceMappingURL=100%25 ä */ "

/-- A content that ends in two reference comments. -/
def twiceCommented : String :=
  "f();\n//# sourceMappingURL=a.map\n/*# sourceMappingURL=b.map */\n"

/-- A URL that is a comment itself is found again behind a content with two comments, of which one
is left. -/
theorem strip_locate_render_nested :
    nestedUrl ≠ "" ∧ ¬"*/".toList <:+ nestedUrl.toList ∧
      strip (strip twiceCommented ++ CommentStyle.block.render nestedUrl) =
        "f();\n//# sourceMappingURL=a.map" ∧
      locate (strip twiceCommented ++ CommentStyle.block.render nestedUrl) =
        some (.file nestedUrl) := by
  have inhabited : nestedUrl ≠ "" := by decide
  have unclosed : ¬"*/".toList <:+ nestedUrl.toList := by decide
  obtain ⟨stripped, located⟩ :=
    strip_locate_render.2 twiceCommented .block nestedUrl inhabited unclosed
  exact ⟨inhabited, unclosed, stripped.trans (by decide +kernel), located.trans (by decide +kernel)⟩

end Reference

end MapChain
