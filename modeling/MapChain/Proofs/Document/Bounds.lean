import MapChain.Proofs.Document.Texts
import MapChain.Proofs.Json.Bounds
import MapChain.Proofs.Itemwise
import MapChain.Reference

/-!
# What a document has room for

A document has fewer sources than its text has characters, and every text that it carries
is shorter. The same goes for a document in a data URL, and for the data URL that a
comment of a file holds.
-/

namespace MapChain

namespace Document

/-- A document with fewer sources than a bound, and with all texts that it carries below
the bound. -/
structure IsWithin (bound : Nat) (document : Document) : Prop where
  sources : document.sources.length < bound
  contents : ∀ contents ∈ document.contents, ∀ content ∈ contents, ∀ text ∈ content,
    text.length < bound

/-- A document within a bound is within a larger one. -/
theorem IsWithin.mono {document : Document} {bound wider : Nat} (within : document.IsWithin bound)
    (room : bound ≤ wider) : document.IsWithin wider := by
  obtain ⟨sources, contents⟩ := within
  refine ⟨by omega, ?_⟩
  intro list has content member text carried
  exact Nat.lt_of_lt_of_le (contents list has content member text carried) room

/-- The value of a field fits where its object fits. -/
theorem fits_of_field? {bound : Nat} {value field : Json} {name : String}
    (fits : value.Fits bound) (has : value.field? name = some field) : field.Fits bound := by
  cases fits with
  | object members each =>
    obtain ⟨member, found, rfl⟩ := Option.map_eq_some_iff.mp has
    exact each member (by simpa using List.mem_of_find?_eq_some found)
  | _ => simp [Json.field?] at has

/-- The items of a list that fits are fewer than the bound and come from items that fit. -/
theorem length_of_list? {bound : Nat} {value : Json} {item : Json → Option α} {items : List α}
    (fits : value.Fits bound) (read : list? item value = some items) :
    items.length < bound ∧ ∀ each ∈ items, ∃ own : Json, own.Fits bound ∧ item own = some each := by
  cases fits with
  | array values fewer each =>
    have related := Itemwise.forall₂_of_mapM_eq_some item values items read
    refine ⟨related.length_eq ▸ fewer, ?_⟩
    intro result member
    obtain ⟨own, inside, same⟩ := Itemwise.exists_of_mem_right related member
    exact ⟨own, each own inside, same⟩
  | _ => simp [list?] at read

/-- A text that is read from a value that fits is shorter than the bound. -/
theorem length_of_nullable? {bound : Nat} {value : Json} {text : String}
    (fits : value.Fits bound) (read : nullable? value = some (some text)) :
    text.length < bound := by
  cases fits with
  | string own shorter =>
    simp only [nullable?, Option.some.injEq] at read
    exact read ▸ shorter
  | _ => simp [nullable?] at read

/-- The texts that a document carries have room in the value of their field. -/
theorem length_of_contents {bound : Nat} {value : Json} {contents : List (Option String)}
    (fits : value.Fits bound) (read : list? nullable? value = some contents) :
    ∀ content ∈ contents, ∀ text ∈ content, text.length < bound := by
  intro content member text inside
  obtain ⟨own, room, same⟩ := (length_of_list? fits read).2 content member
  rw [Option.mem_def.mp inside] at same
  exact length_of_nullable? room same

/-- A document's fields have room in the value that they are read from. -/
theorem isWithin_of_ofFields? {bound : Nat} {value : Json} {document : Document}
    (fits : value.Fits bound) (read : ofFields? value = some document) :
    document.IsWithin bound := by
  simp only [ofFields?, Option.bind_eq_bind, Option.pure_def] at read
  obtain ⟨file, _, read⟩ := Option.bind_eq_some_iff.mp read
  obtain ⟨sourceRoot, _, read⟩ := Option.bind_eq_some_iff.mp read
  obtain ⟨field, has, read⟩ := Option.bind_eq_some_iff.mp read
  obtain ⟨sources, listed, read⟩ := Option.bind_eq_some_iff.mp read
  have fewer := (length_of_list? (fits_of_field? fits has) listed).1
  split at read
  case h_3 carried _ found =>
    obtain ⟨contents, same, read⟩ := Option.bind_eq_some_iff.mp read
    obtain ⟨texts, listed, rfl⟩ := Option.map_eq_some_iff.mp same
    simp only [Option.bind_eq_some_iff, Option.some.injEq] at read
    obtain ⟨_, _, _, _, _, _, rfl⟩ := read
    refine ⟨by simpa using fewer, ?_⟩
    rintro _ ⟨⟩
    exact length_of_contents (fits_of_field? fits found) listed
  all_goals
    simp only [Option.bind_some, Option.bind_eq_some_iff, Option.some.injEq] at read
    obtain ⟨_, _, _, _, _, _, rfl⟩ := read
    exact ⟨by simpa using fewer, by simp⟩

/-- A document has room in its text. -/
theorem isWithin_of_ofChars {text : List Char} {document : Document}
    (read : ofChars text = .ok document) : document.IsWithin text.length := by
  simp only [ofChars] at read
  split at read
  · rename_i value spelled
    have fits := Json.fits_of_decode? spelled
    simp only [ofJson] at read
    split at read
    · split at read
      · split at read
        · rename_i fields
          obtain rfl := Except.ok.inj read
          exact isWithin_of_ofFields? fits fields
        · simp at read
      · simp at read
    · simp at read
  · simp at read

/-- A document has room in the data URL that carries it. -/
theorem isWithin_of_ofDataUrl {url : String} {document : Document}
    (read : ofDataUrl url = .ok document) : document.IsWithin url.length := by
  obtain ⟨text, carries⟩ := exists_carries_of_ofDataUrl read
  rw [ofDataUrl_of_carries carries] at read
  exact (isWithin_of_ofChars read).mono carries.length_le

end Document

namespace Reference

/-- The value behind an opened comment is no longer than the comment. -/
theorem length_of_open? {text value : List Char} {style : CommentStyle}
    (opened : open? text = some (style, value)) : value.length ≤ text.length := by
  simp only [open?] at opened
  split at opened
  · rename_i second sign rest
    split at opened
    · split at opened
      · obtain ⟨left, found, same⟩ := Option.map_eq_some_iff.mp opened
        obtain ⟨_, rfl⟩ := Prod.mk.inj same
        have whole := congrArg List.length (Text.append_of_isPrefixOf? found)
        have behind : (rest.dropWhile Text.isGap).length ≤ rest.length :=
          (List.dropWhile_sublist _).length_le
        simp only [List.length_append, List.length_cons] at whole ⊢
        omega
      · simp at opened
    · simp at opened
  · simp at opened

/-- Dropping a carriage return shortens at most. -/
theorem length_withoutReturn_le (rest : List Char) :
    (withoutReturn rest).length ≤ rest.length := by
  simp only [withoutReturn]
  split
  · rename_i reversed same
    have whole := congrArg List.length same
    simp only [List.length_reverse, List.length_cons] at whole ⊢
    omega
  · exact Nat.le_refl _

/-- Dropping gaps shortens at most. -/
theorem length_withoutGaps_le (rest : List Char) : (withoutGaps rest).length ≤ rest.length := by
  have front : (rest.reverse.dropWhile Text.isGap).length ≤ rest.reverse.length :=
    (List.dropWhile_sublist _).length_le
  simpa [withoutGaps] using front

/-- Dropping a closing mark shortens at most. -/
theorem length_withoutClosing_le (rest : List Char) :
    (withoutClosing rest).length ≤ rest.length := by
  have gaps := length_withoutGaps_le rest
  simp only [withoutClosing]
  split
  · rename_i reversed same
    have whole := congrArg List.length same
    have inner := length_withoutGaps_le reversed.reverse
    simp only [List.length_reverse, List.length_cons] at whole inner
    omega
  · exact gaps

/-- The value of a comment is no longer than the rest of its line. -/
theorem length_of_value? {rest value : List Char} (has : value? rest = some value) :
    value.length ≤ rest.length := by
  simp only [value?] at has
  split at has
  · simp at has
  · obtain rfl := Option.some.inj has
    exact Nat.le_trans (length_withoutClosing_le _) (length_withoutReturn_le rest)

/-- The value that is found on a line is no longer than the line. -/
theorem length_of_ofLine? {text value : List Char} (found : ofLine? text = some value) :
    value.length ≤ text.length := by
  induction text with
  | nil => simp [ofLine?] at found
  | cons c text inductionHypothesis =>
    simp only [ofLine?] at found
    split at found
    · rename_i first opened
      obtain rfl := Option.some.inj found
      obtain ⟨⟨style, rest⟩, opens, has⟩ := Option.bind_eq_some_iff.mp opened
      exact Nat.le_trans (length_of_value? has) (length_of_open? opens)
    · exact Nat.le_succ_of_le (inductionHypothesis found)

/-- A data URL that a text refers to is no longer than the text. -/
theorem length_of_locate {content url : String} (located : locate content = some (.inline url)) :
    url.length ≤ content.length := by
  obtain ⟨value, last, refers⟩ := Option.map_eq_some_iff.mp located
  have listed := List.mem_of_getLast? last
  simp only [values, List.mem_filter, List.mem_map, List.mem_filterMap] at listed
  obtain ⟨⟨found, ⟨line, cut, has⟩, rfl⟩, _⟩ := listed
  have own := Nat.le_trans (Text.length_trim_le found) (length_of_ofLine? has)
  have whole := Text.length_le_of_mem_split cut
  simp only [ofValue] at refers
  split at refers
  · obtain rfl := Reference.inline.inj refers
    rw [String.length_ofList, ← String.length_toList (s := content)]
    omega
  · simp at refers

end Reference

end MapChain
