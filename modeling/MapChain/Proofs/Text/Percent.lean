import MapChain.Proofs.Text.Utf8
import MapChain.Proofs.Mapping.Vlq
import MapChain.Text.Blank
import MapChain.Text.Percent

/-!
# Reading percent coding

Percent coding writes a text in printable ASCII without blanks, and reads back as the text.
No percent sign stands for itself, so none of those in the written text is misread.
-/

namespace MapChain.Percent

/-- A character that may stand in a percent-coded text: one that is kept or a percent sign. -/
def IsPlain (c : Char) : Prop := isKept c = true ∨ c = '%'

/-- Kept characters are ASCII. -/
theorem toNat_lt_of_isKept {c : Char} (kept : isKept c = true) : c.toNat < 128 := by
  simp only [isKept, Bool.or_eq_true] at kept
  rcases kept with alphanumeric | mark
  · have value : c.toNat = c.val.toNat := rfl
    have ranges : (decide (c.val ≥ 65 ∧ c.val ≤ 90) || c.val ≥ 97 && c.val ≤ 122 ||
        c.val ≥ 48 && c.val ≤ 57) = true := alphanumeric
    simp only [Bool.or_eq_true, Bool.and_eq_true, decide_eq_true_eq, UInt32.le_iff_toNat_le,
      UInt32.toNat_ofNat] at ranges
    omega
  · have small : marks.all (fun c => c.toNat < 128) = true := by decide
    simpa using List.all_eq_true.mp small c (by simpa using mark)

/-- A kept character is one byte of text, which is no percent sign. -/
theorem encode_of_isKept {c : Char} (kept : isKept c = true) :
    ∃ byte : UInt8, Utf8.encode [c] = [byte] ∧ byte ≠ 0x25 := by
  have table : ∀ value : Fin 128, isKept (Char.ofNat value) = true →
      Utf8.encode [Char.ofNat value] = [UInt8.ofNat value] ∧ UInt8.ofNat value ≠ 0x25 := by
    decide +kernel
  have found := table ⟨c.toNat, toNat_lt_of_isKept kept⟩
  simp only [Char.ofNat_toNat] at found
  exact ⟨_, found kept⟩

/-- What may stand in a percent-coded text is not blank. -/
theorem IsPlain.not_isBlank {c : Char} (plain : IsPlain c) : Text.isBlank c = false := by
  rcases plain with kept | rfl
  · have table : ∀ value : Fin 128, isKept (Char.ofNat value) = true →
        Text.isBlank (Char.ofNat value) = false := by decide +kernel
    have found := table ⟨c.toNat, toNat_lt_of_isKept kept⟩
    simp only [Char.ofNat_toNat] at found
    exact found kept
  · decide

/-- A byte that is no percent sign stands for itself. -/
theorem decodeBytes_cons {byte : UInt8} (other : byte ≠ 0x25) (rest : List UInt8) :
    decodeBytes (byte :: rest) = byte :: decodeBytes rest := by
  rw [decodeBytes]
  intro high low rest same
  exact absurd same other

/-- A triple stands for its byte. -/
theorem decodeBytes_triple (byte : UInt8) (rest : List UInt8) :
    decodeBytes (Utf8.encode (triple byte) ++ rest) = byte :: decodeBytes rest := by
  have table : ∀ value : Fin 16, Utf8.encode [Hex.upper value] =
      [UInt8.ofNat (Hex.upper value).toNat] ∧
        Char.ofNat (UInt8.ofNat (Hex.upper value).toNat).toNat = Hex.upper value := by decide
  have bound := byte.toNat_lt
  obtain ⟨highByte, highChar⟩ := table ⟨byte.toNat / 16, by omega⟩
  obtain ⟨lowByte, lowChar⟩ := table ⟨byte.toNat % 16, by omega⟩
  obtain ⟨high, _⟩ := Hex.digit?_upper_lower ⟨byte.toNat / 16, by omega⟩
  obtain ⟨low, _⟩ := Hex.digit?_upper_lower ⟨byte.toNat % 16, by omega⟩
  simp only at highByte highChar lowByte lowChar high low
  have read : byte? (UInt8.ofNat (Hex.upper (byte.toNat / 16)).toNat)
      (UInt8.ofNat (Hex.upper (byte.toNat % 16)).toNat) = some byte := by
    have whole : byte.toNat / 16 * 16 + byte.toNat % 16 = byte.toNat := by omega
    rw [byte?, highChar, lowChar, high, low]
    simp only [Option.bind_eq_bind, Option.bind_some, Option.pure_def, whole, UInt8.ofNat_toNat]
  have spelled : Utf8.encode (triple byte) = [0x25,
      UInt8.ofNat (Hex.upper (byte.toNat / 16)).toNat,
      UInt8.ofNat (Hex.upper (byte.toNat % 16)).toNat] := by
    have parted : triple byte =
        ['%'] ++ [Hex.upper (byte.toNat / 16)] ++ [Hex.upper (byte.toNat % 16)] := rfl
    rw [parted, Utf8.encode_append, Utf8.encode_append, highByte, lowByte]
    rfl
  rw [spelled]
  simp only [List.cons_append, List.nil_append, decodeBytes, read]

/-- Triples stand for their bytes. -/
theorem decodeBytes_triples (bytes rest : List UInt8) :
    decodeBytes (Utf8.encode (bytes.flatMap triple) ++ rest) = bytes ++ decodeBytes rest := by
  induction bytes with
  | nil => rfl
  | cons byte bytes inductionHypothesis =>
    rw [List.flatMap_cons, Utf8.encode_append, List.append_assoc, decodeBytes_triple,
      inductionHypothesis, List.cons_append]

/-- The bytes of a text are read back. -/
theorem decodeBytes_encode (text : List Char) :
    decodeBytes (Utf8.encode (encode text)) = Utf8.encode text := by
  induction text with
  | nil => rfl
  | cons c text inductionHypothesis =>
    have parted : Utf8.encode (c :: text) = Utf8.encode [c] ++ Utf8.encode text := by
      rw [← Utf8.encode_append, List.singleton_append]
    rw [parted, encode, List.flatMap_cons, Utf8.encode_append]
    by_cases kept : isKept c = true
    · obtain ⟨byte, spelled, other⟩ := encode_of_isKept kept
      rw [if_pos kept, spelled, List.singleton_append, decodeBytes_cons other]
      exact congrArg (byte :: ·) inductionHypothesis
    · rw [if_neg kept, decodeBytes_triples]
      exact congrArg (Utf8.encode [c] ++ ·) inductionHypothesis

/-- A text reads back. -/
theorem decode_encode (text : List Char) : decode (encode text) = text := by
  rw [decode, decodeBytes_encode, Utf8.decodeLossy_encode]

/-- The digits of a triple are kept characters. -/
theorem isPlain_of_mem_triple {byte : UInt8} {c : Char} (member : c ∈ triple byte) :
    IsPlain c := by
  have table : ∀ value : Fin 16, isKept (Hex.upper value) = true := by decide
  have bound := byte.toNat_lt
  simp only [triple, List.mem_cons, List.not_mem_nil, or_false] at member
  rcases member with rfl | rfl | rfl
  · exact .inr rfl
  · exact .inl (table ⟨byte.toNat / 16, by omega⟩)
  · exact .inl (table ⟨byte.toNat % 16, by omega⟩)

/-- A percent-coded text is plain throughout. -/
theorem isPlain_of_mem_encode {text : List Char} {c : Char} (member : c ∈ encode text) :
    IsPlain c := by
  obtain ⟨own, _, written⟩ := List.mem_flatMap.mp member
  by_cases kept : isKept own = true
  · rw [if_pos kept, List.mem_singleton] at written
    exact .inl (written ▸ kept)
  · rw [if_neg kept] at written
    obtain ⟨byte, _, digit⟩ := List.mem_flatMap.mp written
    exact isPlain_of_mem_triple digit

/-- A text of kept characters is written as it is. -/
theorem encode_eq_self {text : List Char} (kept : ∀ c ∈ text, isKept c = true) :
    encode text = text := by
  induction text with
  | nil => rfl
  | cons c text inductionHypothesis =>
    have rest := inductionHypothesis fun other member => kept other (by simp [member])
    rw [encode, List.flatMap_cons, if_pos (kept c (by simp)), List.singleton_append]
    exact congrArg (c :: ·) rest

/-- Texts are written one behind the other. -/
theorem encode_append (first second : List Char) :
    encode (first ++ second) = encode first ++ encode second := List.flatMap_append

/-- A character that is not kept is written as triples, the last of which ends in a digit. -/
theorem exists_digit_of_encode {c : Char} (coded : ¬isKept c = true) :
    ∃ (front : List Char) (digit : Fin 16), encode [c] = front ++ [Hex.upper digit] := by
  obtain ⟨first, more, spelled, -⟩ := Utf8.step_encode_char c
  have written : encode [c] = (first :: more).flatMap triple := by
    simp [encode, coded, Utf8.encode, spelled]
  obtain ⟨bytes, byte, whole⟩ : ∃ bytes byte, first :: more = bytes ++ [byte] := by
    simpa using (List.eq_nil_or_concat (first :: more)).resolve_left (by simp)
  refine ⟨bytes.flatMap triple ++ ['%', Hex.upper (byte.toNat / 16)],
    ⟨byte.toNat % 16, by omega⟩, ?_⟩
  rw [written, whole, List.flatMap_append, List.flatMap_singleton, List.append_assoc]
  rfl

/-- A mark at the end of a percent-coded text stands for itself. -/
theorem exists_concat_of_encode {text front : List Char} {mark : Char} (kept : mark ∈ marks)
    (written : encode text = front ++ [mark]) :
    ∃ before, text = before ++ [mark] ∧ encode before = front := by
  rcases List.eq_nil_or_concat text with rfl | ⟨before, last, rfl⟩
  · simp [encode] at written
  · rw [List.concat_eq_append] at written ⊢
    rw [encode_append] at written
    by_cases own : isKept last = true
    · have single : encode [last] = [last] := encode_eq_self (by simpa using own)
      rw [single] at written
      obtain ⟨same, rfl⟩ := List.append_singleton_inj.mp written
      exact ⟨before, rfl, same⟩
    · obtain ⟨others, digit, ends⟩ := exists_digit_of_encode own
      rw [ends, ← List.append_assoc] at written
      obtain ⟨-, rfl⟩ := List.append_singleton_inj.mp written
      have table : ∀ digit : Fin 16, Hex.upper digit ∉ marks := by decide
      exact absurd kept (table digit)

end MapChain.Percent
