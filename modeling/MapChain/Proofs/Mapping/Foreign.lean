import MapChain.Mapping.Codec
import MapChain.Proofs.Mapping.Vlq
import MapChain.Proofs.Text.Length
import MapChain.Proofs.Text.Split
import MapChain.Proofs.Text.Utf8

/-!
# Foreign characters in mappings

Mappings are written with base64 digits, commas and semicolons. Other characters are not
refused as such. Each of their bytes is read as a digit that asks for another one, with all
its bits set and thus like a slash; only the control character 127 is read like a plus sign.
A text is therefore read like the one in which these digits stand in the place of all foreign
characters, with the same segments or the same error at the same place. What becomes of a
foreign character depends on the digits behind it and on the totals that come out.
-/

namespace MapChain

namespace Text

/-- Where every character but the separator is replaced by a text without it, so is every
character of each piece. -/
theorem split_flatMap {separator : Char} {change : Char → List Char}
    (kept : change separator = [separator])
    (clean : ∀ c, c ≠ separator → separator ∉ change c) (text : List Char) :
    split separator (text.flatMap change) = (split separator text).map (·.flatMap change) := by
  induction text with
  | nil => rfl
  | cons c text inductionHypothesis =>
    by_cases same : c = separator
    · subst same
      rw [List.flatMap_cons, kept, List.singleton_append, split, if_pos rfl, split, if_pos rfl,
        inductionHypothesis]
      rfl
    · obtain ⟨first, others, cut⟩ := List.exists_cons_of_ne_nil (split_ne_nil separator text)
      rw [cut, List.map_cons] at inductionHypothesis
      rw [List.flatMap_cons, split_append_clean (clean c same) inductionHypothesis, split,
        if_neg same, cut]
      rfl

end Text

namespace Vlq

/-- Bytes that are the same digits spell the same values. -/
theorem decodeFrom_congr {bytes others : List UInt8}
    (same : bytes.map Digit.ofByte = others.map Digit.ofByte) (total : Int) (shift : Nat) :
    decodeFrom total shift bytes = decodeFrom total shift others := by
  induction bytes generalizing others total shift with
  | nil =>
    obtain rfl := List.map_eq_nil_iff.mp same.symm
    rfl
  | cons byte bytes inductionHypothesis =>
    obtain ⟨other, others, rfl, digit, rest⟩ := List.map_eq_cons_iff.mp same.symm
    simp only [decodeFrom, digit, inductionHypothesis rest.symm]

end Vlq

namespace Codec

/-- The characters that mappings are written with: base64 digits and separators. -/
def isAlphabet (c : Char) : Bool := c.isAlphanum || c == '+' || c == '/' || c == ',' || c == ';'

/-- The character whose digit a foreign byte is read as. -/
def counterpart (byte : UInt8) : Char := if byte = 127 then '+' else '/'

/-- A character with a counterpart in the place of each byte if it is foreign. -/
def respell (c : Char) : List Char :=
  if isAlphabet c then [c] else (Utf8.encode [c]).map counterpart

/-- A text with counterparts in the place of its foreign characters. -/
def respelled (mappings : String) : String := String.ofList (mappings.toList.flatMap respell)

/-- The bytes of a foreign character are no base64 digits. -/
theorem value?_of_foreign {c : Char} (foreign : isAlphabet c = false) {byte : UInt8}
    (member : byte ∈ Utf8.encode [c]) : Base64.value? byte = none := by
  by_cases plain : c.toNat < 128
  · have table : ∀ value : Fin 128, isAlphabet (Char.ofNat value) = false →
        ∀ byte ∈ Utf8.encode [Char.ofNat value], Base64.value? byte = none := by decide +kernel
    have own := table ⟨c.toNat, plain⟩
    rw [Char.ofNat_toNat] at own
    exact own foreign byte member
  · rw [Utf8.encode, List.flatMap_singleton] at member
    have beyond := Utf8.not_lt_of_mem_encode_char (Nat.le_of_not_lt plain) member
    cases value : Base64.value? byte with
    | none => rfl
    | some value => exact absurd (Base64.lt_of_value? ‹_›) beyond

/-- A byte that is no base64 digit is the same digit as its counterpart. -/
theorem ofByte_counterpart {byte : UInt8} (foreign : Base64.value? byte = none) :
    (Utf8.encode [counterpart byte]).map Vlq.Digit.ofByte = [Vlq.Digit.ofByte byte] := by
  have plus : (Utf8.encode ['+']).map Vlq.Digit.ofByte = [⟨30, true⟩] := by decide
  have slash : (Utf8.encode ['/']).map Vlq.Digit.ofByte = [⟨31, true⟩] := by decide
  simp only [counterpart, Vlq.Digit.ofByte, foreign]
  split <;> assumption

/-- Bytes that are no base64 digits are the same digits as their counterparts. -/
theorem digits_counterparts {bytes : List UInt8}
    (foreign : ∀ byte ∈ bytes, Base64.value? byte = none) :
    (Utf8.encode (bytes.map counterpart)).map Vlq.Digit.ofByte =
      bytes.map Vlq.Digit.ofByte := by
  induction bytes with
  | nil => rfl
  | cons byte bytes inductionHypothesis =>
    have rest := inductionHypothesis fun other member => foreign other (by simp [member])
    rw [List.map_cons, ← List.singleton_append, Utf8.encode_append, List.map_append,
      ofByte_counterpart (foreign byte (by simp)), rest, List.singleton_append, List.map_cons]

/-- Counterparts leave the digits of a text as they are. -/
theorem digits_respell (text : List Char) :
    (Utf8.encode (text.flatMap respell)).map Vlq.Digit.ofByte =
      (Utf8.encode text).map Vlq.Digit.ofByte := by
  induction text with
  | nil => rfl
  | cons c text inductionHypothesis =>
    have own : (Utf8.encode (respell c)).map Vlq.Digit.ofByte =
        (Utf8.encode [c]).map Vlq.Digit.ofByte := by
      by_cases known : isAlphabet c = true
      · rw [respell, if_pos known]
      · rw [respell, if_neg known]
        exact digits_counterparts fun byte => value?_of_foreign (Bool.eq_false_iff.mpr known)
    rw [List.flatMap_cons, Utf8.encode_append, List.map_append, own, inductionHypothesis,
      ← List.map_append, ← Utf8.encode_append, List.singleton_append]

/-- A segment is read like the one with counterparts. -/
theorem decodeSegment_respell (generated : Int) (totals : Totals) (text : List Char) :
    decodeSegment generated totals (text.flatMap respell) =
      decodeSegment generated totals text := by
  have same := Vlq.decodeFrom_congr (digits_respell text) 0 0
  simp only [decodeSegment, Vlq.decode, same]

/-- A character has at least one counterpart. -/
theorem respell_ne_nil (c : Char) : respell c ≠ [] := by
  obtain ⟨first, more, spelled, _⟩ := Utf8.step_encode_char c
  by_cases known : isAlphabet c = true
  · simp [respell, known]
  · simp [respell, known, Utf8.encode, spelled]

/-- A line is read like the one with counterparts. -/
theorem decodeLine_respell (line place : Nat) (generated : Int) (totals : Totals)
    (pieces : List (List Char)) :
    decodeLine line place generated totals (pieces.map (·.flatMap respell)) =
      decodeLine line place generated totals pieces := by
  induction pieces generalizing place generated totals with
  | nil => rfl
  | cons piece pieces inductionHypothesis =>
    cases piece with
    | nil => exact inductionHypothesis (place + 1) generated totals
    | cons c piece =>
      have inhabited : (c :: piece).flatMap respell ≠ [] := by
        rw [List.flatMap_cons]
        exact List.append_ne_nil_of_left_ne_nil (respell_ne_nil c) _
      rw [List.map_cons, decodeLine, decodeLine, decodeSegment_respell]
      · simp only [inductionHypothesis]
      · simp
      · exact inhabited

/-- A separator stands for itself and for no other character. -/
theorem split_respell {separator : Char} (own : separator = ',' ∨ separator = ';')
    (text : List Char) : Text.split separator (text.flatMap respell) =
      (Text.split separator text).map (·.flatMap respell) := by
  apply Text.split_flatMap
  · rcases own with rfl | rfl <;> decide
  · intro c different inside
    by_cases known : isAlphabet c = true
    · rw [respell, if_pos known, List.mem_singleton] at inside
      exact different inside.symm
    · rw [respell, if_neg known] at inside
      obtain ⟨byte, _, same⟩ := List.mem_map.mp inside
      have digit : separator = '+' ∨ separator = '/' := by
        rw [← same, counterpart]
        split <;> simp
      rcases own with rfl | rfl <;> exact absurd digit (by decide)

/-- Lines are read like the ones with counterparts. -/
theorem decodeLines_respell (line : Nat) (totals : Totals) (texts : List (List Char)) :
    decodeLines line totals (texts.map (·.flatMap respell)) = decodeLines line totals texts := by
  induction texts generalizing line totals with
  | nil => rfl
  | cons text texts inductionHypothesis =>
    simp only [List.map_cons, decodeLines, split_respell (.inl rfl), decodeLine_respell,
      inductionHypothesis]

/-- A respelled text holds no foreign character. -/
theorem isAlphabet_of_mem_respell {c own : Char} (member : c ∈ respell own) :
    isAlphabet c = true := by
  by_cases known : isAlphabet own = true
  · rw [respell, if_pos known, List.mem_singleton] at member
    exact member ▸ known
  · rw [respell, if_neg known] at member
    obtain ⟨byte, _, rfl⟩ := List.mem_map.mp member
    rw [counterpart]
    split <;> decide

/-- Every text is read like the one in which its foreign characters are replaced by the digits
that their bytes stand for, with the same lines or the same error, and that one holds
characters of the alphabet only. -/
theorem decode_respelled (mappings : String) : decode (respelled mappings) = decode mappings ∧
    (respelled mappings).toList.all isAlphabet = true := by
  rw [respelled, decode, String.toList_ofList]
  constructor
  · rw [split_respell (.inr rfl), decodeLines_respell, decode]
  · rw [List.all_eq_true]
    intro c member
    obtain ⟨own, _, inside⟩ := List.mem_flatMap.mp member
    exact isAlphabet_of_mem_respell inside

/-- A text with a foreign character in the middle of a value that can be read. -/
theorem decode_foreign : decode "g!A" = .ok [[Segment.unmapped 496]] ∧
    "g!A".toList.all isAlphabet = false := by
  decide +kernel

end Codec

end MapChain
