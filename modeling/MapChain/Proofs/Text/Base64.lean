import MapChain.Text.Base64
import MapChain.Text.Utf8

/-!
# Reading written bytes

Base64 reads back as the bytes that were written. Letters and padding signs are plain ASCII,
so the text is one byte a character, and a quantum of them gives back its three bytes, or one
or two in front of padding. The bits that padding leaves over are written as zero, which is
what reading asks for.
-/

namespace MapChain.Base64

/-- The byte of a letter in a text. -/
def code (value : Nat) : UInt8 := UInt8.ofNat (letter value).toNat

/-- A letter is one byte of text. -/
theorem encode_letter_cons {value : Nat} (small : value < 64) (text : List Char) :
    Utf8.encode (letter value :: text) = code value :: Utf8.encode text := by
  have table : ∀ value : Fin 64, String.utf8EncodeChar (letter value) = [code value] := by decide
  simp [Utf8.encode, table ⟨value, small⟩]

/-- A padding sign is one byte of text. -/
theorem encode_pad_cons (text : List Char) :
    Utf8.encode ('=' :: text) = pad :: Utf8.encode text := rfl

/-- A letter has the value that it was written for. -/
theorem value?_code {value : Nat} (small : value < 64) : value? (code value) = some value :=
  value?_letter ⟨value, small⟩

/-- No letter is a padding sign. -/
theorem code_ne_pad {value : Nat} (small : value < 64) : code value ≠ pad := by
  intro same
  have has := value?_code small
  rw [same] at has
  exact absurd has (by simp [show value? pad = none by decide])

/-- Four letters stand for three bytes. -/
theorem lastQuantum?_full {a b c d : Nat} (aSmall : a < 64) (bSmall : b < 64) (cSmall : c < 64)
    (dSmall : d < 64) : lastQuantum? (code a) (code b) (code c) (code d) =
      some [UInt8.ofNat (a * 4 + b / 16), UInt8.ofNat (b % 16 * 16 + c / 4),
        UInt8.ofNat (c % 4 * 64 + d)] := by
  simp [lastQuantum?, value?_code, code_ne_pad, aSmall, bSmall, cSmall, dSmall]

/-- Three letters and a padding sign stand for two bytes if no bits are left over. -/
theorem lastQuantum?_two {a b c : Nat} (aSmall : a < 64) (bSmall : b < 64) (cSmall : c < 64)
    (even : c % 4 = 0) : lastQuantum? (code a) (code b) (code c) pad =
      some [UInt8.ofNat (a * 4 + b / 16), UInt8.ofNat (b % 16 * 16 + c / 4)] := by
  simp [lastQuantum?, value?_code, code_ne_pad, aSmall, bSmall, cSmall, even]

/-- Two letters and two padding signs stand for one byte if no bits are left over. -/
theorem lastQuantum?_one {a b : Nat} (aSmall : a < 64) (bSmall : b < 64) (even : b % 16 = 0) :
    lastQuantum? (code a) (code b) pad pad = some [UInt8.ofNat (a * 4 + b / 16)] := by
  simp [lastQuantum?, value?_code, aSmall, bSmall, even]

/-- A byte is made of what comes to its value. -/
theorem ofNat_eq (byte : UInt8) {value : Nat} (same : value = byte.toNat) :
    UInt8.ofNat value = byte := by
  subst same
  exact UInt8.ofNat_toNat

/-- Three bytes read back from their quantum. -/
theorem lastQuantum?_encode (a b c : UInt8) :
    lastQuantum? (code (a.toNat / 4)) (code (a.toNat % 4 * 16 + b.toNat / 16))
      (code (b.toNat % 16 * 4 + c.toNat / 64)) (code (c.toNat % 64)) = some [a, b, c] := by
  have aBound := a.toNat_lt
  have bBound := b.toNat_lt
  have cBound := c.toNat_lt
  rw [lastQuantum?_full (by omega) (by omega) (by omega) (by omega),
    ofNat_eq a (by omega), ofNat_eq b (by omega),
    ofNat_eq c (by omega)]

/-- A quantum without padding may be followed by others. -/
theorem decode?_quantum {first second third fourth : UInt8} {bytes : List UInt8}
    (thirdLetter : third ≠ pad) (fourthLetter : fourth ≠ pad)
    (read : lastQuantum? first second third fourth = some bytes) (rest : List UInt8) :
    decode? (first :: second :: third :: fourth :: rest) = (decode? rest).map (bytes ++ ·) := by
  cases rest with
  | nil => simp [decode?, read]
  | cons next rest =>
    have quantum : quantum? first second third fourth = some bytes := by
      rw [quantum?, if_neg (by simp [thirdLetter, fourthLetter]), read]
    rw [decode?, quantum]
    · cases decode? (next :: rest) <;> rfl
    · simp

/-- Bytes read back from their letters. -/
theorem decode?_encode (bytes : List UInt8) :
    decode? (Utf8.encode (encode bytes)) = some bytes := by
  fun_induction encode bytes with
  | case1 => rfl
  | case2 a =>
    have bound := a.toNat_lt
    rw [encode_letter_cons (by omega), encode_letter_cons (by omega), encode_pad_cons,
      encode_pad_cons]
    refine (lastQuantum?_one (by omega) (by omega) (by omega)).trans ?_
    rw [ofNat_eq a (by omega)]
  | case3 a b =>
    have aBound := a.toNat_lt
    have bBound := b.toNat_lt
    rw [encode_letter_cons (by omega), encode_letter_cons (by omega),
      encode_letter_cons (by omega), encode_pad_cons]
    refine (lastQuantum?_two (by omega) (by omega) (by omega) (by omega)).trans ?_
    rw [ofNat_eq a (by omega), ofNat_eq b (by omega)]
  | case4 a b c rest inductionHypothesis =>
    have aBound := a.toNat_lt
    have bBound := b.toNat_lt
    have cBound := c.toNat_lt
    rw [encode_letter_cons (by omega), encode_letter_cons (by omega),
      encode_letter_cons (by omega), encode_letter_cons (by omega),
      decode?_quantum (code_ne_pad (by omega)) (code_ne_pad (by omega))
        (lastQuantum?_encode a b c), inductionHypothesis]
    rfl

/-- A written text holds letters and padding signs only. -/
theorem exists_letter_of_mem_encode {bytes : List UInt8} {c : Char} (member : c ∈ encode bytes) :
    c = '=' ∨ ∃ value < 64, c = letter value := by
  fun_induction encode bytes with
  | case1 => simp at member
  | case2 a =>
    have bound := a.toNat_lt
    simp only [List.mem_cons, List.not_mem_nil, or_false] at member
    rcases member with rfl | rfl | rfl | rfl
    · exact .inr ⟨_, by omega, rfl⟩
    · exact .inr ⟨_, by omega, rfl⟩
    · exact .inl rfl
    · exact .inl rfl
  | case3 a b =>
    have aBound := a.toNat_lt
    have bBound := b.toNat_lt
    simp only [List.mem_cons, List.not_mem_nil, or_false] at member
    rcases member with rfl | rfl | rfl | rfl
    · exact .inr ⟨_, by omega, rfl⟩
    · exact .inr ⟨_, by omega, rfl⟩
    · exact .inr ⟨_, by omega, rfl⟩
    · exact .inl rfl
  | case4 a b c rest inductionHypothesis =>
    have aBound := a.toNat_lt
    have bBound := b.toNat_lt
    have cBound := c.toNat_lt
    simp only [List.mem_cons] at member
    rcases member with rfl | rfl | rfl | rfl | member
    · exact .inr ⟨_, by omega, rfl⟩
    · exact .inr ⟨_, by omega, rfl⟩
    · exact .inr ⟨_, by omega, rfl⟩
    · exact .inr ⟨_, by omega, rfl⟩
    · exact inductionHypothesis member

end MapChain.Base64
