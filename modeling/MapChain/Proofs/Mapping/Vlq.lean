import MapChain.Mapping.Vlq
import MapChain.Text.Utf8
import Mathlib.Algebra.Ring.Int.Defs
import Mathlib.Algebra.Ring.Nat

/-!
# Reading written quantities

The fewest digits that spell a value read back as that value, and a sequence of values
written one behind the other reads back as the sequence. Values may lie anywhere between
the smallest and the largest that 63 bits can hold, sign apart; that is far beyond the
differences of 32-bit indices.
-/

namespace MapChain

/-- Texts are written one behind the other as their bytes are. -/
theorem Utf8.encode_append (first second : List Char) :
    encode (first ++ second) = encode first ++ encode second := by
  simp [encode]

namespace Vlq

/-- The byte of a letter is a digit with the five low bits of the letter's value, and its
sixth bit asks for another digit. -/
theorem ofByte_letter (value : Nat) (small : value < 64) :
    ∃ byte, Utf8.encode [Base64.letter value] = [byte] ∧
      Digit.ofByte byte = ⟨value % 32, 32 ≤ value⟩ := by
  have table : ∀ value : Fin 64,
      Utf8.encode [Base64.letter value] = [UInt8.ofNat (Base64.letter value).toNat] := by decide
  refine ⟨_, table ⟨value, small⟩, ?_⟩
  simp only [Digit.ofByte, Base64.value?_letter ⟨value, small⟩]

/-- Letters are neither separators of segments nor of lines. -/
theorem letter_ne_separator (value : Nat) (small : value < 64) :
    Base64.letter value ≠ ',' ∧ Base64.letter value ≠ ';' := by
  have table : ∀ value : Fin 64,
      Base64.letter value ≠ ',' ∧ Base64.letter value ≠ ';' := by decide
  exact table ⟨value, small⟩

/-- Bits that stay below the sign of 64 bits keep their value. -/
theorem place_eq (bits shift : Nat) (fits : bits * 2 ^ shift < 2 ^ 63) :
    place bits shift = bits * 2 ^ shift := by
  have size : UInt64.size = 2 * 2 ^ 63 := rfl
  have self : Int.bmod (bits * 2 ^ shift : Nat) UInt64.size = (bits * 2 ^ shift : Nat) :=
    Int.bmod_eq_of_le_mul_two (by omega) (by omega)
  unfold place
  rw [Nat.shiftLeft_eq, self]
  push_cast
  rfl

/-- Reading a letter adds its low bits, and either goes on with the same value or closes it. -/
theorem decodeFrom_letter (total : Int) (shift value : Nat) (rest : List UInt8)
    (small : value < 64) (room : shift < 64) :
    decodeFrom total shift (Utf8.encode [Base64.letter value] ++ rest) =
      if 32 ≤ value then decodeFrom (total + place (value % 32) shift) (shift + 5) rest
      else (decodeFrom 0 0 rest).map (ofSigned (total + place (value % 32) shift) :: ·) := by
  obtain ⟨byte, spelled, digit⟩ := ofByte_letter value small
  rw [spelled, List.singleton_append, decodeFrom, if_neg (by omega)]
  simp only [digit, decide_eq_true_eq]

/-- A total at a place is its five low bits there and the rest of it five places higher. -/
theorem mul_place_eq (number shift : Nat) : number * 2 ^ shift =
    number % 32 * 2 ^ shift + number / 32 * 2 ^ (shift + 5) := by
  conv => lhs; rw [← Nat.mod_add_div number 32]
  rw [Nat.add_mul, Nat.pow_add, Nat.mul_comm 32, Nat.mul_assoc, Nat.mul_comm 32]

/-- Where a total of more than five bits fits, there is a place five bits higher. -/
theorem place_lt {number shift : Nat} (more : ¬number < 32) (fits : number * 2 ^ shift < 2 ^ 63) :
    shift + 5 < 64 := by
  have higher : number / 32 * 2 ^ (shift + 5) < 2 ^ 63 := by
    rw [mul_place_eq] at fits
    omega
  have positive : 1 ≤ number / 32 := by omega
  have power : 2 ^ (shift + 5) < 2 ^ 63 :=
    Nat.lt_of_le_of_lt (Nat.le_mul_of_pos_left _ positive) higher
  have exponent : shift + 5 < 63 := (Nat.pow_lt_pow_iff_right (by decide)).mp power
  omega

/-- The digits of a total close one value, with what has been read before added to it.

The induction is on the total, which loses its five low bits with every digit; what is
left belongs five places higher, so the bound on the whole stays the same. -/
theorem decodeFrom_digits (number shift : Nat) (total : Int) (rest : List UInt8)
    (room : shift < 64) (fits : number * 2 ^ shift < 2 ^ 63) :
    decodeFrom total shift (Utf8.encode (digits number) ++ rest) =
      (decodeFrom 0 0 rest).map (ofSigned (total + number * 2 ^ shift) :: ·) := by
  induction number using Nat.strongRecOn generalizing shift total with
  | ind number inductionHypothesis =>
    rw [digits]
    by_cases last : number < 32
    · have low : number % 32 = number := Nat.mod_eq_of_lt last
      rw [if_pos last, decodeFrom_letter total shift number rest (by omega) room,
        if_neg (by omega), low, place_eq number shift fits]
    · have parted := mul_place_eq number shift
      have higher : number / 32 * 2 ^ (shift + 5) < 2 ^ 63 := by omega
      have low : (number % 32 + 32) % 32 = number % 32 := by omega
      rw [if_neg last, ← List.singleton_append, Utf8.encode_append, List.append_assoc,
        decodeFrom_letter total shift _ _ (by omega) room, if_pos (by omega), low,
        place_eq _ shift (by omega),
        inductionHypothesis _ (by omega) _ _ (place_lt last fits) higher]
      have sum : total + ↑(number % 32) * 2 ^ shift + ↑(number / 32) * 2 ^ (shift + 5) =
          total + (number : Int) * 2 ^ shift := by
        have whole : (number : Int) * 2 ^ shift =
            ↑(number % 32) * 2 ^ shift + ↑(number / 32) * 2 ^ (shift + 5) := by
          exact_mod_cast parted
        omega
      rw [sum]

/-- Values written one behind the other read back. -/
theorem decode_encode (values : List Int)
    (bounded : ∀ value ∈ values, value.natAbs < 2 ^ 61) :
    decode (Utf8.encode (values.flatMap encode)) = .ok values := by
  rw [decode]
  induction values with
  | nil => rfl
  | cons value values inductionHypothesis =>
    have small : value.natAbs < 2 ^ 61 := bounded value (by simp)
    have fits : toSigned value * 2 ^ 0 < 2 ^ 63 := by
      simp only [toSigned]
      split <;> omega
    have rest := inductionHypothesis fun other member => bounded other (by simp [member])
    rw [List.flatMap_cons, Utf8.encode_append, encode,
      decodeFrom_digits (toSigned value) 0 0 _ (by decide) fits, rest]
    simp [Except.map, ofSigned_toSigned]

/-- The digits of a total are letters. -/
theorem exists_letter_of_mem_digits (number : Nat) (c : Char) (member : c ∈ digits number) :
    ∃ value < 64, c = Base64.letter value := by
  induction number using Nat.strongRecOn with
  | ind number inductionHypothesis =>
    rw [digits] at member
    split at member
    · exact ⟨number, by omega, by simpa using member⟩
    · rcases List.mem_cons.mp member with rfl | member
      · exact ⟨_, by omega, rfl⟩
      · exact inductionHypothesis _ (by omega) member

/-- A written value holds neither a separator of segments nor one of lines. -/
theorem ne_separator_of_mem_encode (value : Int) (c : Char) (member : c ∈ encode value) :
    c ≠ ',' ∧ c ≠ ';' := by
  obtain ⟨digit, small, rfl⟩ := exists_letter_of_mem_digits (toSigned value) c member
  exact letter_ne_separator digit small

/-- A written value has at least one digit. -/
theorem encode_ne_nil (value : Int) : encode value ≠ [] := by
  rw [encode, digits]
  split <;> simp

end Vlq

end MapChain
