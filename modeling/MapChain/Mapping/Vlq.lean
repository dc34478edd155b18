import MapChain.Text.Base64

/-!
# Variable-length quantities

A signed integer is written in base64 digits, five bits to a digit, the low ones first.
The sixth bit of a digit says that another digit follows, and the lowest bit of the
whole is the sign.

Writing takes the fewest digits. Reading is lax: it takes redundant digits, a negative
zero, and bytes outside the alphabet, which count as digits that ask for another one.
It works in 64 bits, so what a late digit pushes beyond them is lost, and it refuses
only a fourteenth digit and a value that does not end.
-/

namespace MapChain.Vlq

/-- Why a sequence of digits is no sequence of values. -/
inductive Fault where
  /-- A value has more digits than 64 bits can take. -/
  | overflow
  /-- The last value lacks its last digit. -/
  | unfinished
  deriving DecidableEq, Repr

/-- The message of a fault. -/
def Fault.message : Fault → String
  | .overflow => "vlq decode caused an overflow"
  | .unfinished => "leftover cur/shift in vlq decode"

/-- A byte read as a digit: its five bits, and whether another digit follows. -/
structure Digit where
  bits : Nat
  continues : Bool
  deriving DecidableEq, Repr

/-- The digit of a byte. Outside the alphabet all five bits are set, but for the byte
127, where the lowest one is not. -/
def Digit.ofByte (byte : UInt8) : Digit :=
  match Base64.value? byte with
  | some value => ⟨value % 32, 32 ≤ value⟩
  | none => ⟨if byte = 127 then 30 else 31, true⟩

/-- The integer whose sign is the lowest bit of `total`. -/
def ofSigned (total : Int) : Int := if total % 2 = 1 then -(total / 2) else total / 2

/-- The total whose lowest bit is the sign of `value`. -/
def toSigned (value : Int) : Nat :=
  if value < 0 then 2 * value.natAbs + 1 else 2 * value.natAbs

/-- What a digit adds to a total at a shift, in 64 bits. -/
def place (bits shift : Nat) : Int := Int.bmod (bits <<< shift : Nat) UInt64.size

/-- Reads the values of a sequence of digits. The value that is being read has come to
`total`, and its next digit belongs at `shift`. -/
def decodeFrom (total : Int) (shift : Nat) : List UInt8 → Except Fault (List Int)
  | [] => if total ≠ 0 ∨ shift ≠ 0 then .error .unfinished else .ok []
  | byte :: rest =>
    if 64 ≤ shift then .error .overflow
    else
      let digit := Digit.ofByte byte
      let total := total + place digit.bits shift
      if digit.continues then decodeFrom total (shift + 5) rest
      else (decodeFrom 0 0 rest).map (ofSigned total :: ·)

/-- The values of a sequence of digits. -/
def decode (digits : List UInt8) : Except Fault (List Int) := decodeFrom 0 0 digits

/-- The fewest digits that spell a total. -/
def digits (total : Nat) : List Char :=
  if total < 32 then [Base64.letter total]
  else Base64.letter (total % 32 + 32) :: digits (total / 32)
termination_by total
decreasing_by omega

/-- The fewest digits that spell a value. -/
def encode (value : Int) : List Char := digits (toSigned value)

/-- The sign is undone by reading it. -/
theorem ofSigned_toSigned (value : Int) : ofSigned (toSigned value) = value := by
  simp only [ofSigned, toSigned]
  split <;> split <;> omega

end MapChain.Vlq
