/-!
# Base64

The standard alphabet, three bytes in four letters. Reading accepts only what writing
produces: the text is a whole number of quanta, padding stands only at the end and
completes the last quantum, and the bits that padding leaves over are zero.
-/

namespace MapChain.Base64

/-- The letter of a value below sixty-four. -/
def letter (value : Nat) : Char :=
  if value < 26 then Char.ofNat (65 + value)
  else if value < 52 then Char.ofNat (71 + value)
  else if value < 62 then Char.ofNat (value - 4)
  else if value = 62 then '+'
  else '/'

/-- The value of a letter, given as a byte of text. -/
def value? (byte : UInt8) : Option Nat :=
  if 65 ≤ byte ∧ byte ≤ 90 then some (byte.toNat - 65)
  else if 97 ≤ byte ∧ byte ≤ 122 then some (byte.toNat - 71)
  else if 48 ≤ byte ∧ byte ≤ 57 then some (byte.toNat + 4)
  else if byte = 43 then some 62
  else if byte = 47 then some 63
  else none

/-- Each letter has the value it was written for. -/
theorem value?_letter (value : Fin 64) :
    value? (UInt8.ofNat (letter value).toNat) = some value.val := by
  revert value
  decide

/-- The letters of a sequence of bytes, padded to whole quanta. -/
def encode : List UInt8 → List Char
  | [] => []
  | [a] => [letter (a.toNat / 4), letter (a.toNat % 4 * 16), '=', '=']
  | [a, b] =>
    [letter (a.toNat / 4), letter (a.toNat % 4 * 16 + b.toNat / 16),
      letter (b.toNat % 16 * 4), '=']
  | a :: b :: c :: rest =>
    letter (a.toNat / 4) :: letter (a.toNat % 4 * 16 + b.toNat / 16) ::
      letter (b.toNat % 16 * 4 + c.toNat / 64) :: letter (c.toNat % 64) :: encode rest

/-- The byte of a padding sign. -/
def pad : UInt8 := 61

/-- The bytes that a last quantum stands for, padded or not. -/
def lastQuantum? (first second third fourth : UInt8) : Option (List UInt8) := do
  let a ← value? first
  let b ← value? second
  let head := UInt8.ofNat (a * 4 + b / 16)
  if third = pad then
    if fourth = pad ∧ b % 16 = 0 then some [head] else none
  else
    let c ← value? third
    let middle := UInt8.ofNat (b % 16 * 16 + c / 4)
    if fourth = pad then
      if c % 4 = 0 then some [head, middle] else none
    else
      let d ← value? fourth
      some [head, middle, UInt8.ofNat (c % 4 * 64 + d)]

/-- The bytes that an unpadded quantum stands for. -/
def quantum? (first second third fourth : UInt8) : Option (List UInt8) :=
  if third = pad ∨ fourth = pad then none else lastQuantum? first second third fourth

/-- The bytes that a text stands for, given as bytes itself. -/
def decode? : List UInt8 → Option (List UInt8)
  | [] => some []
  | [first, second, third, fourth] => lastQuantum? first second third fourth
  | first :: second :: third :: fourth :: rest => do
    let bytes ← quantum? first second third fourth
    return bytes ++ (← decode? rest)
  | _ => none

end MapChain.Base64
