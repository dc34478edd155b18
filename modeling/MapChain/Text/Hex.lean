/-!
# Hexadecimal digits

Reading takes either case. Writing is upper case for percent coding and lower case
for escapes in quoted text.
-/

namespace MapChain.Hex

/-- The value of a hexadecimal digit of either case. -/
def digit? (c : Char) : Option Nat :=
  let code := c.toNat
  if 48 ≤ code ∧ code ≤ 57 then some (code - 48)
  else if 65 ≤ code ∧ code ≤ 70 then some (code - 55)
  else if 97 ≤ code ∧ code ≤ 102 then some (code - 87)
  else none

/-- The upper case digit of a value below sixteen. -/
def upper (value : Nat) : Char := Char.ofNat (if value < 10 then 48 + value else 55 + value)

/-- The lower case digit of a value below sixteen. -/
def lower (value : Nat) : Char := Char.ofNat (if value < 10 then 48 + value else 87 + value)

/-- Both spellings of a digit read back. -/
theorem digit?_upper_lower (value : Fin 16) :
    digit? (upper value) = some value.val ∧ digit? (lower value) = some value.val := by
  revert value
  decide

end MapChain.Hex
