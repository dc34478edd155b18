/-!
# Decimal numerals

Counts and indices in messages and documents are written in base ten without
leading zeros, with a minus sign in front of negative ones.
-/

namespace MapChain.Text

/-- The decimal digits of `n`. -/
def natural (n : Nat) : List Char := Nat.toDigits 10 n

/-- The decimal numeral of a natural number. -/
def decimal (n : Nat) : String := String.ofList (natural n)

/-- The decimal numeral of an integer. -/
def signedDecimal : Int → String
  | .ofNat n => decimal n
  | .negSucc n => "-" ++ decimal (n + 1)

end MapChain.Text
