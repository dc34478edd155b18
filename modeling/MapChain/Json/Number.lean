import MapChain.Json.Basic

/-!
# JSON numbers

A number is read into a significand of at most 64 bits and a power of ten. Digits of
the whole part that no longer fit only raise the power; digits of the fraction that no
longer fit are dropped. A number is refused if it is beyond the range of doubles, that
is, if the rounded product of the rounded significand and the rounded power of ten is.
-/

namespace MapChain.Json.Number

/-- The largest significand plus one. -/
def limit : Nat := UInt64.size

/-- The value of a decimal digit. -/
def digit (c : Char) : Nat := c.toNat - 48

/-- Adds the digits of a whole part to a significand while they fit, and counts those
that do not. -/
def whole (significand : Nat) : List Char → Nat × Nat
  | [] => (significand, 0)
  | c :: rest =>
    let longer := significand * 10 + digit c
    if longer < limit then whole longer rest else (significand, rest.length + 1)

/-- Adds the digits of a fraction to a significand while they fit, and counts those
that do. -/
def fraction (significand : Nat) : List Char → Nat × Nat
  | [] => (significand, 0)
  | c :: rest =>
    let longer := significand * 10 + digit c
    if longer < limit then
      let read := fraction longer rest
      (read.1, read.2 + 1)
    else (significand, 0)

/-- The value of a sequence of decimal digits. -/
def value (digits : List Char) : Nat := digits.foldl (fun n c => n * 10 + digit c) 0

/-- The nearest number with 53 significant bits; a tie goes to the even one. -/
def round53 (n : Nat) : Nat :=
  let spare := n.log2 + 1 - 53
  let unit := 1 <<< spare
  let kept := n / unit
  let lost := n % unit
  if 2 * lost > unit ∨ (2 * lost = unit ∧ kept % 2 = 1) then (kept + 1) * unit else kept * unit

/-- Whether a significand times a power of ten is beyond the range of doubles. -/
def tooLarge (significand : Nat) (exponent : Int) : Bool :=
  if significand = 0 ∨ exponent ≤ 0 then false
  else if 308 < exponent then true
  else 1 <<< 1024 ≤ round53 (round53 significand * round53 (Nat.pow 10 exponent.toNat))

/-- Reads the exponent that may follow a number, as an integer and the rest. Behind
the mark there is at least one digit. -/
def exponent? : List Char → Option (Option Int × List Char)
  | [] => some (none, [])
  | mark :: rest =>
    if mark = 'e' ∨ mark = 'E' then
      let (negative, rest) :=
        match rest with
        | '-' :: rest => (true, rest)
        | '+' :: rest => (false, rest)
        | rest => (false, rest)
      let digits := rest.takeWhile Char.isDigit
      if digits = [] then none
      else
        let size : Int := value digits
        some (some (if negative then -size else size), rest.dropWhile Char.isDigit)
    else some (none, mark :: rest)

/-- Reads the digits behind a point, if there is a point. Behind it there is at least
one digit. -/
def fraction? : List Char → Option (Option (List Char) × List Char)
  | '.' :: rest =>
    let digits := rest.takeWhile Char.isDigit
    if digits = [] then none else some (some digits, rest.dropWhile Char.isDigit)
  | rest => some (none, rest)

/-- Reads a number without its sign. A whole part of several digits does not start
with zero. -/
def unsigned? (negative : Bool) (input : List Char) : Option (Json × List Char) := do
  let digits := input.takeWhile Char.isDigit
  if digits = [] ∨ (digits.head? = some '0' ∧ digits.length ≠ 1) then none
  let (significand, dropped) := whole 0 digits
  let (places, rest) ← fraction? (input.dropWhile Char.isDigit)
  let (power, rest) ← exponent? rest
  if places = none ∧ power = none ∧ dropped = 0 ∧ negative = false then
    return (.natural significand, rest)
  let (significand, kept) := fraction significand (places.getD [])
  let exponent : Int := dropped - kept + power.getD 0
  if tooLarge significand exponent then none
  return (.decimal negative significand exponent, rest)

/-- Reads a number at the front of the input. -/
def decode? : List Char → Option (Json × List Char)
  | '-' :: rest => unsigned? true rest
  | input => unsigned? false input

end MapChain.Json.Number
