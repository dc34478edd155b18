import MapChain.Text.Hex

/-!
# Quoted text

A JSON string stands between quotation marks. Writing escapes the quotation mark, the
backslash and the characters below U+0020, five of them by a letter, and leaves
everything else as it is. Reading knows the eight letter escapes and `\u` with four
digits of either case; two such escapes form one character where they are a
surrogate pair, and a surrogate on its own is refused.
-/

namespace MapChain.Json.Quoted

/-- The letter that escapes a character, for those that have one when written. -/
def letter? (c : Char) : Option Char :=
  if c = '"' then some '"'
  else if c = '\\' then some '\\'
  else if c = '\x08' then some 'b'
  else if c = '\t' then some 't'
  else if c = '\n' then some 'n'
  else if c = '\x0c' then some 'f'
  else if c = '\r' then some 'r'
  else none

/-- A character as it is written between quotation marks. -/
def escape (c : Char) : List Char :=
  match letter? c with
  | some letter => ['\\', letter]
  | none =>
    if c.toNat < 0x20 then
      ['\\', 'u', '0', '0', Hex.lower (c.toNat / 16), Hex.lower (c.toNat % 16)]
    else [c]

/-- A text between quotation marks. -/
def encode (text : List Char) : List Char := '"' :: text.flatMap escape ++ ['"']

/-- The character that a letter escape stands for. -/
def ofLetter? (letter : Char) : Option Char :=
  if letter = '"' ∨ letter = '\\' ∨ letter = '/' then some letter
  else if letter = 'b' then some '\x08'
  else if letter = 't' then some '\t'
  else if letter = 'n' then some '\n'
  else if letter = 'f' then some '\x0c'
  else if letter = 'r' then some '\r'
  else none

/-- The sixteen-bit unit of four hexadecimal digits. -/
def unit? (a b c d : Char) : Option Nat := do
  let a ← Hex.digit? a
  let b ← Hex.digit? b
  let c ← Hex.digit? c
  let d ← Hex.digit? d
  return ((a * 16 + b) * 16 + c) * 16 + d

/-- A unit that starts a surrogate pair. -/
def isHigh (unit : Nat) : Bool := 0xD800 ≤ unit && unit < 0xDC00

/-- A unit that ends a surrogate pair. -/
def isLow (unit : Nat) : Bool := 0xDC00 ≤ unit && unit < 0xE000

/-- The character of a surrogate pair. -/
def ofPair? (high low : Nat) : Option Char :=
  if isLow low then some (Char.ofNat (0x10000 + (high - 0xD800) * 0x400 + (low - 0xDC00)))
  else none

/-- Reads the text up to the closing quotation mark and returns what stands behind
that mark. -/
def decode? : List Char → Option (List Char × List Char)
  | [] => none
  | '\\' :: 'u' :: a :: b :: c :: d :: rest =>
    match unit? a b c d with
    | none => none
    | some unit =>
      if isHigh unit then
        match rest with
        | '\\' :: 'u' :: e :: f :: g :: h :: rest =>
          match unit? e f g h with
          | none => none
          | some low =>
            match ofPair? unit low with
            | none => none
            | some pair => (decode? rest).map fun read => (pair :: read.1, read.2)
        | _ => none
      else if isLow unit then none
      else (decode? rest).map fun read => (Char.ofNat unit :: read.1, read.2)
  | '\\' :: letter :: rest =>
    match ofLetter? letter with
    | none => none
    | some c => (decode? rest).map fun read => (c :: read.1, read.2)
  | c :: rest =>
    if c = '"' then some ([], rest)
    else if c = '\\' ∨ c.toNat < 0x20 then none
    else (decode? rest).map fun read => (c :: read.1, read.2)

end MapChain.Json.Quoted
