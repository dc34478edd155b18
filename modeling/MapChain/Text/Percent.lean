import MapChain.Text.Hex
import MapChain.Text.Utf8

/-!
# Percent coding

A byte is written as a percent sign and two upper case hexadecimal digits. Encoding
keeps the ASCII letters and digits and the marks that may stand in a whole URI, and
writes every other character byte by byte. Decoding turns well-formed triples back
into bytes, leaves any other percent sign as it is, and reads the bytes leniently.
-/

namespace MapChain.Percent

/-- The marks that stand for themselves in a URI. -/
def marks : List Char := ";,/?:@&=+$-_.!~*'()#".toList

/-- A character that is written as it is. -/
def isKept (c : Char) : Bool := c.isAlphanum || marks.contains c

/-- The triple that stands for a byte. -/
def triple (byte : UInt8) : List Char :=
  ['%', Hex.upper (byte.toNat / 16), Hex.upper (byte.toNat % 16)]

/-- The text with each character that is not kept written byte by byte. -/
def encode (text : List Char) : List Char :=
  text.flatMap fun c => if isKept c then [c] else (Utf8.encode [c]).flatMap triple

/-- The byte that a pair of hexadecimal digits stands for. -/
def byte? (high low : UInt8) : Option UInt8 := do
  let high ← Hex.digit? (Char.ofNat high.toNat)
  let low ← Hex.digit? (Char.ofNat low.toNat)
  return UInt8.ofNat (high * 16 + low)

/-- The bytes with each well-formed triple replaced by the byte it stands for. -/
def decodeBytes : List UInt8 → List UInt8
  | 0x25 :: high :: low :: rest =>
    match byte? high low with
    | some byte => byte :: decodeBytes rest
    | none => 0x25 :: decodeBytes (high :: low :: rest)
  | byte :: rest => byte :: decodeBytes rest
  | [] => []

/-- The text that a percent-coded text stands for. -/
def decode (text : List Char) : List Char :=
  Utf8.decodeLossy (decodeBytes (Utf8.encode text))

end MapChain.Percent
