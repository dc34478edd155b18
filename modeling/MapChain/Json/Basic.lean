/-!
# JSON values

Members of an object stay in the order in which they were written, duplicates
included; looking up a field takes the last one of its name. Numbers keep only what
readers of map documents can tell apart: natural numbers below 2^64 written without
fraction and exponent, and all others.
-/

namespace MapChain

/-- A JSON value. -/
inductive Json where
  | null
  | bool (value : Bool)
  /-- An integer literal without sign. -/
  | natural (value : Nat)
  /-- Any other number, as a significand and a power of ten. -/
  | decimal (negative : Bool) (significand : Nat) (exponent : Int)
  | string (value : String)
  | array (items : List Json)
  | object (members : List (String × Json))
  deriving Inhabited, Repr

namespace Json

/-- The value of an object's last member of this name. -/
def field? (name : String) : Json → Option Json
  | .object members => (members.reverse.find? fun member => member.1 == name).map (·.2)
  | _ => none

/-- A string, or null for none. -/
def ofString? : Option String → Json
  | some text => .string text
  | none => .null

/-- White space between tokens. -/
def isSpace (c : Char) : Bool := c == ' ' || c == '\t' || c == '\n' || c == '\r'

/-- The input from its first token on. -/
def skipSpace (input : List Char) : List Char := input.dropWhile isSpace

end Json

end MapChain
