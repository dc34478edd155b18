import MapChain.Json.Basic
import MapChain.Json.Quoted
import MapChain.Text.Decimal

/-!
# Writing JSON

Values are written in one of two layouts, which differ only in the white space that
they put in front of items, in front of closing brackets and behind colons. An array
or object without items has no inner space in either.
-/

namespace MapChain.Json

/-- The white space of a written form. -/
structure Layout where
  /-- What stands in front of an item or a closing bracket at a depth. -/
  lineBreak : Nat → List Char
  /-- What stands behind a colon. -/
  gap : List Char

namespace Layout

/-- No white space at all. -/
def compact : Layout := ⟨fun _ => [], []⟩

/-- Every item on a line of its own, two spaces deeper than what holds it. -/
def pretty : Layout := ⟨fun depth => '\n' :: List.replicate (2 * depth) ' ', [' ']⟩

end Layout

mutual

/-- A value as it is written at a depth. -/
def write (layout : Layout) (depth : Nat) : Json → List Char
  | .null => "null".toList
  | .bool true => "true".toList
  | .bool false => "false".toList
  | .natural value => Text.natural value
  | .decimal negative significand exponent =>
    (if negative then ['-'] else []) ++ Text.natural significand ++
      'e' :: (Text.signedDecimal exponent).toList
  | .string value => Quoted.encode value.toList
  | .array [] => "[]".toList
  | .array (item :: items) =>
    '[' :: layout.lineBreak (depth + 1) ++ write layout (depth + 1) item ++
      writeItems layout (depth + 1) items ++ layout.lineBreak depth ++ [']']
  | .object [] => ['\x7b', '\x7d']
  | .object ((name, value) :: members) =>
    '\x7b' :: layout.lineBreak (depth + 1) ++ Quoted.encode name.toList ++ ':' :: layout.gap ++
      write layout (depth + 1) value ++ writeMembers layout (depth + 1) members ++
      layout.lineBreak depth ++ ['\x7d']

/-- The items behind the first one. -/
def writeItems (layout : Layout) (depth : Nat) : List Json → List Char
  | [] => []
  | item :: items =>
    ',' :: layout.lineBreak depth ++ write layout depth item ++ writeItems layout depth items

/-- The members behind the first one. -/
def writeMembers (layout : Layout) (depth : Nat) : List (String × Json) → List Char
  | [] => []
  | (name, value) :: members =>
    ',' :: layout.lineBreak depth ++ Quoted.encode name.toList ++ ':' :: layout.gap ++
      write layout depth value ++ writeMembers layout depth members

end

/-- The value on one line, without spaces. -/
def compact (value : Json) : String := String.ofList (value.write .compact 0)

/-- The value over several lines, indented by two spaces. -/
def pretty (value : Json) : String := String.ofList (value.write .pretty 0)

end MapChain.Json
