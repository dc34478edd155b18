import MapChain.Json.Number
import MapChain.Json.Quoted

/-!
# Reading JSON

A strict reader: no comments, no trailing commas, nothing behind the value but white
space. Arrays and objects nest at most 127 deep; the recursion is on the depth that is
left. The readers of items and members get a bound on how many there can be, for which
the length of the input is enough because every item takes a character.
-/

namespace MapChain.Json

/-- Arrays and objects that may be open at once. -/
def nesting : Nat := 127

/-- Reads a value of one spelling. -/
def word? (spelling : List Char) (value : Json) (input : List Char) :
    Option (Json × List Char) :=
  (spelling.isPrefixOf? input).map fun rest => (value, rest)

/-- Reads a value that holds no other values, without space in front. -/
def scalar? : List Char → Option (Json × List Char)
  | 'n' :: rest => word? "ull".toList .null rest
  | 't' :: rest => word? "rue".toList (.bool true) rest
  | 'f' :: rest => word? "alse".toList (.bool false) rest
  | '"' :: rest => (Quoted.decode? rest).map fun read => (.string (String.ofList read.1), read.2)
  | input => Number.decode? input

/-- Reads one or more items up to `close`, a comma between any two of them. -/
def separated? (item : List Char → Option (α × List Char)) (close : Char) :
    (bound : Nat) → List Char → Option (List α × List Char)
  | 0, _ => none
  | bound + 1, input => do
    let (first, rest) ← item input
    match skipSpace rest with
    | [] => none
    | c :: rest =>
      if c = close then return ([first], rest)
      if c ≠ ',' then none
      let (items, rest) ← separated? item close bound rest
      return (first :: items, rest)

/-- Reads the items up to `close`, of which there may be none. -/
def enclosed? (item : List Char → Option (α × List Char)) (close : Char)
    (input : List Char) : Option (List α × List Char) :=
  match skipSpace input with
  | [] => none
  | c :: rest =>
    if c = close then some ([], rest) else separated? item close input.length input

/-- Reads a name, a colon and a value. -/
def member? (value : List Char → Option (Json × List Char)) (input : List Char) :
    Option ((String × Json) × List Char) :=
  match skipSpace input with
  | '"' :: rest => do
    let (name, rest) ← Quoted.decode? rest
    match skipSpace rest with
    | ':' :: rest =>
      let (value, rest) ← value rest
      return ((String.ofList name, value), rest)
    | _ => none
  | _ => none

/-- Reads a value in which arrays and objects nest at most `depth` deep. -/
def value? : (depth : Nat) → List Char → Option (Json × List Char)
  | 0, input => scalar? (skipSpace input)
  | depth + 1, input =>
    match skipSpace input with
    | '[' :: rest =>
      (enclosed? (value? depth) ']' rest).map fun read => (.array read.1, read.2)
    | '\x7b' :: rest =>
      (enclosed? (member? (value? depth)) '\x7d' rest).map fun read => (.object read.1, read.2)
    | input => scalar? input

/-- The value that a text spells, if it is well-formed JSON. -/
def decode? (text : List Char) : Option Json := do
  let (value, rest) ← value? nesting text
  if skipSpace rest = [] then return value else none

end MapChain.Json
