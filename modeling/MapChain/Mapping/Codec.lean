import MapChain.Mapping.Segment
import MapChain.Mapping.Vlq
import MapChain.Text.Decimal
import MapChain.Text.Split
import MapChain.Text.Utf8

/-!
# The mappings text

Generated lines are separated by semicolons and the segments of a line by commas. A
segment holds one, four or five values: its generated column, then source, line and
column in the source, and name. Each value is the difference to the one before it of
its kind. The generated column starts at zero on every line; the other kinds run
through the text.

Empty segments are skipped but counted. Every running total has to be an index, that
is, to lie in 32 bits, at each segment that moves it. Lines come out sorted.
-/

namespace MapChain.Codec

/-- The five kinds of values. -/
inductive Field where
  | generatedColumn
  | source
  | line
  | column
  | name
  deriving DecidableEq, Repr

/-- What a field is called in messages. -/
def Field.title : Field → String
  | .generatedColumn => "generated column"
  | .source => "source index"
  | .line => "original line"
  | .column => "original column"
  | .name => "name index"

/-- Why a segment cannot be read. -/
inductive Fault where
  | digits (fault : Vlq.Fault)
  | outOfRange (field : Field) (total : Int)
  | fieldCount (count : Nat)
  deriving DecidableEq, Repr

/-- The message of a fault. -/
def Fault.message : Fault → String
  | .digits fault => fault.message
  | .outOfRange field total => field.title ++ " out of range: " ++ Text.signedDecimal total
  | .fieldCount count => "segment has " ++ Text.decimal count ++ " fields"

/-- The running totals that lines share. -/
structure Totals where
  source : Int := 0
  line : Int := 0
  column : Int := 0
  name : Int := 0
  deriving DecidableEq, Repr

/-- A total as an index. -/
def index (field : Field) (total : Int) : Except Fault UInt32 :=
  if 0 ≤ total ∧ total < UInt32.size then .ok (UInt32.ofNat total.toNat)
  else .error (.outOfRange field total)

/-- The totals behind the values that follow a segment's column. -/
def Totals.move (totals : Totals) (source line column : Int) (name : Option Int) : Totals where
  source := totals.source + source
  line := totals.line + line
  column := totals.column + column
  name := totals.name + name.getD 0

/-- The origin at which the totals stand. The name is checked first. -/
def Totals.origin (totals : Totals) (named : Bool) : Except Fault Origin := do
  let name ← if named then some <$> index .name totals.name else .ok none
  return ⟨← index .source totals.source, ← index .line totals.line,
    ← index .column totals.column, name⟩

/-- The segment of a list of values, with the generated column and the totals behind it.
The generated column is checked before the values are counted. -/
def segment (generated : Int) (totals : Totals) :
    List Int → Except Fault (Segment × Int × Totals)
  | [] => .error (.fieldCount 0)
  | first :: others => do
    let generated := generated + first
    let column ← index .generatedColumn generated
    match others with
    | [] => return (.unmapped column, generated, totals)
    | [source, line, inner] =>
      let totals := totals.move source line inner none
      return (⟨column, some (← totals.origin false)⟩, generated, totals)
    | [source, line, inner, name] =>
      let totals := totals.move source line inner (some name)
      return (⟨column, some (← totals.origin true)⟩, generated, totals)
    | _ => .error (.fieldCount (others.length + 1))

/-- Reads one segment from its text. -/
def decodeSegment (generated : Int) (totals : Totals) (text : List Char) :
    Except Fault (Segment × Int × Totals) :=
  match Vlq.decode (Utf8.encode text) with
  | .error fault => .error (.digits fault)
  | .ok values => segment generated totals values

/-- A fault with its place: the line counts from one, the segment from zero and with
the empty ones. -/
structure Error where
  line : Nat
  segment : Nat
  fault : Fault
  deriving DecidableEq, Repr

/-- Reads the segments of a line, which are unsorted yet. -/
def decodeLine (line : Nat) : (place : Nat) → (generated : Int) → Totals → List (List Char) →
    Except Error (List Segment × Totals)
  | _, _, totals, [] => .ok ([], totals)
  | place, generated, totals, [] :: pieces =>
    decodeLine line (place + 1) generated totals pieces
  | place, generated, totals, piece :: pieces =>
    match decodeSegment generated totals piece with
    | .error fault => .error ⟨line, place, fault⟩
    | .ok (segment, generated, totals) =>
      (decodeLine line (place + 1) generated totals pieces).map fun read =>
        (segment :: read.1, read.2)

/-- Reads lines and sorts each of them. -/
def decodeLines : (line : Nat) → Totals → List (List Char) → Except Error (List (List Segment))
  | _, _, [] => .ok []
  | line, totals, text :: texts =>
    match decodeLine line 0 0 totals (Text.split ',' text) with
    | .error error => .error error
    | .ok (segments, totals) =>
      (decodeLines (line + 1) totals texts).map (Segment.sort segments :: ·)

/-- The lines of segments that a mappings text stands for. -/
def decode (mappings : String) : Except Error (List (List Segment)) :=
  decodeLines 1 {} (Text.split ';' mappings.toList)

/-- An index as a total. -/
def total (index : UInt32) : Int := index.toNat

/-- The differences that a segment is written as, and the totals behind it. -/
def differences (generated : Int) (totals : Totals) (segment : Segment) : List Int × Totals :=
  let first := total segment.column - generated
  match segment.origin with
  | none => ([first], totals)
  | some origin =>
    let moved : Totals :=
      { source := total origin.source, line := total origin.line,
        column := total origin.column, name := (origin.name.map total).getD totals.name }
    let shared := [first, moved.source - totals.source, moved.line - totals.line,
      moved.column - totals.column]
    match origin.name with
    | none => (shared, moved)
    | some _ => (shared ++ [moved.name - totals.name], moved)

/-- A line's segments as texts, and the totals behind the line. -/
def encodeLine (generated : Int) (totals : Totals) : List Segment → List (List Char) × Totals
  | [] => ([], totals)
  | segment :: rest =>
    let (values, totals) := differences generated totals segment
    let (texts, totals) := encodeLine (total segment.column) totals rest
    (values.flatMap Vlq.encode :: texts, totals)

/-- Lines as texts. -/
def encodeLines (totals : Totals) : List (List Segment) → List (List Char)
  | [] => []
  | line :: rest =>
    let (texts, totals) := encodeLine 0 totals line
    Text.join ',' texts :: encodeLines totals rest

/-- The mappings text of lines of segments. -/
def encode (lines : List (List Segment)) : String :=
  String.ofList (Text.join ';' (encodeLines {} lines))

end MapChain.Codec
