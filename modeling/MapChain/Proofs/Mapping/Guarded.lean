import MapChain.Proofs.Mapping.Canonical

/-!
# The room that totals need

Reading moves its running totals before it looks whether they are indices. So it is not the
totals that bound the sums but the checks: a total that is no index ends the reading, and
every sum is one of an index and a value. Values have 63 bits with their sign, whatever bytes
they are read from.

To say so of every step, reading is written down once more with guards: it stops where a
segment starts from a total that is no index, and where a sum does not fit into 64 bits. No
guard ever stops it, for no text, also where it stops for another reason.

Writing takes differences between indices. They are what it writes, and 33 bits hold each of
them with its sign.
-/

namespace MapChain

/-- The integers that 64 bits hold, one of them being the sign. -/
def IsWord (value : Int) : Prop := -2 ^ 63 ≤ value ∧ value < 2 ^ 63

/-- Whether an integer fits can be computed. -/
instance (value : Int) : Decidable (IsWord value) :=
  inferInstanceAs <| Decidable <| -2 ^ 63 ≤ value ∧ value < 2 ^ 63

namespace Vlq

/-- A digit has five bits, whatever byte it is read from. -/
theorem bits_ofByte_lt (byte : UInt8) : (Digit.ofByte byte).bits < 32 := by
  rw [Digit.ofByte]
  split
  · exact Nat.mod_lt _ (by decide)
  · dsimp only
    split <;> decide

/-- The thirteenth digit of a value has room for four bits, the highest of which is the sign. -/
theorem place_sixty {bits : Nat} (small : bits < 32) :
    -2 ^ 63 ≤ place bits 60 ∧ place bits 60 ≤ 7 * 2 ^ 60 := by
  have table : ∀ bits : Fin 32, -2 ^ 63 ≤ place bits 60 ∧ place bits 60 ≤ 7 * 2 ^ 60 := by
    decide +kernel
  exact table ⟨bits, small⟩

/-- What up to twelve digits come to: a count of their bits. Nothing is read behind a
thirteenth. -/
def IsPartial (total : Int) (digits : Nat) : Prop :=
  digits ≤ 12 → ∃ number < 2 ^ (5 * digits), total = (number : Nat)

/-- Before a digit is read, a value has come to zero. -/
theorem isPartial_zero : IsPartial 0 0 := fun _ => ⟨0, by decide, rfl⟩

/-- A digit that is read leaves the total in 64 bits. -/
theorem isPartial_add_place {total : Int} {digits bits : Nat} (read : IsPartial total digits)
    (room : digits ≤ 12) (small : bits < 32) :
    IsWord (total + place bits (5 * digits)) ∧
      IsPartial (total + place bits (5 * digits)) (digits + 1) := by
  obtain ⟨number, bounded, rfl⟩ := read room
  rcases Nat.lt_or_eq_of_le room with more | rfl
  · have power : 2 ^ (5 * digits) ≤ 2 ^ 55 := Nat.pow_le_pow_right (by decide) (by omega)
    have most : bits * 2 ^ (5 * digits) ≤ 31 * 2 ^ (5 * digits) :=
      Nat.mul_le_mul_right _ (by omega)
    have next : 2 ^ (5 * (digits + 1)) = 32 * 2 ^ (5 * digits) := by
      rw [Nat.mul_succ, Nat.pow_add, Nat.mul_comm]
    have placed : number + place bits (5 * digits) = (number + bits * 2 ^ (5 * digits) : Nat) := by
      rw [place_eq bits _ (by omega)]
      push_cast
      rfl
    rw [placed]
    exact ⟨⟨by omega, by omega⟩, fun _ => ⟨_, by omega, rfl⟩⟩
  · have placed : -2 ^ 63 ≤ place bits (5 * 12) ∧ place bits (5 * 12) ≤ 7 * 2 ^ 60 :=
      place_sixty small
    exact ⟨⟨by omega, by omega⟩, fun impossible => absurd impossible (by decide)⟩

/-- The values that 64 bits make lie between the two that are furthest from zero. -/
theorem natAbs_ofSigned_le {total : Int} (fits : IsWord total) :
    (ofSigned total).natAbs ≤ 2 ^ 62 := by
  obtain ⟨low, high⟩ := fits
  rw [ofSigned]
  split <;> omega

/-- No value that is read is further from zero than 62 bits allow, with what has been read of the
first one added to it.

The induction is on the digits. Each has its place five bits above the one before it, and a
fourteenth is refused. -/
theorem natAbs_le_of_decodeFrom {total : Int} {digits : Nat} {bytes : List UInt8}
    {values : List Int} (partly : IsPartial total digits)
    (read : decodeFrom total (5 * digits) bytes = .ok values) :
    ∀ value ∈ values, value.natAbs ≤ 2 ^ 62 := by
  induction bytes generalizing total digits values with
  | nil =>
    rw [decodeFrom] at read
    split at read
    · simp at read
    · obtain rfl := Except.ok.inj read
      simp
  | cons byte bytes inductionHypothesis =>
    rw [decodeFrom] at read
    by_cases full : 64 ≤ 5 * digits
    · simp [full] at read
    · obtain ⟨fits, onward⟩ := isPartial_add_place partly (by omega) (bits_ofByte_lt byte)
      simp only [full, if_false] at read
      split at read
      · exact inductionHypothesis onward read
      · obtain ⟨others, rest, rfl⟩ := Itemwise.exists_of_map_eq_ok read
        have behind := inductionHypothesis isPartial_zero rest
        exact List.forall_mem_cons.mpr ⟨natAbs_ofSigned_le fits, behind⟩

/-- No value that is read from any bytes is further from zero than 62 bits allow. -/
theorem natAbs_le_of_decode {bytes : List UInt8} {values : List Int}
    (read : decode bytes = .ok values) : ∀ value ∈ values, value.natAbs ≤ 2 ^ 62 :=
  natAbs_le_of_decodeFrom isPartial_zero read

end Vlq

namespace Codec

/-- Whether a total is an index can be computed. -/
instance (total : Int) : Decidable (IsIndex total) :=
  inferInstanceAs <| Decidable <| 0 ≤ total ∧ total < 2 ^ 32

/-- Whether the totals that lines share are indices can be computed. -/
instance (totals : Totals) : Decidable totals.AreIndices :=
  decidable_of_iff
    (IsIndex totals.source ∧ IsIndex totals.line ∧ IsIndex totals.column ∧ IsIndex totals.name)
    ⟨fun ⟨source, line, column, name⟩ => ⟨source, line, column, name⟩,
      fun ⟨source, line, column, name⟩ => ⟨source, line, column, name⟩⟩

/-! Reading with guards. What stops it is a fault, or none where a guard fails. -/

namespace Guarded

/-- A sum that has to fit into 64 bits. -/
def add (total value : Int) : Except (Option Fault) Int :=
  if IsWord (total + value) then .ok (total + value) else .error none

/-- The totals behind the values that follow a segment's column. -/
def move (totals : Totals) (source line column : Int) (name : Option Int) :
    Except (Option Fault) Totals := do
  let source ← add totals.source source
  let line ← add totals.line line
  let column ← add totals.column column
  match name with
  | some name => return ⟨source, line, column, ← add totals.name name⟩
  | none => return ⟨source, line, column, totals.name⟩

/-- The segment of a list of values. -/
def segment (generated : Int) (totals : Totals) :
    List Int → Except (Option Fault) (Segment × Int × Totals)
  | [] => .error (some (.fieldCount 0))
  | first :: others => do
    let generated ← add generated first
    let column ← (index .generatedColumn generated).mapError some
    match others with
    | [] => return (.unmapped column, generated, totals)
    | [source, line, inner] =>
      let totals ← move totals source line inner none
      return (⟨column, some (← (totals.origin false).mapError some)⟩, generated, totals)
    | [source, line, inner, name] =>
      let totals ← move totals source line inner (some name)
      return (⟨column, some (← (totals.origin true).mapError some)⟩, generated, totals)
    | _ => .error (some (.fieldCount (others.length + 1)))

/-- Reads one segment from its text. The totals in front of it have to be indices. -/
def decodeSegment (generated : Int) (totals : Totals) (text : List Char) :
    Except (Option Fault) (Segment × Int × Totals) :=
  if IsIndex generated ∧ totals.AreIndices then
    match Vlq.decode (Utf8.encode text) with
    | .error fault => .error (some (.digits fault))
    | .ok values => segment generated totals values
  else .error none

/-- Reads the segments of a line. -/
def decodeLine (line : Nat) : (place : Nat) → (generated : Int) → Totals → List (List Char) →
    Except (Option Error) (List Segment × Totals)
  | _, _, totals, [] => .ok ([], totals)
  | place, generated, totals, [] :: pieces =>
    decodeLine line (place + 1) generated totals pieces
  | place, generated, totals, piece :: pieces =>
    match decodeSegment generated totals piece with
    | .error fault => .error (fault.map (⟨line, place, ·⟩))
    | .ok (segment, generated, totals) =>
      (decodeLine line (place + 1) generated totals pieces).map fun read =>
        (segment :: read.1, read.2)

/-- Reads lines and sorts each of them. -/
def decodeLines : (line : Nat) → Totals → List (List Char) →
    Except (Option Error) (List (List Segment))
  | _, _, [] => .ok []
  | line, totals, text :: texts =>
    match decodeLine line 0 0 totals (Text.split ',' text) with
    | .error error => .error error
    | .ok (segments, totals) =>
      (decodeLines (line + 1) totals texts).map (Segment.sort segments :: ·)

/-- The lines of segments that a mappings text stands for. -/
def decode (mappings : String) : Except (Option Error) (List (List Segment)) :=
  decodeLines 1 {} (Text.split ';' mappings.toList)

/-- The sum of an index and a value that is read fits. -/
theorem add_eq {total value : Int} (ranged : IsIndex total) (small : value.natAbs ≤ 2 ^ 62) :
    add total value = .ok (total + value) := by
  have fits : IsWord (total + value) := by
    simp only [IsIndex] at ranged
    exact ⟨by omega, by omega⟩
  rw [add, if_pos fits]

/-- From indices, values that are read move the totals as they do without guards. -/
theorem move_eq {totals : Totals} (ranged : totals.AreIndices) {source line column : Int}
    {name : Option Int} (sourceSmall : source.natAbs ≤ 2 ^ 62) (lineSmall : line.natAbs ≤ 2 ^ 62)
    (columnSmall : column.natAbs ≤ 2 ^ 62) (nameSmall : ∀ value ∈ name, value.natAbs ≤ 2 ^ 62) :
    move totals source line column name = .ok (totals.move source line column name) := by
  rw [move, add_eq ranged.source sourceSmall, add_eq ranged.line lineSmall,
    add_eq ranged.column columnSmall]
  cases name with
  | none => simp [Totals.move, bind, Except.bind, pure, Except.pure]
  | some name =>
    simp only [add_eq ranged.name (nameSmall name rfl)]
    rfl

/-- From indices and values that are read, no guard stops the making of a segment. -/
theorem segment_eq {generated : Int} {totals : Totals} {values : List Int}
    (generatedRanged : IsIndex generated) (ranged : totals.AreIndices)
    (small : ∀ value ∈ values, value.natAbs ≤ 2 ^ 62) :
    segment generated totals values = (Codec.segment generated totals values).mapError some := by
  cases values with
  | nil => rfl
  | cons first others =>
    obtain ⟨firstSmall, othersSmall⟩ := List.forall_mem_cons.mp small
    simp only [segment, Codec.segment, add_eq generatedRanged firstSmall, bind, Except.bind]
    cases index .generatedColumn (generated + first) with
    | error fault => rfl
    | ok column =>
      -- Only three and four further values move the other totals.
      rcases others with _ | ⟨source, _ | ⟨line, _ | ⟨inner, _ | ⟨name, _ | ⟨_, _⟩⟩⟩⟩⟩
      · rfl
      · rfl
      · rfl
      · have moved : move totals source line inner none =
            .ok (totals.move source line inner none) :=
          move_eq ranged (othersSmall source (by simp)) (othersSmall line (by simp))
            (othersSmall inner (by simp)) (by simp)
        simp only [Except.mapError, moved]
        cases (totals.move source line inner none).origin false <;> rfl
      · have moved : move totals source line inner (some name) =
            .ok (totals.move source line inner (some name)) :=
          move_eq ranged (othersSmall source (by simp)) (othersSmall line (by simp))
            (othersSmall inner (by simp)) (by simpa using othersSmall name (by simp))
        simp only [Except.mapError, moved]
        cases (totals.move source line inner (some name)).origin true <;> rfl
      · rfl

/-- From indices, no guard stops the reading of a segment from its text. -/
theorem decodeSegment_eq {generated : Int} {totals : Totals} (generatedRanged : IsIndex generated)
    (ranged : totals.AreIndices) (text : List Char) :
    decodeSegment generated totals text =
      (Codec.decodeSegment generated totals text).mapError some := by
  rw [decodeSegment, if_pos ⟨generatedRanged, ranged⟩, Codec.decodeSegment]
  cases read : Vlq.decode (Utf8.encode text) with
  | error fault => rfl
  | ok values => exact segment_eq generatedRanged ranged (Vlq.natAbs_le_of_decode read)

/-- The totals behind a segment that was read are indices if those in front of it are. -/
theorem areIndices_of_decodeSegment {generated behind : Int} {totals moved : Totals}
    {text : List Char} {read : Segment} (ranged : totals.AreIndices)
    (had : Codec.decodeSegment generated totals text = .ok (read, behind, moved)) :
    IsIndex behind ∧ moved.AreIndices := by
  rw [Codec.decodeSegment] at had
  split at had
  · simp at had
  · obtain ⟨written, rfl⟩ := differences_of_segment had
    have others := areIndices_differences generated totals read ranged
    rw [written] at others
    exact ⟨isIndex_total read.column, others⟩

/-- The totals behind a line that was read are indices if those in front of it are. -/
theorem areIndices_of_decodeLine {line place : Nat} {generated : Int} {totals moved : Totals}
    {pieces : List (List Char)} {segments : List Segment} (ranged : totals.AreIndices)
    (had : Codec.decodeLine line place generated totals pieces = .ok (segments, moved)) :
    moved.AreIndices := by
  induction pieces generalizing place generated totals segments with
  | nil =>
    obtain ⟨_, rfl⟩ : [] = segments ∧ totals = moved := by simpa [Codec.decodeLine] using had
    exact ranged
  | cons piece pieces inductionHypothesis =>
    by_cases empty : piece = []
    · subst empty
      exact inductionHypothesis ranged had
    · rw [Codec.decodeLine] at had
      · split at had
        · simp at had
        · rename_i read
          obtain ⟨_, rest, same⟩ := Itemwise.exists_of_map_eq_ok had
          obtain ⟨_, rfl⟩ := Prod.mk.inj same
          exact inductionHypothesis (areIndices_of_decodeSegment ranged read).2 rest
      · exact empty

/-- A line whose totals start as indices is read as without guards. -/
theorem decodeLine_eq (line place : Nat) {generated : Int} {totals : Totals}
    (generatedRanged : IsIndex generated) (ranged : totals.AreIndices)
    (pieces : List (List Char)) :
    decodeLine line place generated totals pieces =
      (Codec.decodeLine line place generated totals pieces).mapError some := by
  induction pieces generalizing place generated totals with
  | nil => rfl
  | cons piece pieces inductionHypothesis =>
    by_cases empty : piece = []
    · subst empty
      exact inductionHypothesis (place + 1) generatedRanged ranged
    · rw [decodeLine, Codec.decodeLine, decodeSegment_eq generatedRanged ranged]
      · cases read : Codec.decodeSegment generated totals piece with
        | error fault => rfl
        | ok found =>
          obtain ⟨segment, behind, moved⟩ := found
          obtain ⟨behindRanged, movedRanged⟩ := areIndices_of_decodeSegment ranged read
          simp only [Except.mapError, inductionHypothesis (place + 1) behindRanged movedRanged]
          cases Codec.decodeLine line (place + 1) behind moved pieces <;> rfl
      · exact empty
      · exact empty

/-- Lines whose totals start as indices are read as without guards. -/
theorem decodeLines_eq (line : Nat) {totals : Totals} (ranged : totals.AreIndices)
    (texts : List (List Char)) :
    decodeLines line totals texts = (Codec.decodeLines line totals texts).mapError some := by
  induction texts generalizing line totals with
  | nil => rfl
  | cons text texts inductionHypothesis =>
    have start : IsIndex 0 := by decide
    rw [decodeLines, Codec.decodeLines, decodeLine_eq line 0 start ranged]
    cases read : Codec.decodeLine line 0 0 totals (Text.split ',' text) with
    | error error => rfl
    | ok found =>
      obtain ⟨segments, moved⟩ := found
      have behind := areIndices_of_decodeLine ranged read
      simp only [Except.mapError, inductionHypothesis (line + 1) behind]
      cases Codec.decodeLines (line + 1) moved texts <;> rfl

end Guarded

/-- The differences that the segments of a line are written as. -/
def lineDifferences (generated : Int) (totals : Totals) : List Segment → List (List Int)
  | [] => []
  | segment :: rest =>
    let (values, totals) := differences generated totals segment
    values :: lineDifferences (total segment.column) totals rest

/-- The differences that lines are written as. -/
def linesDifferences (totals : Totals) : List (List Segment) → List (List (List Int))
  | [] => []
  | line :: rest =>
    lineDifferences 0 totals line :: linesDifferences (encodeLine 0 totals line).2 rest

/-- How differences are written. -/
def spell (lines : List (List (List Int))) : String :=
  String.ofList <| Text.join ';' <| lines.map fun line =>
    Text.join ',' <| line.map fun values => values.flatMap Vlq.encode

/-- The texts of a line's segments spell its differences. -/
theorem encodeLine_eq (generated : Int) (totals : Totals) (segments : List Segment) :
    (encodeLine generated totals segments).1 =
      (lineDifferences generated totals segments).map (·.flatMap Vlq.encode) := by
  induction segments generalizing generated totals with
  | nil => rfl
  | cons segment segments inductionHypothesis =>
    simp only [encodeLine, lineDifferences, List.map_cons, inductionHypothesis]

/-- The texts of lines spell their differences. -/
theorem encodeLines_eq (totals : Totals) (lines : List (List Segment)) :
    encodeLines totals lines = (linesDifferences totals lines).map fun line =>
      Text.join ',' (line.map (·.flatMap Vlq.encode)) := by
  induction lines generalizing totals with
  | nil => rfl
  | cons line lines inductionHypothesis =>
    simp only [encodeLines, linesDifferences, List.map_cons, encodeLine_eq, inductionHypothesis]

/-- Between indices all differences on a line are below 2^32. -/
theorem natAbs_lt_of_mem_lineDifferences {generated : Int} {totals : Totals}
    {segments : List Segment} (generatedRanged : IsIndex generated) (ranged : totals.AreIndices) :
    ∀ values ∈ lineDifferences generated totals segments, ∀ value ∈ values,
      value.natAbs < 2 ^ 32 := by
  induction segments generalizing generated totals with
  | nil => simp [lineDifferences]
  | cons segment segments inductionHypothesis =>
    have behind := areIndices_differences generated totals segment ranged
    refine List.forall_mem_cons.mpr ⟨?_, inductionHypothesis (isIndex_total _) behind⟩
    exact natAbs_lt_of_mem_differences generated totals segment generatedRanged ranged

/-- Between indices all differences on several lines are below 2^32. -/
theorem natAbs_lt_of_mem_linesDifferences {totals : Totals} {lines : List (List Segment)}
    (ranged : totals.AreIndices) :
    ∀ line ∈ linesDifferences totals lines, ∀ values ∈ line, ∀ value ∈ values,
      value.natAbs < 2 ^ 32 := by
  induction lines generalizing totals with
  | nil => simp [linesDifferences]
  | cons line lines inductionHypothesis =>
    have start : IsIndex 0 := by decide
    have behind := (decodeLine_encodeLine 0 0 0 totals line start ranged).2
    exact List.forall_mem_cons.mpr
      ⟨natAbs_lt_of_mem_lineDifferences start ranged, inductionHypothesis behind⟩

/-- Reading never leaves 64 bits: with guards on every sum, and on all totals in front of every
segment, it comes to the same lines or the same error for every text. Writing spells differences
that lie strictly between -2^32 and 2^32. -/
theorem guarded_decode_eq_and_differences_lt :
    (∀ mappings, Guarded.decode mappings = (decode mappings).mapError some) ∧
      ∀ lines, encode lines = spell (linesDifferences {} lines) ∧
        ∀ line ∈ linesDifferences {} lines, ∀ values ∈ line, ∀ value ∈ values,
          -2 ^ 32 < value ∧ value < 2 ^ 32 := by
  constructor
  · exact fun mappings => Guarded.decodeLines_eq 1 areIndices_start _
  · intro lines
    refine ⟨?_, fun line lineMember values member value inside => ?_⟩
    · rw [encode, encodeLines_eq, spell]
    · have small := natAbs_lt_of_mem_linesDifferences areIndices_start line lineMember values member
        value inside
      omega

/-- A value as far from zero as any is out of range, but the sum with it fits. -/
example : Guarded.decode "ggggggggggggI" =
    .error (some ⟨1, 0, .outOfRange .generatedColumn (-2 ^ 62)⟩) := by decide +kernel

end Codec

end MapChain
