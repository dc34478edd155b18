import MapChain.Proofs.Mapping.Foreign
import MapChain.Proofs.Mapping.Sorting
import MapChain.Proofs.Mapping.Values

/-!
# Running totals

The values of a mappings text are differences. What a field has come to at a segment is the
sum of all its values up to there: those of the same line for the generated column, those of
the whole text for the others. A text can be read exactly if every segment ends a value, has
one, four or five of them, and finds each of the five totals in the range of an index. Then
the segments are made of these totals. Otherwise the first segment for which this fails is
named.

Reading checks only the totals that a segment moves. The others were checked where they were
moved last, so the totals that are carried along are indices in front of every segment that
is reached.
-/

namespace MapChain.Codec

/-- The texts of the segments, line by line. -/
def texts (mappings : String) : List (List (List Char)) :=
  (Text.split ';' mappings.toList).map (Text.split ',')

/-- Where the value of a field stands in a segment. -/
def Field.place : Field → Nat
  | .generatedColumn => 0
  | .source => 1
  | .line => 2
  | .column => 3
  | .name => 4

/-- How far a segment moves a field. A field without a value stays where it is. -/
def step (field : Field) (text : List Char) : Int := (Vlq.values text)[field.place]?.getD 0

/-- How far segments move a field together. -/
def sum (field : Field) (texts : List (List Char)) : Int := (texts.map (step field)).sum

/-- A segment's text, with the segments on the lines above it and those in front of it on its
own line. -/
structure Place where
  above : List (List Char)
  front : List (List Char)
  text : List Char

namespace Place

/-- The segments in front of a place that a field runs over. -/
def run (place : Place) : Field → List (List Char)
  | .generatedColumn => place.front
  | _ => place.above ++ place.front

/-- What a field has come to at a segment. -/
def total (place : Place) (field : Field) : Int := sum field (place.run field ++ [place.text])

/-- A segment that can be read: it ends a value, it has one, four or five of them, and all
totals at it are indices. -/
structure IsSegment (place : Place) : Prop where
  finished : Vlq.endsValue place.text
  counted : (Vlq.values place.text).length ∈ [1, 4, 5]
  ranged : ∀ field, IsIndex (place.total field)

/-- A place where reading finds no fault: there is nothing, or a segment that can be read. -/
def IsSound (place : Place) : Prop := place.text = [] ∨ place.IsSegment

/-- A field's total as an index. -/
def index (place : Place) (field : Field) : UInt32 := UInt32.ofNat (place.total field).toNat

/-- The origin that a segment names: none with one value, and with a name only with five. -/
def origin? (place : Place) : Option Origin :=
  if (Vlq.values place.text).length = 1 then none
  else some ⟨place.index .source, place.index .line, place.index .column,
    if (Vlq.values place.text).length = 5 then some (place.index .name) else none⟩

/-- The segment at a place, made of its totals. The empty text is none. -/
def segment? (place : Place) : Option Segment :=
  if place.text = [] then none else some ⟨place.index .generatedColumn, place.origin?⟩

end Place

/-- The places of segments on a line, behind those in front of them. -/
def placesOn (above front : List (List Char)) : List (List Char) → List Place
  | [] => []
  | text :: rest => ⟨above, front, text⟩ :: placesOn above (front ++ [text]) rest

/-- The places of segments on lines, below those above them. -/
def places (above : List (List Char)) : List (List (List Char)) → List (List Place)
  | [] => []
  | line :: rest => placesOn above [] line :: places (above ++ line) rest

/-- An error at the first place with a fault. The line counts from one, the segment from zero
and with the empty ones. -/
def IsFirstFault (lines : List (List Place)) (error : Error) : Prop :=
  ∃ before front place behind below, lines = before ++ (front ++ place :: behind) :: below ∧
    error.line = before.length + 1 ∧ error.segment = front.length ∧ ¬place.IsSound ∧
    (∀ line ∈ before, ∀ other ∈ line, other.IsSound) ∧ ∀ other ∈ front, other.IsSound

/-- What reading makes of the places of a text: lines exactly if no place has a fault, and then
those of the segments at the places, each sorted by column with ties in the given order;
otherwise an error at the first fault. -/
structure IsReading (lines : List (List Place)) (result : Except Error (List (List Segment))) :
    Prop where
  accepts : (∃ read, result = .ok read) ↔ ∀ line ∈ lines, ∀ place ∈ line, place.IsSound
  reads : ∀ read, result = .ok read →
    List.Forall₂ Segment.IsStableSort (lines.map (·.filterMap Place.segment?)) read
  blames : ∀ error, result = .error error → IsFirstFault lines error

/-- The totals that lines share behind segments. -/
def Totals.behind (texts : List (List Char)) : Totals where
  source := sum .source texts
  line := sum .line texts
  column := sum .column texts
  name := sum .name texts

/-- A segment behind others moves a field on from where they left it. -/
theorem sum_append_singleton (field : Field) (texts : List (List Char)) (text : List Char) :
    sum field (texts ++ [text]) = sum field texts + step field text := by
  simp [sum]

/-- The empty text moves nothing. -/
theorem step_nil (field : Field) : step field [] = 0 := by
  simp [step, Vlq.values, Vlq.spellings]

/-- The totals behind an empty segment are those in front of it. -/
theorem behind_append_nil (texts : List (List Char)) :
    Totals.behind (texts ++ [[]]) = Totals.behind texts := by
  simp [Totals.behind, sum_append_singleton, step_nil]

/-- The totals behind a segment's values. Those without a value stay where they are. -/
def Totals.moveBy (totals : Totals) (values : List Int) : Totals :=
  totals.move (values[1]?.getD 0) (values[2]?.getD 0) (values[3]?.getD 0)
    (some (values[4]?.getD 0))

/-- A segment moves the totals by its values. -/
theorem behind_append_singleton (texts : List (List Char)) (text : List Char) :
    Totals.behind (texts ++ [text]) = (Totals.behind texts).moveBy (Vlq.values text) := by
  simp [Totals.behind, Totals.moveBy, Totals.move, sum_append_singleton, step, Field.place]

/-- The totals behind a segment that can be read are indices. -/
theorem areIndices_behind {place : Place} (segment : place.IsSegment) :
    (Totals.behind (place.above ++ place.front ++ [place.text])).AreIndices :=
  ⟨segment.ranged .source, segment.ranged .line, segment.ranged .column, segment.ranged .name⟩

/-- A total in range is an index. -/
theorem index_of_isIndex (field : Field) {total : Int} (ranged : IsIndex total) :
    index field total = .ok (UInt32.ofNat total.toNat) := by
  have range : 0 ≤ total ∧ total < UInt32.size := ranged
  rw [index, if_pos range]

/-- Totals in range are an origin. -/
theorem origin_of_areIndices {totals : Totals} (ranged : totals.AreIndices) (named : Bool) :
    totals.origin named = .ok ⟨UInt32.ofNat totals.source.toNat, UInt32.ofNat totals.line.toNat,
      UInt32.ofNat totals.column.toNat,
      if named then some (UInt32.ofNat totals.name.toNat) else none⟩ := by
  cases named <;>
    simp only [Totals.origin, index_of_isIndex _ ranged.source, index_of_isIndex _ ranged.line,
      index_of_isIndex _ ranged.column, index_of_isIndex _ ranged.name] <;> rfl

/-- One, four or five values whose totals are in range make a segment. -/
theorem segment_of_ranged {generated : Int} {totals : Totals} {values : List Int}
    (counted : values.length ∈ [1, 4, 5]) (column : IsIndex (generated + values[0]?.getD 0))
    (others : (totals.moveBy values).AreIndices) :
    segment generated totals values =
      .ok (⟨UInt32.ofNat (generated + values[0]?.getD 0).toNat,
        if values.length = 1 then none
        else some ⟨UInt32.ofNat (totals.moveBy values).source.toNat,
          UInt32.ofNat (totals.moveBy values).line.toNat,
          UInt32.ofNat (totals.moveBy values).column.toNat,
          if values.length = 5 then some (UInt32.ofNat (totals.moveBy values).name.toNat)
          else none⟩⟩,
        generated + values[0]?.getD 0, totals.moveBy values) := by
  have origin := origin_of_areIndices others
  match values, counted with
  | [first], _ =>
    have still : totals.moveBy [first] = totals := by simp [Totals.moveBy, Totals.move]
    have column : IsIndex (generated + first) := column
    rw [segment, index_of_isIndex _ column, still]
    rfl
  | [first, source, line, inner], _ =>
    have column : IsIndex (generated + first) := column
    have nameless : totals.move source line inner none =
        totals.moveBy [first, source, line, inner] := rfl
    rw [segment, index_of_isIndex _ column]
    simp only [nameless, origin false]
    rfl
  | [first, source, line, inner, name], _ =>
    have column : IsIndex (generated + first) := column
    have named : totals.move source line inner (some name) =
        totals.moveBy [first, source, line, inner, name] := rfl
    rw [segment, index_of_isIndex _ column]
    simp only [named, origin true]
    rfl

/-- Values that make a segment are one, four or five, and they move the totals. -/
theorem moveBy_of_segment {generated behind : Int} {totals moved : Totals} {values : List Int}
    {read : Segment} (had : segment generated totals values = .ok (read, behind, moved)) :
    values.length ∈ [1, 4, 5] ∧ behind = generated + values[0]?.getD 0 ∧
      moved = totals.moveBy values := by
  cases values with
  | nil => simp [segment] at had
  | cons first others =>
    simp only [segment] at had
    obtain ⟨column, _, had⟩ := Itemwise.exists_of_bind_eq_ok had
    split at had
    · obtain ⟨_, rfl, rfl⟩ : Segment.unmapped column = read ∧ _ = behind ∧ totals = moved := by
        simpa using Except.ok.inj had
      exact ⟨by simp, rfl, by simp [Totals.moveBy, Totals.move]⟩
    · obtain ⟨origin, _, had⟩ := Itemwise.exists_of_bind_eq_ok had
      obtain ⟨_, rfl, rfl⟩ : ⟨column, some origin⟩ = read ∧ _ = behind ∧ _ = moved := by
        simpa using Except.ok.inj had
      exact ⟨by simp, rfl, rfl⟩
    · obtain ⟨origin, _, had⟩ := Itemwise.exists_of_bind_eq_ok had
      obtain ⟨_, rfl, rfl⟩ : ⟨column, some origin⟩ = read ∧ _ = behind ∧ _ = moved := by
        simpa using Except.ok.inj had
      exact ⟨by simp, rfl, rfl⟩
    · simp at had

/-- A text that is written in digits, with few enough for each value. -/
structure IsSpelled (text : List Char) : Prop where
  digits : Vlq.AreDigits text
  short : Vlq.IsShort text

/-- A segment that can be read is the one at its place, and the totals move on to those behind
it. -/
theorem decodeSegment_of_isSegment {place : Place} (spelled : IsSpelled place.text)
    (sound : place.IsSegment) :
    decodeSegment (sum .generatedColumn place.front) (Totals.behind (place.above ++ place.front))
        place.text =
      .ok (⟨place.index .generatedColumn, place.origin?⟩,
        sum .generatedColumn (place.front ++ [place.text]),
        Totals.behind (place.above ++ place.front ++ [place.text])) := by
  have column : sum .generatedColumn (place.front ++ [place.text]) =
      sum .generatedColumn place.front + (Vlq.values place.text)[0]?.getD 0 :=
    sum_append_singleton _ _ _
  have columnRanged := sound.ranged .generatedColumn
  have othersRanged := areIndices_behind sound
  rw [Place.total, Place.run, column] at columnRanged
  rw [behind_append_singleton] at othersRanged
  have made := segment_of_ranged sound.counted columnRanged othersRanged
  rw [← behind_append_singleton, ← column] at made
  simp only [decodeSegment, Vlq.decode_eq_ok spelled.digits spelled.short sound.finished, made]
  rfl

/-- A text that is read as a segment is one that can be read, where the totals in front of it
are indices. -/
theorem isSegment_of_decodeSegment {place : Place} (spelled : IsSpelled place.text)
    (inhabited : place.text ≠ [])
    (ranged : (Totals.behind (place.above ++ place.front)).AreIndices)
    {read : Segment} {generated : Int} {totals : Totals}
    (had : decodeSegment (sum .generatedColumn place.front)
      (Totals.behind (place.above ++ place.front)) place.text = .ok (read, generated, totals)) :
    place.IsSegment := by
  have finished : Vlq.endsValue place.text := by
    by_contra unfinished
    obtain ⟨fault, refused⟩ :=
      Vlq.exists_decode_eq_error spelled.digits inhabited (by simpa using unfinished)
    simp [decodeSegment, refused] at had
  simp only [decodeSegment, Vlq.decode_eq_ok spelled.digits spelled.short finished] at had
  obtain ⟨counted, generatedMoved, totalsMoved⟩ := moveBy_of_segment had
  obtain ⟨written, column⟩ := differences_of_segment had
  have others := areIndices_differences (sum .generatedColumn place.front) _ read ranged
  rw [written] at others
  simp only [totalsMoved, ← behind_append_singleton] at others
  have columnRanged : IsIndex (place.total .generatedColumn) := by
    rw [Place.total, Place.run, sum_append_singleton]
    exact (generatedMoved.symm.trans column) ▸ isIndex_total read.column
  refine ⟨finished, counted, fun field => ?_⟩
  cases field with
  | generatedColumn => exact columnRanged
  | source => exact others.source
  | line => exact others.line
  | column => exact others.column
  | name => exact others.name

/-- Reading a line goes on behind a sound place with the segment at the place, if there is one,
and the totals behind it. -/
theorem decodeLine_of_isSound {place : Place} (line index : Nat) (rest : List (List Char))
    (spelled : IsSpelled place.text) (sound : place.IsSound) :
    decodeLine line index (sum .generatedColumn place.front)
        (Totals.behind (place.above ++ place.front)) (place.text :: rest) =
      (decodeLine line (index + 1) (sum .generatedColumn (place.front ++ [place.text]))
        (Totals.behind (place.above ++ place.front ++ [place.text])) rest).map fun read =>
          (place.segment?.toList ++ read.1, read.2) := by
  by_cases empty : place.text = []
  · have nothing : place.segment? = none := by rw [Place.segment?, if_pos empty]
    rw [nothing, empty, decodeLine, behind_append_nil, sum_append_singleton, step_nil, Int.add_zero]
    cases decodeLine line (index + 1) (sum .generatedColumn place.front)
      (Totals.behind (place.above ++ place.front)) rest <;> rfl
  · have segment := sound.resolve_left empty
    have one : place.segment? = some ⟨place.index .generatedColumn, place.origin?⟩ := by
      rw [Place.segment?, if_neg empty]
    rw [decodeLine, decodeSegment_of_isSegment spelled segment, one]
    · rfl
    · exact empty

/-- The totals behind a sound place are indices if those in front of it are. -/
theorem areIndices_of_isSound {place : Place} (sound : place.IsSound)
    (ranged : (Totals.behind (place.above ++ place.front)).AreIndices) :
    (Totals.behind (place.above ++ place.front ++ [place.text])).AreIndices := by
  rcases sound with empty | segment
  · rw [empty, behind_append_nil]
    exact ranged
  · exact areIndices_behind segment

/-- The totals behind sound places on a line are indices if those in front of them are. -/
theorem areIndices_of_placesOn {above front line : List (List Char)}
    (sound : ∀ place ∈ placesOn above front line, place.IsSound)
    (ranged : (Totals.behind (above ++ front)).AreIndices) :
    (Totals.behind (above ++ front ++ line)).AreIndices := by
  induction line generalizing front with
  | nil => simpa using ranged
  | cons text line inductionHypothesis =>
    obtain ⟨own, others⟩ := List.forall_mem_cons.mp sound
    have behind := areIndices_of_isSound own ranged
    rw [List.append_assoc] at behind
    simpa using inductionHypothesis others behind

/-- A line of sound places is read as the segments at its places, and the totals move on behind
it. -/
theorem decodeLine_placesOn (number index : Nat) {above front line : List (List Char)}
    (spelled : ∀ text ∈ line, IsSpelled text)
    (sound : ∀ place ∈ placesOn above front line, place.IsSound) :
    decodeLine number index (sum .generatedColumn front) (Totals.behind (above ++ front)) line =
      .ok ((placesOn above front line).filterMap Place.segment?,
        Totals.behind (above ++ front ++ line)) := by
  induction line generalizing index front with
  | nil => simp [decodeLine, placesOn]
  | cons text line inductionHypothesis =>
    obtain ⟨own, others⟩ := List.forall_mem_cons.mp sound
    obtain ⟨ownSpelled, othersSpelled⟩ := List.forall_mem_cons.mp spelled
    have rest := inductionHypothesis (index + 1) othersSpelled others
    rw [← List.append_assoc] at rest
    have read := decodeLine_of_isSound number index line ownSpelled own
    rw [read, rest]
    cases one : (⟨above, front, text⟩ : Place).segment? <;> simp [Except.map, placesOn, one]

/-- A line with a fault is refused at the first one. -/
theorem exists_decodeLine_eq_error (number index : Nat) {above front line : List (List Char)}
    {before behind : List Place} {place : Place} (spelled : ∀ text ∈ line, IsSpelled text)
    (ranged : (Totals.behind (above ++ front)).AreIndices)
    (cut : placesOn above front line = before ++ place :: behind) (unsound : ¬place.IsSound)
    (sound : ∀ other ∈ before, other.IsSound) : ∃ fault,
    decodeLine number index (sum .generatedColumn front) (Totals.behind (above ++ front)) line =
      .error ⟨number, index + before.length, fault⟩ := by
  induction line generalizing index front before with
  | nil => simp [placesOn] at cut
  | cons text line inductionHypothesis =>
    obtain ⟨ownSpelled, othersSpelled⟩ := List.forall_mem_cons.mp spelled
    cases before with
    | nil =>
      obtain ⟨rfl, _⟩ := List.cons.inj cut
      have inhabited : text ≠ [] := fun empty => unsound (.inl empty)
      rw [decodeLine]
      · cases read : decodeSegment (sum .generatedColumn front) (Totals.behind (above ++ front))
            text with
        | ok read =>
          exact absurd (.inr (isSegment_of_decodeSegment ownSpelled inhabited ranged read)) unsound
        | error fault => exact ⟨fault, rfl⟩
      · exact inhabited
    | cons first before =>
      obtain ⟨rfl, others⟩ := List.cons.inj cut
      obtain ⟨own, before⟩ := List.forall_mem_cons.mp sound
      have behind := areIndices_of_isSound own ranged
      rw [List.append_assoc] at behind
      obtain ⟨fault, refused⟩ := inductionHypothesis (index + 1) othersSpelled behind others before
      rw [← List.append_assoc] at refused
      have read := decodeLine_of_isSound number index line ownSpelled own
      refine ⟨fault, ?_⟩
      rw [read, refused, List.length_cons, Nat.add_assoc, Nat.add_comm 1]
      rfl

/-- Lines of sound places are read as the segments at their places, each line sorted. -/
theorem decodeLines_places (number : Nat) {above : List (List Char)} {lines : List (List Char)}
    (spelled : ∀ line ∈ lines, ∀ text ∈ Text.split ',' line, IsSpelled text)
    (sound : ∀ line ∈ places above (lines.map (Text.split ',')), ∀ place ∈ line, place.IsSound) :
    decodeLines number (Totals.behind above) lines =
      .ok ((places above (lines.map (Text.split ','))).map fun line =>
        Segment.sort (line.filterMap Place.segment?)) := by
  induction lines generalizing number above with
  | nil => rfl
  | cons line lines inductionHypothesis =>
    obtain ⟨own, others⟩ := List.forall_mem_cons.mp sound
    obtain ⟨ownSpelled, othersSpelled⟩ := List.forall_mem_cons.mp spelled
    have first := decodeLine_placesOn number 0 ownSpelled own
    rw [List.append_nil] at first
    have start : sum .generatedColumn [] = 0 := rfl
    rw [decodeLines, ← start, first]
    simp only [inductionHypothesis (number + 1) othersSpelled others]
    rfl

/-- Lines with a fault are refused at the first one. -/
theorem exists_decodeLines_eq_error (number : Nat) {above : List (List Char)}
    {lines : List (List Char)} {before below : List (List Place)} {front behind : List Place}
    {place : Place} (spelled : ∀ line ∈ lines, ∀ text ∈ Text.split ',' line, IsSpelled text)
    (ranged : (Totals.behind above).AreIndices)
    (cut : places above (lines.map (Text.split ',')) =
      before ++ (front ++ place :: behind) :: below)
    (unsound : ¬place.IsSound) (sound : ∀ line ∈ before, ∀ other ∈ line, other.IsSound)
    (ahead : ∀ other ∈ front, other.IsSound) : ∃ fault,
    decodeLines number (Totals.behind above) lines =
      .error ⟨number + before.length, front.length, fault⟩ := by
  have start : sum .generatedColumn [] = 0 := rfl
  induction lines generalizing number above before with
  | nil => simp [places] at cut
  | cons line lines inductionHypothesis =>
    obtain ⟨ownSpelled, othersSpelled⟩ := List.forall_mem_cons.mp spelled
    rw [← List.append_nil above] at ranged
    cases before with
    | nil =>
      obtain ⟨own, _⟩ := List.cons.inj cut
      obtain ⟨fault, refused⟩ :=
        exists_decodeLine_eq_error number 0 ownSpelled ranged own unsound ahead
      rw [List.append_nil, start, Nat.zero_add] at refused
      exact ⟨fault, by rw [decodeLines, refused]; rfl⟩
    | cons first before =>
      obtain ⟨rfl, others⟩ := List.cons.inj cut
      obtain ⟨own, before⟩ := List.forall_mem_cons.mp sound
      have behind := areIndices_of_placesOn own ranged
      have read := decodeLine_placesOn number 0 ownSpelled own
      rw [List.append_nil] at behind read
      obtain ⟨fault, refused⟩ :=
        inductionHypothesis (number + 1) othersSpelled behind others before
      refine ⟨fault, ?_⟩
      rw [decodeLines, ← start, read]
      simp only [refused, Except.map, List.length_cons, Nat.add_assoc, Nat.add_comm 1]

/-- Mappings are plain ASCII. -/
theorem toNat_lt_of_isAlphabet {c : Char} (known : isAlphabet c = true) : c.toNat < 128 := by
  have below (last : Char) (bounded : c.val ≤ last.val) (small : last.toNat < 128) :
      c.toNat < 128 :=
    Nat.lt_of_le_of_lt (UInt32.le_iff_toNat_le.mp bounded) small
  simp only [isAlphabet, Char.isAlphanum, Bool.or_eq_true, beq_iff_eq] at known
  rcases known with ((((alpha | digit) | rfl) | rfl) | rfl) | rfl
  · rcases Bool.or_eq_true_iff.mp alpha with upper | lower
    · exact below 'Z' (of_decide_eq_true upper).2 (by decide)
    · exact below 'z' (of_decide_eq_true (Bool.and_eq_true_iff.mp lower).2) (by decide)
  · exact Nat.lt_of_le_of_lt (Char.isDigit_iff_toNat.mp digit).2 (by decide)
  all_goals decide

/-- A character of mappings that is no separator is a digit. -/
theorem exists_letter_of_isAlphabet {c : Char} (known : isAlphabet c = true)
    (noComma : c ≠ ',') (noSemicolon : c ≠ ';') : ∃ value < 64, c = Base64.letter value := by
  have table : ∀ code : Fin 128, isAlphabet (Char.ofNat code) → Char.ofNat code ≠ ',' →
      Char.ofNat code ≠ ';' → ∃ value : Fin 64, Char.ofNat code = Base64.letter value := by
    decide +kernel
  have own := table ⟨c.toNat, toNat_lt_of_isAlphabet known⟩
  rw [Char.ofNat_toNat] at own
  obtain ⟨value, same⟩ := own known noComma noSemicolon
  exact ⟨value, value.isLt, same⟩

/-- A mappings text whose values have few enough digits. -/
def IsShort (mappings : String) : Prop :=
  ∀ line ∈ texts mappings, ∀ text ∈ line, Vlq.IsShort text

/-- Whether values have few enough digits can be told by cutting the text. -/
instance (mappings : String) : Decidable (IsShort mappings) :=
  inferInstanceAs <| Decidable <| ∀ line ∈ texts mappings, ∀ text ∈ line, Vlq.IsShort text

/-- The segments of a mappings text are spelled in digits. -/
theorem isSpelled_of_isAlphabet {mappings : String}
    (alphabet : mappings.toList.all isAlphabet = true) (short : IsShort mappings) :
    ∀ line ∈ Text.split ';' mappings.toList, ∀ text ∈ Text.split ',' line, IsSpelled text := by
  intro line lineMember text member
  refine ⟨?_, short _ (List.mem_map_of_mem lineMember) text member⟩
  intro c inside
  have insideLine : c ∈ line := Text.subset_of_mem_split member inside
  have known := List.all_eq_true.mp alphabet c (Text.subset_of_mem_split lineMember insideLine)
  refine exists_letter_of_isAlphabet known ?_ ?_
  · rintro rfl
    exact Text.not_mem_of_mem_split ',' line text member inside
  · rintro rfl
    exact Text.not_mem_of_mem_split ';' _ line lineMember insideLine

/-- Mappings of digits and separators whose values have at most twelve digits are read by
their running totals: as the segments that these make if all of them are in range and all
segments are well formed, and otherwise with an error at the first one for which this fails. -/
theorem isReading_decode {mappings : String} (alphabet : mappings.toList.all isAlphabet = true)
    (short : IsShort mappings) : IsReading (places [] (texts mappings)) (decode mappings) := by
  have spelled := isSpelled_of_isAlphabet alphabet short
  by_cases sound : ∀ line ∈ places [] (texts mappings), ∀ place ∈ line, place.IsSound
  · have accepted : decode mappings = .ok ((places [] (texts mappings)).map fun line =>
        Segment.sort (line.filterMap Place.segment?)) := decodeLines_places 1 spelled sound
    refine ⟨⟨fun _ => sound, fun _ => ⟨_, accepted⟩⟩, ?_, ?_⟩
    · intro read success
      obtain rfl := Except.ok.inj (success.symm.trans accepted)
      rw [List.forall₂_map_left_iff, List.forall₂_map_right_iff, List.forall₂_same]
      exact fun line _ => Segment.isStableSort_sort _
    · intro error failed
      simp [accepted] at failed
  · obtain ⟨before, line, below, lines, bad, above⟩ := Itemwise.exists_first_of_not_forall sound
    obtain ⟨front, place, behind, rfl, fault, ahead⟩ := Itemwise.exists_first_of_not_forall bad
    have start : (Totals.behind []).AreIndices := areIndices_start
    obtain ⟨reason, refused⟩ :
        ∃ reason, decode mappings = .error ⟨1 + before.length, front.length, reason⟩ :=
      exists_decodeLines_eq_error 1 spelled start lines fault above ahead
    refine ⟨⟨fun ⟨read, success⟩ => ?_, fun all => absurd all sound⟩, ?_, ?_⟩
    · simp [refused] at success
    · intro read success
      simp [refused] at success
    · intro error failed
      obtain rfl := Except.error.inj (refused.symm.trans failed)
      exact ⟨before, front, place, behind, below, lines, Nat.add_comm 1 _, rfl, fault, above, ahead⟩

/-- Empty segments are counted, and what follows a fault is not read. -/
example : decode ";,C,,AAAF,!" = .error ⟨2, 3, .outOfRange .column (-2)⟩ := by decide +kernel

/-- Segments out of order behind an empty one, and lines that go on from others. -/
def crossing : String := "K,,FACEC,D;;CACAA"

/-- The lines that the crossing text is read as. -/
def crossingLines : List (List Segment) :=
  [[⟨2, none⟩, ⟨3, some ⟨0, 1, 2, some 1⟩⟩, ⟨5, none⟩], [], [⟨1, some ⟨0, 2, 2, some 1⟩⟩]]

/-- The crossing text is read by its running totals. -/
theorem isReading_decode_crossing : decode crossing = .ok crossingLines ∧
    crossing.toList.all isAlphabet = true ∧ IsShort crossing ∧
    IsReading (places [] (texts crossing)) (decode crossing) :=
  ⟨by decide +kernel, by decide, by decide +kernel,
    isReading_decode (by decide) (by decide +kernel)⟩

end MapChain.Codec
