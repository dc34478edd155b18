import MapChain.Proofs.Itemwise
import MapChain.Proofs.Mapping.Codec

/-!
# Canonical mappings

Reading is laxer than writing: it takes redundant digits, a negative zero, bytes outside the
alphabet, empty segments and segments out of order. A text that is read and written again
comes out as it was exactly if it has none of these, that is, if it is canonical.

A value has one shortest spelling, and the shortest spellings of up to seven digits are what
values of up to 35 bits, the sign included, are written as. So a canonical segment is the text
of the values that are read from it. These values are the differences of the segment that they
stand for, and lines whose columns never fall are left as they are by sorting. In the other
direction, what is read is sorted, and what is written for sorted lines is canonical.
-/

namespace MapChain

namespace Vlq

/-- Whether a character is a digit that asks for no other one, so that it ends a value. -/
def closes (c : Char) : Bool := ('A' ≤ c && c ≤ 'Z') || ('a' ≤ c && c ≤ 'f')

/-- A text cut into the spellings of its values, behind every digit that ends one. -/
def spellings : List Char → List (List Char)
  | [] => []
  | c :: rest =>
    if closes c then [c] :: spellings rest
    else
      match spellings rest with
      | [] => [[c]]
      | spelling :: others => (c :: spelling) :: others

/-- The shortest spelling of a value: digits that ask for another one, then one that does not,
seven at most. The last digit is zero only if it is the only one, and zero has no sign. -/
structure IsShortest (spelling : List Char) : Prop where
  continuing : ∀ c ∈ spelling.dropLast, ∃ bits < 32, c = Base64.letter (bits + 32)
  closing : ∃ bits < 32, spelling.getLast? = some (Base64.letter bits)
  few : spelling.length ≤ 7
  used : spelling.getLast? = some 'A' → spelling = ['A']
  signed : spelling ≠ ['B']

/-- A shortest spelling can be told by looking at it. -/
instance (spelling : List Char) : Decidable (IsShortest spelling) :=
  -- Named, so that the digits are gone through and not all characters there are.
  have _ : Decidable
      (∀ c ∈ spelling.dropLast, ∃ bits < 32, c = Base64.letter (bits + 32)) :=
    List.decidableBAll _ _
  decidable_of_iff
    ((∀ c ∈ spelling.dropLast, ∃ bits < 32, c = Base64.letter (bits + 32)) ∧
      (∃ bits < 32, spelling.getLast? = some (Base64.letter bits)) ∧ spelling.length ≤ 7 ∧
      (spelling.getLast? = some 'A' → spelling = ['A']) ∧ spelling ≠ ['B'])
    ⟨fun ⟨continuing, closing, few, used, signed⟩ => ⟨continuing, closing, few, used, signed⟩,
      fun shortest => ⟨shortest.continuing, shortest.closing, shortest.few, shortest.used,
        shortest.signed⟩⟩

/-- Cutting a text into spellings loses nothing. -/
theorem flatten_spellings (text : List Char) : (spellings text).flatten = text := by
  induction text with
  | nil => rfl
  | cons c text inductionHypothesis =>
    by_cases last : closes c = true
    · rw [spellings, if_pos last, List.flatten_cons, inductionHypothesis, List.singleton_append]
    · rw [spellings, if_neg last]
      cases cut : spellings text with
      | nil =>
        rw [cut] at inductionHypothesis
        rw [← inductionHypothesis]
        rfl
      | cons spelling others =>
        rw [cut] at inductionHypothesis
        rw [← inductionHypothesis]
        rfl

/-- The letters of the lower half of the values end a value. -/
theorem closes_letter {value : Nat} (small : value < 64) :
    closes (Base64.letter value) = decide (value < 32) := by
  have table : ∀ value : Fin 64,
      closes (Base64.letter value) = decide (value.val < 32) := by decide
  exact table ⟨value, small⟩

/-- A total of one digit is spelled by its letter. -/
theorem digits_of_lt {total : Nat} (single : total < 32) :
    digits total = [Base64.letter total] := by
  rw [digits, if_pos single]

/-- A total of several digits is spelled by its low bits, which ask for another digit, and the
rest. -/
theorem digits_of_le {total : Nat} (several : 32 ≤ total) :
    digits total = Base64.letter (total % 32 + 32) :: digits (total / 32) := by
  rw [digits, if_neg (by omega)]

/-- The digits of a total are one spelling. -/
theorem spellings_digits (total : Nat) (rest : List Char) :
    spellings (digits total ++ rest) = digits total :: spellings rest := by
  induction total using Nat.strongRecOn with
  | ind total inductionHypothesis =>
    by_cases single : total < 32
    · have last : closes (Base64.letter total) = true := by
        rw [closes_letter (by omega), decide_eq_true single]
      rw [digits_of_lt single, List.singleton_append, spellings, if_pos last]
    · have more : ¬closes (Base64.letter (total % 32 + 32)) = true := by
        rw [closes_letter (by omega), decide_eq_true_eq]
        omega
      rw [digits_of_le (by omega), List.cons_append, spellings, if_neg more,
        inductionHypothesis _ (by omega)]

/-- Values that are written one behind the other are cut again. -/
theorem spellings_flatMap_encode (values : List Int) :
    spellings (values.flatMap encode) = values.map encode := by
  induction values with
  | nil => rfl
  | cons value values inductionHypothesis =>
    rw [List.flatMap_cons, encode, spellings_digits, inductionHypothesis, List.map_cons, encode]

/-- Letters of different values are different. -/
theorem letter_inj {first second : Nat} (firstSmall : first < 64) (secondSmall : second < 64)
    (same : Base64.letter first = Base64.letter second) : first = second := by
  have firstValue := Base64.value?_letter ⟨first, firstSmall⟩
  have secondValue := Base64.value?_letter ⟨second, secondSmall⟩
  simp only [same] at firstValue secondValue
  exact Option.some.inj (firstValue.symm.trans secondValue)

/-- The last digit of a total asks for no other one, and it is zero for zero only. -/
theorem getLast?_digits (total : Nat) : ∃ bits < 32,
    (digits total).getLast? = some (Base64.letter bits) ∧ (bits = 0 → total = 0) := by
  induction total using Nat.strongRecOn with
  | ind total inductionHypothesis =>
    by_cases single : total < 32
    · exact ⟨total, single, by rw [digits_of_lt single]; rfl, id⟩
    · obtain ⟨bits, small, last, zero⟩ := inductionHypothesis (total / 32) (by omega)
      refine ⟨bits, small, ?_, fun none => absurd (zero none) (by omega)⟩
      rw [digits_of_le (by omega), List.getLast?_cons, last]
      rfl

/-- All digits in front of the last one ask for another one. -/
theorem exists_bits_of_mem_dropLast_digits (total : Nat) (c : Char)
    (member : c ∈ (digits total).dropLast) : ∃ bits < 32, c = Base64.letter (bits + 32) := by
  induction total using Nat.strongRecOn with
  | ind total inductionHypothesis =>
    by_cases single : total < 32
    · simp [digits_of_lt single] at member
    · have inhabited : digits (total / 32) ≠ [] := by
        obtain ⟨bits, _, last, _⟩ := getLast?_digits (total / 32)
        rintro none
        simp [none] at last
      rw [digits_of_le (by omega), List.dropLast_cons_of_ne_nil inhabited] at member
      rcases List.mem_cons.mp member with rfl | member
      · exact ⟨total % 32, by omega, rfl⟩
      · exact inductionHypothesis _ (by omega) member

/-- A total is spelled with as many digits as it has five bits. -/
theorem length_digits_le (count total : Nat) (bounded : total < 32 ^ (count + 1)) :
    (digits total).length ≤ count + 1 := by
  induction count generalizing total with
  | zero => rw [digits_of_lt (by simpa using bounded), List.length_singleton]
  | succ count inductionHypothesis =>
    by_cases single : total < 32
    · simp [digits_of_lt single]
    · have fewer := inductionHypothesis (total / 32) (by
        rw [Nat.pow_succ] at bounded
        omega)
      rw [digits_of_le (by omega), List.length_cons]
      omega

/-- Digits of which all but the last one ask for another one, and the last one is zero only if it
stands alone, are the spelling of a total.

The induction is on the spelling. What follows a digit that asks for another one is no zero,
since a zero would be the last digit and not the only one. -/
theorem exists_eq_digits {spelling : List Char}
    (continuing : ∀ c ∈ spelling.dropLast, ∃ bits < 32, c = Base64.letter (bits + 32))
    (closing : ∃ bits < 32, spelling.getLast? = some (Base64.letter bits))
    (used : spelling.getLast? = some 'A' → spelling = ['A']) :
    ∃ total < 32 ^ spelling.length, spelling = digits total := by
  induction spelling with
  | nil => simp at closing
  | cons c spelling inductionHypothesis =>
    cases spelling with
    | nil =>
      obtain ⟨bits, small, last⟩ := closing
      refine ⟨bits, by simpa using small, ?_⟩
      rw [digits_of_lt small]
      exact congrArg ([·]) (Option.some.inj last)
    | cons next spelling =>
      have unused : (next :: spelling).getLast? ≠ some 'A' := by
        intro zero
        have alone := used (by rw [List.getLast?_cons_cons, zero])
        simp at alone
      rw [List.getLast?_cons_cons] at closing
      obtain ⟨total, bounded, spelled⟩ := inductionHypothesis
        (fun other member => continuing other (by simp [member])) closing
        (fun zero => absurd zero unused)
      obtain ⟨bits, small, rfl⟩ := continuing c (by simp)
      have positive : total ≠ 0 := by
        rintro rfl
        exact unused (by rw [spelled, digits_of_lt (by decide)]; rfl)
      refine ⟨total * 32 + bits, ?_, ?_⟩
      · rw [List.length_cons, Nat.pow_succ]
        omega
      · have low : (total * 32 + bits) % 32 = bits := by omega
        have high : (total * 32 + bits) / 32 = total := by omega
        rw [digits_of_le (by omega), low, high, spelled]

/-- Every total but that of the negative zero is the one of the value that it is read as. -/
theorem toSigned_ofSigned {total : Nat} (signed : total ≠ 1) :
    toSigned (ofSigned total) = total := by
  simp only [toSigned, ofSigned]
  split <;> split <;> omega

/-- The shortest spellings are what values of up to 35 bits, the sign included, are written
as. -/
theorem isShortest_iff (spelling : List Char) :
    IsShortest spelling ↔ ∃ value : Int, value.natAbs < 2 ^ 34 ∧ spelling = encode value := by
  constructor
  · rintro ⟨continuing, closing, few, used, signed⟩
    obtain ⟨total, bounded, rfl⟩ := exists_eq_digits continuing closing used
    have room : total < 2 ^ 35 := by
      have most : 32 ^ (digits total).length ≤ 32 ^ 7 := Nat.pow_le_pow_right (by decide) few
      omega
    have noNegativeZero : total ≠ 1 := by
      rintro rfl
      exact signed (digits_of_lt (by decide))
    refine ⟨ofSigned total, ?_, ?_⟩
    · simp only [ofSigned]
      split <;> omega
    · rw [encode, toSigned_ofSigned noNegativeZero]
  · rintro ⟨value, bounded, rfl⟩
    obtain ⟨bits, small, last, zero⟩ := getLast?_digits (toSigned value)
    have room : toSigned value < 32 ^ 7 := by
      simp only [toSigned]
      split <;> omega
    refine ⟨exists_bits_of_mem_dropLast_digits _, ⟨bits, small, last⟩,
      length_digits_le 6 _ room, ?_, ?_⟩
    · intro isZero
      have none : bits = 0 :=
        letter_inj (by omega) (by decide) (Option.some.inj (last.symm.trans isZero))
      rw [encode, zero none, digits_of_lt (by decide)]
      rfl
    · -- The negative zero reads as zero, which is written without a sign.
      intro negativeZero
      have zero : decode (Utf8.encode ['B']) = .ok [0] := by decide +kernel
      have own : decode (Utf8.encode (encode value)) = .ok [value] := by
        have room : value.natAbs < 2 ^ 61 := by omega
        simpa using decode_encode [value] (by simpa using room)
      rw [negativeZero, zero] at own
      obtain rfl : 0 = value := by simpa using own
      rw [encode, toSigned, digits_of_lt (by decide)] at negativeZero
      exact absurd negativeZero (by decide)

end Vlq

namespace Codec

/-- How far a segment starts behind the column in front of it, which is its first value. -/
def columnStep (text : List Char) : Int :=
  match Vlq.decode (Utf8.encode text) with
  | .ok (first :: _) => first
  | _ => 0

/-- The canonical text of a segment: one or more values, all of them in their shortest
spellings, and the step between columns is not a step back. -/
structure IsCanonicalSegment (text : List Char) : Prop where
  inhabited : text ≠ []
  shortest : ∀ spelling ∈ Vlq.spellings text, Vlq.IsShortest spelling
  forward : 0 ≤ columnStep text

/-- A canonical segment can be told by looking at it. -/
instance (text : List Char) : Decidable (IsCanonicalSegment text) :=
  decidable_of_iff
    (text ≠ [] ∧ (∀ spelling ∈ Vlq.spellings text, Vlq.IsShortest spelling) ∧
      0 ≤ columnStep text)
    ⟨fun ⟨inhabited, shortest, forward⟩ => ⟨inhabited, shortest, forward⟩,
      fun canonical => ⟨canonical.inhabited, canonical.shortest, canonical.forward⟩⟩

/-- A canonical mappings text: every line is empty or holds canonical segments only. -/
def IsCanonical (mappings : String) : Prop :=
  ∀ line ∈ Text.split ';' mappings.toList, line ≠ [] →
    ∀ segment ∈ Text.split ',' line, IsCanonicalSegment segment

/-- A canonical text can be told by looking at it. -/
instance (mappings : String) : Decidable (IsCanonical mappings) :=
  inferInstanceAs <| Decidable <| ∀ line ∈ Text.split ';' mappings.toList, line ≠ [] →
    ∀ segment ∈ Text.split ',' line, IsCanonicalSegment segment

/-- Shortest spellings one behind the other are what some values are written as. -/
theorem exists_flatMap_encode {spellings : List (List Char)}
    (shortest : ∀ spelling ∈ spellings, Vlq.IsShortest spelling) :
    ∃ values : List Int, (∀ value ∈ values, value.natAbs < 2 ^ 61) ∧
      spellings.flatten = values.flatMap Vlq.encode := by
  induction spellings with
  | nil => exact ⟨[], by simp, rfl⟩
  | cons spelling spellings inductionHypothesis =>
    obtain ⟨value, small, rfl⟩ := (Vlq.isShortest_iff spelling).mp (shortest spelling (by simp))
    obtain ⟨values, bounded, spelled⟩ := inductionHypothesis
      fun other member => shortest other (by simp [member])
    have room : value.natAbs < 2 ^ 61 := by omega
    refine ⟨value :: values, List.forall_mem_cons.mpr ⟨room, bounded⟩, ?_⟩
    rw [List.flatten_cons, spelled, List.flatMap_cons]

/-- An index that was read from a total has this total. -/
theorem total_of_index {field : Field} {value : Int} {read : UInt32}
    (ranged : index field value = .ok read) : total read = value := by
  simp only [index] at ranged
  split at ranged
  · rename_i range
    obtain rfl := Except.ok.inj ranged
    have small : value.toNat < UInt32.size := by omega
    simp only [total, UInt32.toNat_ofNat_of_lt' small]
    omega
  · simp at ranged

/-- An origin has the totals that it was read from. -/
theorem total_of_origin {totals : Totals} {named : Bool} {origin : Origin}
    (ranged : totals.origin named = .ok origin) :
    total origin.source = totals.source ∧ total origin.line = totals.line ∧
      total origin.column = totals.column ∧
      origin.name.map total = if named then some totals.name else none := by
  have others {name : Option UInt32} (ranged : (do
      return (⟨← index .source totals.source, ← index .line totals.line,
        ← index .column totals.column, name⟩ : Origin) : Except Fault Origin) = .ok origin) :
      total origin.source = totals.source ∧ total origin.line = totals.line ∧
        total origin.column = totals.column ∧ origin.name = name := by
    obtain ⟨source, sourceRead, ranged⟩ := Itemwise.exists_of_bind_eq_ok ranged
    obtain ⟨line, lineRead, ranged⟩ := Itemwise.exists_of_bind_eq_ok ranged
    obtain ⟨column, columnRead, ranged⟩ := Itemwise.exists_of_bind_eq_ok ranged
    obtain rfl := Except.ok.inj ranged
    exact ⟨total_of_index sourceRead, total_of_index lineRead, total_of_index columnRead, rfl⟩
  cases named with
  | false =>
    obtain ⟨source, line, column, name⟩ := others ranged
    exact ⟨source, line, column, by simp [name]⟩
  | true =>
    obtain ⟨name, nameRead, ranged⟩ := Itemwise.exists_of_bind_eq_ok ranged
    obtain ⟨source, line, column, same⟩ := others ranged
    obtain ⟨own, ownRead, last⟩ := Itemwise.exists_of_bind_eq_ok nameRead
    obtain rfl := Except.ok.inj last
    exact ⟨source, line, column, by simp [same, total_of_index ownRead]⟩

/-- A mapped segment is written as the values that moved the totals to its origin. -/
theorem differences_of_origin (name : Option Int) {generated first source line inner : Int}
    {totals : Totals} {column : UInt32} {origin : Origin}
    (columnTotal : total column = generated + first)
    (ranged : (totals.move source line inner name).origin name.isSome = .ok origin) :
    differences generated totals ⟨column, some origin⟩ =
      (first :: source :: line :: inner :: name.toList, totals.move source line inner name) := by
  obtain ⟨sourceTotal, lineTotal, innerTotal, nameTotal⟩ := total_of_origin ranged
  have back (start step : Int) : start + step - start = step := by omega
  simp only [Totals.move] at sourceTotal lineTotal innerTotal nameTotal
  cases name with
  | none =>
    have nameless : origin.name = none := by simpa using nameTotal
    simp [differences, Totals.move, columnTotal, sourceTotal, lineTotal, innerTotal, nameless,
      back]
  | some step =>
    obtain ⟨own, named, ownTotal⟩ : ∃ own, origin.name = some own ∧
        total own = totals.name + step := by simpa using nameTotal
    simp [differences, Totals.move, columnTotal, sourceTotal, lineTotal, innerTotal, named,
      ownTotal, back]

/-- A segment is written as the values that it was read from, with the same totals behind it. -/
theorem differences_of_segment {generated behind : Int} {totals moved : Totals}
    {values : List Int} {read : Segment}
    (had : segment generated totals values = .ok (read, behind, moved)) :
    differences generated totals read = (values, moved) ∧ behind = total read.column := by
  cases values with
  | nil => simp [segment] at had
  | cons first others =>
    simp only [segment] at had
    obtain ⟨column, columnRead, had⟩ := Itemwise.exists_of_bind_eq_ok had
    have columnTotal := total_of_index columnRead
    split at had
    · obtain ⟨rfl, rfl, rfl⟩ : Segment.unmapped column = read ∧ _ = behind ∧ totals = moved := by
        simpa using Except.ok.inj had
      refine ⟨?_, columnTotal.symm⟩
      simp [differences, Segment.unmapped, columnTotal]
    · obtain ⟨origin, originRead, had⟩ := Itemwise.exists_of_bind_eq_ok had
      obtain ⟨rfl, rfl, rfl⟩ : ⟨column, some origin⟩ = read ∧ _ = behind ∧ _ = moved := by
        simpa using Except.ok.inj had
      exact ⟨differences_of_origin none columnTotal originRead, columnTotal.symm⟩
    · obtain ⟨origin, originRead, had⟩ := Itemwise.exists_of_bind_eq_ok had
      obtain ⟨rfl, rfl, rfl⟩ : ⟨column, some origin⟩ = read ∧ _ = behind ∧ _ = moved := by
        simpa using Except.ok.inj had
      exact ⟨differences_of_origin (some _) columnTotal originRead, columnTotal.symm⟩
    · simp at had

/-- A canonical segment is the text of the segment that is read from it, which does not start
before the column in front of it. -/
theorem differences_of_canonical {generated behind : Int} {totals moved : Totals}
    {text : List Char} {read : Segment} (canonical : IsCanonicalSegment text)
    (had : decodeSegment generated totals text = .ok (read, behind, moved)) :
    (differences generated totals read).1.flatMap Vlq.encode = text ∧
      (differences generated totals read).2 = moved ∧ behind = total read.column ∧
      generated ≤ total read.column := by
  obtain ⟨values, bounded, spelled⟩ := exists_flatMap_encode canonical.shortest
  have valuesRead := Vlq.decode_encode values bounded
  rw [← spelled, Vlq.flatten_spellings] at valuesRead
  simp only [decodeSegment, valuesRead] at had
  obtain ⟨written, starts⟩ := differences_of_segment had
  obtain ⟨others, first⟩ := exists_differences_cons generated totals read
  rw [written] at first ⊢
  have step : columnStep text = total read.column - generated := by
    simp only [columnStep, valuesRead, show values = _ from first]
  have forward := canonical.forward
  refine ⟨?_, rfl, starts, by omega⟩
  rw [← spelled, Vlq.flatten_spellings]

/-- Segments in the order of their columns, none of them before a given column. -/
def IsRising (generated : Int) (segments : List Segment) : Prop :=
  Segment.Ordered segments ∧ ∀ segment ∈ segments, generated ≤ total segment.column

/-- Segments rise if the first one does and the others do behind it. -/
theorem isRising_cons (generated : Int) (segment : Segment) (segments : List Segment) :
    IsRising generated (segment :: segments) ↔
      generated ≤ total segment.column ∧ IsRising (total segment.column) segments := by
  have column_le (first second : Segment) :
      first.column ≤ second.column ↔ total first.column ≤ total second.column := by
    simp only [UInt32.le_iff_toNat_le, total]
    omega
  simp only [IsRising, Segment.Ordered, List.pairwise_cons, List.forall_mem_cons, column_le]
  constructor
  · rintro ⟨⟨least, ordered⟩, first, _⟩
    exact ⟨first, ordered, least⟩
  · rintro ⟨first, ordered, least⟩
    exact ⟨⟨least, ordered⟩, first, fun other member => Int.le_trans first (least other member)⟩

/-- Canonical segments are the texts of the segments that are read from them, with the same
totals behind them, and these segments rise. -/
theorem encodeLine_of_decodeLine {line place : Nat} {generated : Int} {totals moved : Totals}
    {pieces : List (List Char)} {segments : List Segment}
    (canonical : ∀ piece ∈ pieces, IsCanonicalSegment piece)
    (read : decodeLine line place generated totals pieces = .ok (segments, moved)) :
    encodeLine generated totals segments = (pieces, moved) ∧ IsRising generated segments := by
  induction pieces generalizing place generated totals segments with
  | nil =>
    obtain ⟨rfl, rfl⟩ : [] = segments ∧ totals = moved := by simpa [decodeLine] using read
    exact ⟨rfl, .nil, by simp⟩
  | cons piece pieces inductionHypothesis =>
    have own := canonical piece (by simp)
    rw [decodeLine] at read
    · split at read
      · simp at read
      · rename_i first behind between segmentRead
        obtain ⟨⟨others, last⟩, rest, same⟩ := Itemwise.exists_of_map_eq_ok read
        obtain ⟨rfl, rfl⟩ : first :: others = segments ∧ last = moved := by simpa using same
        obtain ⟨spelled, rfl, rfl, forward⟩ := differences_of_canonical own segmentRead
        obtain ⟨texts, rising⟩ := inductionHypothesis
          (fun other member => canonical other (by simp [member])) rest
        refine ⟨?_, (isRising_cons _ _ _).mpr ⟨forward, rising⟩⟩
        simp only [encodeLine, spelled, texts]
    · exact own.inhabited

/-- A canonical line is the text of the segments that are read from it, which are in order. -/
theorem join_encodeLine_of_canonical {line : Nat} {totals moved : Totals} {text : List Char}
    {segments : List Segment}
    (canonical : text ≠ [] → ∀ piece ∈ Text.split ',' text, IsCanonicalSegment piece)
    (read : decodeLine line 0 0 totals (Text.split ',' text) = .ok (segments, moved)) :
    Text.join ',' (encodeLine 0 totals segments).1 = text ∧
      (encodeLine 0 totals segments).2 = moved ∧ Segment.sort segments = segments := by
  by_cases empty : text = []
  · subst empty
    obtain ⟨rfl, rfl⟩ : [] = segments ∧ totals = moved := by
      simpa [decodeLine, Text.split] using read
    exact ⟨rfl, rfl, rfl⟩
  · obtain ⟨texts, ordered, _⟩ := encodeLine_of_decodeLine (canonical empty) read
    rw [texts]
    exact ⟨Text.join_split ',' text, rfl, Segment.sort_eq_self segments ordered⟩

/-- Canonical lines are the texts of the lines that are read from them. -/
theorem encodeLines_of_canonical {line : Nat} {totals : Totals} {texts : List (List Char)}
    {lines : List (List Segment)}
    (canonical : ∀ text ∈ texts, text ≠ [] →
      ∀ piece ∈ Text.split ',' text, IsCanonicalSegment piece)
    (read : decodeLines line totals texts = .ok lines) : encodeLines totals lines = texts := by
  induction texts generalizing line totals lines with
  | nil =>
    obtain rfl := Except.ok.inj read
    rfl
  | cons text texts inductionHypothesis =>
    rw [decodeLines] at read
    split at read
    · simp at read
    · rename_i segments moved lineRead
      obtain ⟨others, rest, rfl⟩ := Itemwise.exists_of_map_eq_ok read
      obtain ⟨joined, rfl, sorted⟩ :=
        join_encodeLine_of_canonical (canonical text (by simp)) lineRead
      have behind := inductionHypothesis
        (fun other member => canonical other (by simp [member])) rest
      simp only [encodeLines, sorted, joined, behind]

/-- What is read is in order. -/
theorem ordered_of_decodeLines {line : Nat} {totals : Totals} {texts : List (List Char)}
    {lines : List (List Segment)} (read : decodeLines line totals texts = .ok lines) :
    ∀ segments ∈ lines, Segment.Ordered segments := by
  induction texts generalizing line totals lines with
  | nil =>
    obtain rfl := Except.ok.inj read
    simp
  | cons text texts inductionHypothesis =>
    rw [decodeLines] at read
    split at read
    · simp at read
    · obtain ⟨others, rest, rfl⟩ := Itemwise.exists_of_map_eq_ok read
      exact List.forall_mem_cons.mpr ⟨Segment.ordered_sort _, inductionHypothesis rest⟩

/-- A segment is written canonically if it does not start before the column in front of it. -/
theorem isCanonicalSegment_differences {generated : Int} {totals : Totals} {written : Segment}
    (generatedRanged : IsIndex generated) (ranged : totals.AreIndices)
    (forward : generated ≤ total written.column) :
    IsCanonicalSegment ((differences generated totals written).1.flatMap Vlq.encode) := by
  refine ⟨differences_text_ne_nil generated totals written, ?_, ?_⟩
  · intro spelling member
    rw [Vlq.spellings_flatMap_encode] at member
    obtain ⟨value, inside, rfl⟩ := List.mem_map.mp member
    have small := natAbs_lt_of_mem_differences generated totals written generatedRanged ranged
      value inside
    exact (Vlq.isShortest_iff _).mpr ⟨value, by omega, rfl⟩
  · obtain ⟨others, first⟩ := exists_differences_cons generated totals written
    have step : columnStep ((differences generated totals written).1.flatMap Vlq.encode) =
        total written.column - generated := by
      simp only [columnStep, decode_differences generated totals written generatedRanged ranged]
      simp only [first]
    omega

/-- Segments that rise are written canonically. -/
theorem isCanonicalSegment_of_mem_encodeLine {generated : Int} {totals : Totals}
    {segments : List Segment} (generatedRanged : IsIndex generated) (ranged : totals.AreIndices)
    (rising : IsRising generated segments) :
    ∀ piece ∈ (encodeLine generated totals segments).1, IsCanonicalSegment piece := by
  induction segments generalizing generated totals with
  | nil => simp [encodeLine]
  | cons segment segments inductionHypothesis =>
    obtain ⟨forward, rest⟩ := (isRising_cons generated segment segments).mp rising
    have behind := areIndices_differences generated totals segment ranged
    exact List.forall_mem_cons.mpr
      ⟨isCanonicalSegment_differences generatedRanged ranged forward,
        inductionHypothesis (isIndex_total segment.column) behind rest⟩

/-- Lines in order are written canonically. -/
theorem isCanonical_of_mem_encodeLines {totals : Totals} {lines : List (List Segment)}
    (ranged : totals.AreIndices) (ordered : ∀ segments ∈ lines, Segment.Ordered segments) :
    ∀ text ∈ encodeLines totals lines, text ≠ [] →
      ∀ piece ∈ Text.split ',' text, IsCanonicalSegment piece := by
  induction lines generalizing totals with
  | nil => simp [encodeLines]
  | cons segments lines inductionHypothesis =>
    have start : IsIndex 0 := by simp [IsIndex]
    have behind := (decodeLine_encodeLine 0 0 0 totals segments start ranged).2
    refine List.forall_mem_cons.mpr ⟨?_, inductionHypothesis behind
      fun other member => ordered other (by simp [member])⟩
    intro inhabited piece member
    have texts : (encodeLine 0 totals segments).1 ≠ [] := by
      intro none
      exact inhabited (by rw [none]; rfl)
    rw [Text.split_join ',' _ texts] at member
    · have rising : IsRising 0 segments :=
        ⟨ordered segments (by simp), fun segment _ => (isIndex_total segment.column).1⟩
      exact isCanonicalSegment_of_mem_encodeLine start ranged rising piece member
    · intro text inside comma
      exact (ne_separator_of_mem_encodeLine _ _ _ text ',' inside comma).1 rfl

/-- What is read from a mappings text holds at least one line. -/
theorem ne_nil_of_decode {mappings : String} {lines : List (List Segment)}
    (accepted : decode mappings = .ok lines) : lines ≠ [] := by
  rintro rfl
  obtain ⟨text, texts, cut⟩ :=
    List.exists_cons_of_ne_nil (Text.split_ne_nil ';' mappings.toList)
  rw [decode, cut, decodeLines] at accepted
  split at accepted
  · simp at accepted
  · obtain ⟨_, _, impossible⟩ := Itemwise.exists_of_map_eq_ok accepted
    simp at impossible

/-- A mappings text that can be read is written again as it was exactly if it is canonical. -/
theorem encode_eq_iff_isCanonical {mappings : String} {lines : List (List Segment)}
    (accepted : decode mappings = .ok lines) : encode lines = mappings ↔ IsCanonical mappings := by
  constructor
  · rintro rfl
    have texts : encodeLines {} lines ≠ [] := by
      intro none
      cases lines with
      | nil => exact ne_nil_of_decode accepted rfl
      | cons segments lines => simp [encodeLines] at none
    have cut : Text.split ';' (encode lines).toList = encodeLines {} lines := by
      rw [encode, String.toList_ofList]
      exact Text.split_join ';' _ texts (semicolon_not_mem_encodeLines {} lines)
    rw [IsCanonical, cut]
    exact isCanonical_of_mem_encodeLines areIndices_start (ordered_of_decodeLines accepted)
  · intro canonical
    rw [encode, encodeLines_of_canonical canonical accepted, Text.join_split,
      String.ofList_toList]

/-- An empty segment, a redundant digit, a negative zero, a step back and a byte outside the
alphabet can all be read, and none of them is canonical. -/
example : ∀ mappings ∈ ["A,,C", "gA", "B", "C,D", "g!A"], ¬IsCanonical mappings := by
  decide +kernel

/-- Named and nameless segments on one column, totals that fall, and an empty line. -/
def winding : String := "gBAECA,AACDC;;I,CADA"

/-- The lines that the winding text is read as. -/
def windingLines : List (List Segment) :=
  [[⟨16, some ⟨0, 2, 1, some 0⟩⟩, ⟨16, some ⟨0, 3, 0, some 1⟩⟩], [],
    [⟨4, none⟩, ⟨5, some ⟨0, 2, 0, none⟩⟩]]

/-- The winding text can be read, and is written again as it was exactly if it is canonical. -/
theorem encode_eq_iff_isCanonical_winding : decode winding = .ok windingLines ∧
    (encode windingLines = winding ↔ IsCanonical winding) :=
  ⟨by decide +kernel, encode_eq_iff_isCanonical (by decide +kernel)⟩

end Codec

end MapChain
