import MapChain.Proofs.Mapping.Canonical
import Mathlib.Tactic.Ring

/-!
# What digits spell

A text of digits is cut into spellings behind every digit that asks for no other one. A
spelling counts the five bits of its digits with the first ones lowest, and the lowest bit of
the count is the sign. Reading agrees with this as long as no spelling has more than twelve
digits: their bits fit below the sign of 64 bits, so none are lost.

Reading asks for a text that ends a value. A text that does not is refused, whatever its
spellings are.
-/

namespace MapChain.Vlq

/-- A text that is written in digits. -/
def AreDigits (text : List Char) : Prop := ∀ c ∈ text, ∃ value < 64, c = Base64.letter value

/-- The five bits of a character that is a digit. -/
def bits (c : Char) : Nat := (Base64.value? (UInt8.ofNat c.toNat)).getD 0 % 32

/-- The count that a spelling is of, the first digits lowest. -/
def number (spelling : List Char) : Nat :=
  spelling.foldr (fun c higher => bits c + 32 * higher) 0

/-- The values that a text of digits spells. -/
def values (text : List Char) : List Int :=
  (spellings text).map fun spelling => ofSigned (number spelling)

/-- Whether a text ends with a digit that asks for no other one. -/
def endsValue (text : List Char) : Bool := text.getLast?.any closes

/-- The most digits of a spelling whose bits all fit. -/
def spellingLimit : Nat := 12

/-- A text whose values are spelled with few enough digits. What does not end a value has
none. -/
def IsShort (text : List Char) : Prop :=
  ∀ spelling ∈ spellings text, endsValue spelling → spelling.length ≤ spellingLimit

/-- Whether values are spelled so can be told by cutting the text. -/
instance (text : List Char) : Decidable (IsShort text) :=
  inferInstanceAs <| Decidable <|
    ∀ spelling ∈ spellings text, endsValue spelling → spelling.length ≤ spellingLimit

/-- What stands behind the first digit of a text of digits is a text of digits. -/
theorem AreDigits.of_cons {c : Char} {text : List Char} (digits : AreDigits (c :: text)) :
    AreDigits text :=
  fun other member => digits other (List.mem_cons_of_mem c member)

/-- A letter has the five low bits of its value. -/
theorem bits_letter {value : Nat} (small : value < 64) :
    bits (Base64.letter value) = value % 32 := by
  rw [bits, Base64.value?_letter ⟨value, small⟩, Option.getD_some]

/-- A spelling counts its first digit where it stands and the others five places higher. -/
theorem number_cons_mul (c : Char) (spelling : List Char) (shift : Nat) :
    (number (c :: spelling) : Int) * 2 ^ shift =
      bits c * 2 ^ shift + number spelling * 2 ^ (shift + 5) := by
  have counted : number (c :: spelling) = bits c + 32 * number spelling := rfl
  rw [counted]
  push_cast
  ring

/-- A digit's bits stand at a shift where they fit. -/
theorem place_bits (c : Char) {shift : Nat} (room : shift + 5 ≤ 60) :
    place (bits c) shift = bits c * 2 ^ shift := by
  have small : bits c < 2 ^ 5 := Nat.mod_lt _ (by decide)
  refine place_eq _ _ ?_
  calc bits c * 2 ^ shift
      < 2 ^ 5 * 2 ^ shift := Nat.mul_lt_mul_of_pos_right small (Nat.two_pow_pos shift)
    _ = 2 ^ (5 + shift) := (Nat.pow_add 2 5 shift).symm
    _ ≤ 2 ^ 60 := Nat.pow_le_pow_right (by decide) (by omega)
    _ < 2 ^ 63 := by decide

/-- Reading a digit adds its bits, and either goes on with the same value or closes it. -/
theorem decodeFrom_cons (total : Int) (shift : Nat) (c : Char) (text : List Char)
    (digit : ∃ value < 64, c = Base64.letter value) (room : shift < 64) :
    decodeFrom total shift (Utf8.encode (c :: text)) =
      if closes c then
        (decodeFrom 0 0 (Utf8.encode text)).map (ofSigned (total + place (bits c) shift) :: ·)
      else decodeFrom (total + place (bits c) shift) (shift + 5) (Utf8.encode text) := by
  obtain ⟨value, small, rfl⟩ := digit
  rw [← List.singleton_append, Utf8.encode_append,
    decodeFrom_letter total shift value _ small room, bits_letter small, closes_letter small]
  by_cases more : 32 ≤ value
  · rw [if_pos more, if_neg (by simpa using more)]
  · rw [if_neg more, if_pos (by simpa using more)]

/-- A text ends a value as what is behind its first digit does. -/
theorem endsValue_cons (c : Char) {text : List Char} (inhabited : text ≠ []) :
    endsValue (c :: text) = endsValue text := by
  obtain ⟨next, others, rfl⟩ := List.exists_cons_of_ne_nil inhabited
  rw [endsValue, endsValue, List.getLast?_cons_cons]

/-- Behind a digit that asks for another one the text goes on if it ends a value. -/
theorem ne_nil_of_endsValue {c : Char} {text : List Char} (more : ¬closes c)
    (finished : endsValue (c :: text)) : text ≠ [] := by
  rintro rfl
  simp [endsValue, more] at finished

/-- A text that does not end a value is refused, also behind digits of one that goes on.

The induction is on the text. A digit that closes a value is not the last one. -/
theorem exists_decodeFrom_eq_error (text : List Char)
    (digits : AreDigits text) (total : Int) (shift : Nat)
    (goes : text ≠ [] ∨ shift ≠ 0) (unfinished : endsValue text = false) :
    ∃ fault, decodeFrom total shift (Utf8.encode text) = .error fault := by
  induction text generalizing total shift with
  | nil =>
    have within : shift ≠ 0 := goes.resolve_left (fun none => none rfl)
    exact ⟨.unfinished, by simp [Utf8.encode, decodeFrom, within]⟩
  | cons c text inductionHypothesis =>
    have behind := digits.of_cons
    by_cases room : shift < 64
    · rw [decodeFrom_cons total shift c text (digits c (by simp)) room]
      by_cases last : closes c
      · have inhabited : text ≠ [] := by
          rintro rfl
          simp [endsValue, last] at unfinished
        obtain ⟨fault, refused⟩ := inductionHypothesis behind 0 0 (.inl inhabited)
          (endsValue_cons c inhabited ▸ unfinished)
        exact ⟨fault, by rw [if_pos last, refused]; rfl⟩
      · have still : endsValue text = false := by
          by_cases inhabited : text = []
          · rw [inhabited]
            rfl
          · exact endsValue_cons c inhabited ▸ unfinished
        obtain ⟨fault, refused⟩ := inductionHypothesis behind _ (shift + 5) (.inr (by omega)) still
        exact ⟨fault, by rw [if_neg last, refused]⟩
    · obtain ⟨value, small, rfl⟩ := digits c (by simp)
      obtain ⟨byte, spelled, _⟩ := ofByte_letter value small
      refine ⟨.overflow, ?_⟩
      rw [← List.singleton_append, Utf8.encode_append, spelled, List.singleton_append, decodeFrom,
        if_pos (by omega)]

/-- A text is cut into a first spelling and others, unless it is empty. -/
theorem exists_spellings_eq_cons {text : List Char} (inhabited : text ≠ []) :
    ∃ first others, spellings text = first :: others ∧ first ≠ [] := by
  obtain ⟨c, text, rfl⟩ := List.exists_cons_of_ne_nil inhabited
  rw [spellings]
  split
  · exact ⟨_, _, rfl, by simp⟩
  · split
    · exact ⟨_, _, rfl, by simp⟩
    · exact ⟨_, _, rfl, by simp⟩

/-- Where a text ends a value, so does each spelling that it is cut into. -/
theorem endsValue_of_mem_spellings {text : List Char} (finished : endsValue text)
    {spelling : List Char} (member : spelling ∈ spellings text) : endsValue spelling := by
  induction text generalizing spelling with
  | nil => simp [spellings] at member
  | cons c text inductionHypothesis =>
    by_cases last : closes c
    · rw [spellings, if_pos last, List.mem_cons] at member
      rcases member with rfl | member
      · simpa [endsValue] using last
      · have inhabited : text ≠ [] := by
          rintro rfl
          simp [spellings] at member
        exact inductionHypothesis (endsValue_cons c inhabited ▸ finished) member
    · have inhabited := ne_nil_of_endsValue last finished
      have behind : endsValue text := endsValue_cons c inhabited ▸ finished
      obtain ⟨first, others, cut, some⟩ := exists_spellings_eq_cons inhabited
      rw [spellings, if_neg last, cut, List.mem_cons] at member
      rw [cut] at inductionHypothesis
      rcases member with rfl | member
      · rw [endsValue_cons c some]
        exact inductionHypothesis behind (by simp)
      · exact inductionHypothesis behind (by simp [member])

/-- A text is read as its values if the first of them is the one that its spelling counts when
nothing has been read before. -/
theorem decodeFrom_start {text : List Char}
    (read : ∀ first others, spellings text = first :: others →
      decodeFrom 0 0 (Utf8.encode text) =
        .ok (ofSigned (0 + number first * 2 ^ 0) ::
          others.map fun spelling => ofSigned (number spelling))) :
    decodeFrom 0 0 (Utf8.encode text) = .ok (values text) := by
  by_cases inhabited : text = []
  · subst inhabited
    rfl
  · obtain ⟨first, others, cut, _⟩ := exists_spellings_eq_cons inhabited
    rw [read first others cut, values, cut]
    simp

/-- A text that ends a value is read as the values that it spells, with what has been read of
the first one before added to it.

The induction is on the text. A digit that asks for another one leaves five bits less room for
the rest of its spelling, which has one digit less. -/
theorem decodeFrom_eq_ok {text : List Char}
    (digits : AreDigits text) (finished : endsValue text)
    (total : Int) (shift : Nat) {first : List Char} {others : List (List Char)}
    (cut : spellings text = first :: others) (room : shift + 5 * first.length ≤ 60)
    (short : ∀ spelling ∈ others, spelling.length ≤ spellingLimit) :
    decodeFrom total shift (Utf8.encode text) =
      .ok (ofSigned (total + number first * 2 ^ shift) ::
        others.map fun spelling => ofSigned (number spelling)) := by
  induction text generalizing total shift first others with
  | nil => simp [spellings] at cut
  | cons c text inductionHypothesis =>
    have behind := digits.of_cons
    have positive : 1 ≤ first.length := by
      obtain ⟨_, _, other, inhabited⟩ := exists_spellings_eq_cons (List.cons_ne_nil c text)
      obtain ⟨rfl, _⟩ := List.cons.inj (cut.symm.trans other)
      exact List.length_pos_iff.mpr inhabited
    rw [decodeFrom_cons total shift c text (digits c (by simp)) (by omega),
      place_bits c (by omega)]
    by_cases last : closes c
    · rw [spellings, if_pos last] at cut
      obtain ⟨rfl, rfl⟩ := List.cons.inj cut
      have rest : decodeFrom 0 0 (Utf8.encode text) = .ok (values text) := by
        apply decodeFrom_start
        intro next others nextCut
        have inhabited : text ≠ [] := by
          rintro rfl
          simp [spellings] at nextCut
        have few : next.length ≤ 12 := short next (by simp [nextCut])
        apply inductionHypothesis behind (endsValue_cons c inhabited ▸ finished) 0 0 nextCut
        · omega
        · exact fun spelling member => short spelling (by simp [nextCut, member])
      have own : (number [c] : Int) * 2 ^ shift = bits c * 2 ^ shift := by
        simp [number]
      rw [if_pos last, rest, own]
      rfl
    · have inhabited := ne_nil_of_endsValue last finished
      obtain ⟨next, rest, nextCut, _⟩ := exists_spellings_eq_cons inhabited
      rw [spellings, if_neg last, nextCut] at cut
      obtain ⟨rfl, rfl⟩ := List.cons.inj cut
      have lessRoom : shift + 5 + 5 * next.length ≤ 60 := by
        rw [List.length_cons] at room
        omega
      rw [if_neg last, inductionHypothesis behind (endsValue_cons c inhabited ▸ finished) _ _
        nextCut lessRoom short, number_cons_mul, Int.add_assoc]

/-- A text that ends a value is read as the values that it spells. -/
theorem decode_eq_ok {text : List Char}
    (digits : AreDigits text) (short : IsShort text)
    (finished : endsValue text) : decode (Utf8.encode text) = .ok (values text) := by
  have few : ∀ spelling ∈ spellings text, spelling.length ≤ 12 :=
    fun spelling member => short spelling member (endsValue_of_mem_spellings finished member)
  apply decodeFrom_start
  intro first others cut
  rw [cut] at few
  obtain ⟨firstFew, othersFew⟩ := List.forall_mem_cons.mp few
  exact decodeFrom_eq_ok digits finished 0 0 cut (by omega) othersFew

/-- A text that does not end a value is refused, unless it is empty. -/
theorem exists_decode_eq_error {text : List Char}
    (digits : AreDigits text) (inhabited : text ≠ [])
    (unfinished : endsValue text = false) :
    ∃ fault, decode (Utf8.encode text) = .error fault :=
  exists_decodeFrom_eq_error text digits 0 0 (.inl inhabited) unfinished

end MapChain.Vlq
