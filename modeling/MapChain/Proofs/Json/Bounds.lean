import MapChain.Json.Reader
import MapChain.Proofs.Text.Length

/-!
# What a text has room for

A JSON text is longer than every string and every array that can be read from it: a string
takes its quotation marks and no escape stands for more characters than it has, and
every item of an array takes a character. Every reader leaves less than it was given.
-/

namespace MapChain.Json

/-- A value whose strings and arrays are all shorter than a bound. -/
inductive Fits (bound : Nat) : Json → Prop where
  | null : Fits bound .null
  | bool (value : Bool) : Fits bound (.bool value)
  | natural (value : Nat) : Fits bound (.natural value)
  | decimal (negative : Bool) (significand : Nat) (exponent : Int) :
      Fits bound (.decimal negative significand exponent)
  | string (text : String) (shorter : text.length < bound) : Fits bound (.string text)
  | array (items : List Json) (fewer : items.length < bound)
      (each : ∀ item ∈ items, Fits bound item) : Fits bound (.array items)
  | object (members : List (String × Json))
      (each : ∀ member ∈ members, Fits bound member.2) : Fits bound (.object members)

/-- What fits below a bound fits below a larger one. -/
theorem Fits.mono {value : Json} {bound wider : Nat} (fits : Fits bound value)
    (room : bound ≤ wider) : Fits wider value := by
  induction fits with
  | null => exact .null
  | bool value => exact .bool value
  | natural value => exact .natural value
  | decimal negative significand exponent => exact .decimal negative significand exponent
  | string text shorter => exact .string text (by omega)
  | array items fewer _ inductionHypothesis =>
    exact .array items (by omega) inductionHypothesis
  | object members _ inductionHypothesis => exact .object members inductionHypothesis

/-- Space takes nothing but room. -/
theorem length_skipSpace_le (input : List Char) : (skipSpace input).length ≤ input.length :=
  (List.dropWhile_sublist _).length_le

/-- A text that is read with one more character in front is read without it. -/
theorem Quoted.exists_of_map_cons {c : Char} {read : Option (List Char × List Char)}
    {text rest : List Char}
    (longer : read.map (fun read => (c :: read.1, read.2)) = some (text, rest)) :
    ∃ others, text = c :: others ∧ read = some (others, rest) := by
  obtain ⟨⟨others, left⟩, had, same⟩ := Option.map_eq_some_iff.mp longer
  obtain ⟨rfl, rfl⟩ := Prod.mk.inj same
  exact ⟨others, rfl, had⟩

/-- A quoted text is shorter than its spelling, of which the closing mark is a part. -/
theorem Quoted.length_of_decode? {input text rest : List Char}
    (read : Quoted.decode? input = some (text, rest)) :
    text.length + rest.length < input.length := by
  fun_induction Quoted.decode? input generalizing text rest with
  | case11 rest =>
    obtain ⟨rfl, rfl⟩ := Prod.mk.inj (Option.some.inj read)
    simp
  | case5 | case8 | case10 | case13 =>
    rename_i inductionHypothesis
    obtain ⟨others, rfl, had⟩ := exists_of_map_cons read
    have shorter := inductionHypothesis had
    simp only [List.length_cons]
    omega
  | _ => simp at read

/-- Reading a fraction leaves no more than was there. -/
theorem Number.length_of_fraction? {input rest : List Char} {digits : Option (List Char)}
    (read : Number.fraction? input = some (digits, rest)) : rest.length ≤ input.length := by
  simp only [Number.fraction?] at read
  split at read
  · rename_i behind
    split at read
    · simp at read
    · obtain ⟨_, rfl⟩ := Prod.mk.inj (Option.some.inj read)
      have less := (List.dropWhile_sublist (l := behind) Char.isDigit).length_le
      simp only [List.length_cons]
      omega
  · obtain ⟨_, rfl⟩ := Prod.mk.inj (Option.some.inj read)
    exact Nat.le_refl _

/-- Reading an exponent leaves no more than was there. -/
theorem Number.length_of_exponent? {input rest : List Char} {power : Option Int}
    (read : Number.exponent? input = some (power, rest)) : rest.length ≤ input.length := by
  have less (behind : List Char) : (behind.dropWhile Char.isDigit).length ≤ behind.length :=
    (List.dropWhile_sublist _).length_le
  cases input with
  | nil =>
    obtain ⟨_, rfl⟩ := Prod.mk.inj (Option.some.inj read)
    exact Nat.le_refl _
  | cons mark input =>
    simp only [Number.exponent?] at read
    split at read
    · -- With or without a sign, what is left follows the digits.
      split at read
      all_goals
        simp only [Option.ite_none_left_eq_some, Option.some.injEq, Prod.mk.injEq] at read
        obtain ⟨_, _, rfl⟩ := read
        refine Nat.le_trans (less _) ?_
        simp only [List.length_cons]
        omega
    · obtain ⟨_, rfl⟩ := Prod.mk.inj (Option.some.inj read)
      exact Nat.le_refl _

/-- A number takes at least its first digit. -/
theorem Number.length_of_unsigned? {negative : Bool} {input rest : List Char} {value : Json}
    (read : Number.unsigned? negative input = some (value, rest)) :
    rest.length < input.length ∧ ∀ bound, Fits bound value := by
  simp only [Number.unsigned?] at read
  split at read
  · simp at read
  · rename_i digits
    simp only [Option.bind_eq_bind, Option.pure_def, Option.bind_eq_some_iff] at read
    obtain ⟨⟨places, afterFraction⟩, fraction, ⟨power, afterExponent⟩, exponent, last⟩ := read
    have first := Text.length_dropWhile_lt (not_or.mp digits).1
    have second : afterFraction.length ≤ (input.dropWhile Char.isDigit).length :=
      length_of_fraction? fraction
    have third : afterExponent.length ≤ afterFraction.length := length_of_exponent? exponent
    split at last
    · simp only [Option.some.injEq, Prod.mk.injEq] at last
      obtain ⟨rfl, rfl⟩ := last
      exact ⟨by omega, fun _ => .natural _⟩
    · split at last
      · simp at last
      · simp only [Option.some.injEq, Prod.mk.injEq] at last
        obtain ⟨rfl, rfl⟩ := last
        exact ⟨by omega, fun _ => .decimal _ _ _⟩

/-- What a reader of values makes of an input: it leaves less than it was given, and what it
reads fits into the input. -/
def Takes (Room : Nat → α → Prop) (reader : List Char → Option (α × List Char)) : Prop :=
  ∀ input value rest, reader input = some (value, rest) →
    rest.length < input.length ∧ Room input.length value

/-- A word takes its letters. -/
theorem length_of_word? {spelling input rest : List Char} {value own : Json}
    (read : word? spelling own input = some (value, rest)) :
    rest.length ≤ input.length ∧ value = own := by
  obtain ⟨left, had, same⟩ := Option.map_eq_some_iff.mp read
  obtain ⟨rfl, rfl⟩ := Prod.mk.inj same
  have whole := Text.append_of_isPrefixOf? had
  refine ⟨?_, rfl⟩
  rw [← whole, List.length_append]
  omega

/-- Scalars take room. -/
theorem takes_scalar? : Takes Fits scalar? := by
  intro input value rest read
  simp only [scalar?] at read
  split at read
  · obtain ⟨less, rfl⟩ := length_of_word? read
    exact ⟨Nat.lt_succ_of_le less, .null⟩
  · obtain ⟨less, rfl⟩ := length_of_word? read
    exact ⟨Nat.lt_succ_of_le less, .bool true⟩
  · obtain ⟨less, rfl⟩ := length_of_word? read
    exact ⟨Nat.lt_succ_of_le less, .bool false⟩
  · obtain ⟨⟨text, left⟩, had, same⟩ := Option.map_eq_some_iff.mp read
    obtain ⟨rfl, rfl⟩ := Prod.mk.inj same
    have shorter := Quoted.length_of_decode? had
    simp only [List.length_cons]
    refine ⟨by omega, .string _ ?_⟩
    rw [String.length_ofList]
    omega
  · simp only [Number.decode?] at read
    split at read
    · obtain ⟨less, fits⟩ := Number.length_of_unsigned? read
      exact ⟨Nat.lt_succ_of_lt less, fits _⟩
    · obtain ⟨less, fits⟩ := Number.length_of_unsigned? read
      exact ⟨less, fits _⟩

section Items

variable {Room : Nat → α → Prop} {item : List Char → Option (α × List Char)}

/-- Items take a character each and fit into the input. -/
theorem length_of_separated? (takes : Takes Room item)
    (mono : ∀ bound wider value, bound ≤ wider → Room bound value → Room wider value)
    {close : Char} {bound : Nat} {input rest : List Char} {items : List α}
    (read : separated? item close bound input = some (items, rest)) :
    items.length + rest.length ≤ input.length ∧ ∀ value ∈ items, Room input.length value := by
  induction bound generalizing input rest items with
  | zero => simp [separated?] at read
  | succ bound inductionHypothesis =>
    simp only [separated?, Option.bind_eq_bind, Option.bind_eq_some_iff] at read
    obtain ⟨⟨first, behind⟩, had, read⟩ := read
    obtain ⟨less, room⟩ := takes input first behind had
    have spaces := length_skipSpace_le behind
    split at read
    · simp at read
    · rename_i c left next
      simp only at next
      rw [next, List.length_cons] at spaces
      split at read
      · obtain ⟨rfl, rfl⟩ := Prod.mk.inj (Option.some.inj read)
        refine ⟨?_, by simpa using room⟩
        simp only [List.length_singleton]
        omega
      · split at read
        · simp at read
        · obtain ⟨⟨others, last⟩, later, same⟩ := Option.bind_eq_some_iff.mp read
          obtain ⟨rfl, rfl⟩ := Prod.mk.inj (Option.some.inj same)
          obtain ⟨fewer, each⟩ := inductionHypothesis later
          refine ⟨by simp only [List.length_cons]; omega, ?_⟩
          intro value member
          rcases List.mem_cons.mp member with rfl | member
          · exact room
          · exact mono _ _ value (by omega) (each value member)

/-- Items up to a closing sign, of which there may be none, take a character each and fit into the
input. -/
theorem length_of_enclosed? (takes : Takes Room item)
    (mono : ∀ bound wider value, bound ≤ wider → Room bound value → Room wider value)
    {close : Char} {input rest : List Char} {items : List α}
    (read : enclosed? item close input = some (items, rest)) :
    items.length + rest.length ≤ input.length ∧ ∀ value ∈ items, Room input.length value := by
  have spaces := length_skipSpace_le input
  simp only [enclosed?] at read
  split at read
  · simp at read
  · rename_i c left next
    rw [next, List.length_cons] at spaces
    split at read
    · obtain ⟨rfl, rfl⟩ := Prod.mk.inj (Option.some.inj read)
      exact ⟨by simp only [List.length_nil]; omega, by simp⟩
    · exact length_of_separated? takes mono read

end Items

/-- A member takes room for its value. -/
theorem takes_member? {reader : List Char → Option (Json × List Char)}
    (takes : Takes Fits reader) : Takes (fun bound member => Fits bound member.2)
      (member? reader) := by
  intro input member rest read
  have spaces := length_skipSpace_le input
  simp only [member?] at read
  split at read
  · rename_i quoted next
    rw [next, List.length_cons] at spaces
    simp only [Option.bind_eq_bind, Option.bind_eq_some_iff] at read
    obtain ⟨⟨name, behind⟩, had, read⟩ := read
    have shorter := Quoted.length_of_decode? had
    have moreSpaces := length_skipSpace_le behind
    split at read
    · rename_i left colon
      simp only at colon
      rw [colon, List.length_cons] at moreSpaces
      obtain ⟨⟨value, last⟩, valued, same⟩ := Option.bind_eq_some_iff.mp read
      simp only [Option.pure_def, Option.some.injEq, Prod.mk.injEq] at same
      obtain ⟨rfl, rfl⟩ := same
      obtain ⟨less, fits⟩ := takes left value last valued
      exact ⟨by omega, fits.mono (by omega)⟩
    · simp at read
  · simp at read

/-- Values take room, however deep they nest. -/
theorem takes_value? (depth : Nat) : Takes Fits (value? depth) := by
  induction depth with
  | zero =>
    intro input value rest read
    obtain ⟨less, fits⟩ := takes_scalar? _ value rest read
    have spaces := length_skipSpace_le input
    exact ⟨by omega, fits.mono spaces⟩
  | succ depth inductionHypothesis =>
    intro input value rest read
    have spaces := length_skipSpace_le input
    simp only [value?] at read
    split at read
    · rename_i inner next
      rw [next, List.length_cons] at spaces
      obtain ⟨⟨items, last⟩, had, same⟩ := Option.map_eq_some_iff.mp read
      simp only [Prod.mk.injEq] at same
      obtain ⟨rfl, rfl⟩ := same
      obtain ⟨fewer, each⟩ := length_of_enclosed? inductionHypothesis
        (fun _ _ _ room fits => fits.mono room) had
      refine ⟨by omega, .array items (by omega) fun item member => ?_⟩
      exact (each item member).mono (by omega)
    · rename_i inner next
      rw [next, List.length_cons] at spaces
      obtain ⟨⟨members, last⟩, had, same⟩ := Option.map_eq_some_iff.mp read
      simp only [Prod.mk.injEq] at same
      obtain ⟨rfl, rfl⟩ := same
      obtain ⟨fewer, each⟩ := length_of_enclosed? (takes_member? inductionHypothesis)
        (fun _ _ _ room fits => fits.mono room) had
      refine ⟨by omega, .object members fun member inside => ?_⟩
      exact (each member inside).mono (by omega)
    · obtain ⟨less, fits⟩ := takes_scalar? _ value rest read
      exact ⟨by omega, fits.mono spaces⟩

/-- A text is longer than every string and every array that it spells. -/
theorem fits_of_decode? {text : List Char} {value : Json} (read : decode? text = some value) :
    Fits text.length value := by
  simp only [decode?, Option.bind_eq_bind, Option.bind_eq_some_iff] at read
  obtain ⟨⟨whole, rest⟩, had, last⟩ := read
  split at last
  · obtain rfl := Option.some.inj last
    exact (takes_value? nesting text whole rest had).2
  · simp at last

end MapChain.Json
