import MapChain.Json.Reader
import MapChain.Json.Writer
import Mathlib.Tactic.SplitIfs

/-!
# Reading written JSON

A value reads back from its text in every layout whose line breaks and gaps are white space.
The text of a number may be followed only by what does not go on with the number; all other
texts end by themselves. `Reads` is this law for one value, and it is proved constructor by
constructor, the depth that a reader has left growing by one with each array and object.

Numbers that are not natural are left out, because a document holds none.
-/

namespace MapChain.Json

namespace Quoted

/-- A letter escape reads as the character that it was written for. -/
theorem decode?_letter {c letter : Char} (own : letter? c = some letter) (rest : List Char) :
    decode? ('\\' :: letter :: rest) = (decode? rest).map fun read => (c :: read.1, read.2) := by
  simp only [letter?] at own
  split_ifs at own <;> obtain rfl := Option.some.inj own <;> simp_all [decode?, ofLetter?]

/-- A numeric escape reads as the control character that it was written for. -/
theorem decode?_control {c : Char} (low : c.toNat < 0x20) (rest : List Char) :
    decode? ('\\' :: 'u' :: '0' :: '0' :: Hex.lower (c.toNat / 16) :: Hex.lower (c.toNat % 16) ::
        rest) = (decode? rest).map fun read => (c :: read.1, read.2) := by
  have zero : Hex.digit? '0' = some 0 := by decide
  obtain ⟨_, high⟩ := Hex.digit?_upper_lower ⟨c.toNat / 16, by omega⟩
  obtain ⟨_, low'⟩ := Hex.digit?_upper_lower ⟨c.toNat % 16, by omega⟩
  have value : c.toNat / 16 * 16 + c.toNat % 16 = c.toNat := by omega
  have unit : unit? '0' '0' (Hex.lower (c.toNat / 16)) (Hex.lower (c.toNat % 16)) =
      some c.toNat := by
    simp only at high low'
    simp [unit?, zero, high, low', value]
  have notHigh : isHigh c.toNat = false := by simp [isHigh]; omega
  have notLow : isLow c.toNat = false := by simp [isLow]; omega
  simp [decode?, unit, notHigh, notLow]

/-- A character that needs no escape reads as itself. -/
theorem decode?_plain {c : Char} (noQuote : c ≠ '"') (noEscape : c ≠ '\\')
    (printable : ¬c.toNat < 0x20) (rest : List Char) :
    decode? (c :: rest) = (decode? rest).map fun read => (c :: read.1, read.2) := by
  rw [decode?]
  · rw [if_neg noQuote, if_neg (by simp [noEscape, Nat.le_of_not_lt printable])]
  · simp [noEscape]
  · simp [noEscape]

/-- Every character reads back from what it is written as. -/
theorem decode?_escape (c : Char) (rest : List Char) :
    decode? (escape c ++ rest) = (decode? rest).map fun read => (c :: read.1, read.2) := by
  rw [escape]
  cases own : letter? c with
  | some letter => exact decode?_letter own rest
  | none =>
    by_cases control : c.toNat < 0x20
    · rw [if_pos control]
      exact decode?_control control rest
    · have noQuote : c ≠ '"' := by
        rintro rfl
        simp [letter?] at own
      have noEscape : c ≠ '\\' := by
        rintro rfl
        simp [letter?] at own
      rw [if_neg control]
      exact decode?_plain noQuote noEscape control rest

/-- A text reads back from between its quotation marks. -/
theorem decode?_escaped (text rest : List Char) :
    decode? (text.flatMap escape ++ '"' :: rest) = some (text, rest) := by
  induction text with
  | nil => simp [decode?]
  | cons c text inductionHypothesis =>
    rw [List.flatMap_cons, List.append_assoc, decode?_escape, inductionHypothesis]
    rfl

end Quoted

namespace Number

/-- A text that does not go on with a number in front of it. -/
def Ends (rest : List Char) : Prop :=
  ∀ c ∈ rest.head?, c.isDigit = false ∧ c ≠ '.' ∧ c ≠ 'e' ∧ c ≠ 'E'

/-- Digits are read from the front as far as they go. -/
theorem takeWhile_digits {digits rest : List Char} (each : ∀ c ∈ digits, c.isDigit = true)
    (ends : Ends rest) : (digits ++ rest).takeWhile Char.isDigit = digits ∧
      (digits ++ rest).dropWhile Char.isDigit = rest := by
  induction digits with
  | nil =>
    cases rest with
    | nil => exact ⟨rfl, rfl⟩
    | cons c rest => simp [(ends c rfl).1]
  | cons c digits inductionHypothesis =>
    obtain ⟨taken, left⟩ := inductionHypothesis fun other member => each other (by simp [member])
    simp [each c (by simp), taken, left]

/-- Behind digits that all fit, further digits are added. -/
theorem whole_append {significand value : Nat} {digits : List Char} (more : List Char)
    (fits : whole significand digits = (value, 0)) :
    whole significand (digits ++ more) = whole value more := by
  induction digits generalizing significand with
  | nil =>
    obtain ⟨rfl, _⟩ := Prod.mk.inj fits
    rfl
  | cons c digits inductionHypothesis =>
    simp only [whole] at fits
    split at fits
    · rename_i longer
      rw [List.cons_append, whole, if_pos longer]
      exact inductionHypothesis fits
    · simp at fits

/-- A numeral that fits into a significand has its value. -/
theorem whole_natural (value : Nat) (fits : value < limit) :
    whole 0 (Text.natural value) = (value, 0) := by
  have digits : ∀ value : Fin 10, digit (Nat.digitChar value) = value := by decide
  induction value using Nat.strongRecOn with
  | ind value inductionHypothesis =>
    by_cases single : value < 10
    · have own := digits ⟨value, single⟩
      simp only at own
      rw [Text.natural, Nat.toDigits_of_lt_base single]
      simp [whole, own, fits]
    · have own := digits ⟨value % 10, Nat.mod_lt _ (by decide)⟩
      have whole_eq : value / 10 * 10 + value % 10 = value := by omega
      have front := inductionHypothesis (value / 10) (by omega) (by omega)
      simp only at own
      rw [Text.natural] at front ⊢
      rw [Nat.toDigits_of_base_le (by decide) (by omega), whole_append _ front]
      simp [whole, own, whole_eq, fits]

/-- A numeral of several digits does not start with zero. -/
theorem head?_natural (value : Nat) : (Text.natural value).head? = some '0' → value < 10 := by
  have digits : ∀ value : Fin 10, Nat.digitChar value = '0' → value.val = 0 := by decide
  induction value using Nat.strongRecOn with
  | ind value inductionHypothesis =>
    intro starts
    refine Nat.lt_of_not_le fun several => ?_
    have shorter : value / 10 < value := by omega
    have front : (Text.natural (value / 10)).head? = some '0' := by
      rw [Text.natural, Nat.toDigits_of_base_le (by decide) (by omega)] at starts
      rw [Text.natural]
      have inhabited : Nat.toDigits 10 (value / 10) ≠ [] := Nat.toDigits_ne_nil
      obtain ⟨first, others, spelled⟩ := List.exists_cons_of_ne_nil inhabited
      rw [spelled] at starts ⊢
      exact starts
    have small := inductionHypothesis (value / 10) shorter front
    rw [Text.natural, Nat.toDigits_of_lt_base small] at front
    have zero := digits ⟨value / 10, small⟩ (by simpa using front)
    simp only at zero
    omega

/-- A digit is no other mark. -/
theorem ne_of_isDigit {c mark : Char} (digit : c.isDigit = true)
    (noDigit : mark.isDigit = false) : c ≠ mark := by
  rintro rfl
  exact absurd digit (by simp [noDigit])

/-- A numeral starts with a digit. -/
theorem exists_cons_natural (value : Nat) :
    ∃ c digits, Text.natural value = c :: digits ∧ c.isDigit = true := by
  have inhabited : Nat.toDigits 10 value ≠ [] := Nat.toDigits_ne_nil
  obtain ⟨c, digits, spelled⟩ := List.exists_cons_of_ne_nil inhabited
  have member : c ∈ Nat.toDigits 10 value := by simp [spelled]
  exact ⟨c, digits, spelled, Nat.isDigit_of_mem_toDigits (by decide) (by decide) member⟩

/-- A numeral reads back. -/
theorem decode?_natural {value : Nat} (fits : value < limit) {rest : List Char}
    (ends : Ends rest) : decode? (Text.natural value ++ rest) = some (.natural value, rest) := by
  have each : ∀ c ∈ Text.natural value, c.isDigit = true := fun c member =>
    Nat.isDigit_of_mem_toDigits (by decide) (by decide) member
  obtain ⟨taken, left⟩ := takeWhile_digits each ends
  obtain ⟨c, digits, spelled, digit⟩ := exists_cons_natural value
  have unsigned : decode? (Text.natural value ++ rest) =
      unsigned? false (Text.natural value ++ rest) := by
    rw [spelled, List.cons_append, decode?]
    simp [ne_of_isDigit digit (show '-'.isDigit = false by decide)]
  have plain : ¬(Text.natural value = [] ∨
      (Text.natural value).head? = some '0' ∧ (Text.natural value).length ≠ 1) := by
    rintro (none | ⟨zero, several⟩)
    · exact List.cons_ne_nil c digits (spelled.symm.trans none)
    · have single := head?_natural value zero
      rw [Text.natural, Nat.toDigits_of_lt_base single] at several
      exact several rfl
  have noFraction : fraction? rest = some (none, rest) := by
    cases rest with
    | nil => rfl
    | cons c rest =>
      rw [fraction?]
      intro behind same
      exact (ends c rfl).2.1 (List.cons.inj same).1
  have noExponent : exponent? rest = some (none, rest) := by
    cases rest with
    | nil => rfl
    | cons c rest =>
      obtain ⟨_, _, lower, upper⟩ := ends c rfl
      simp [exponent?, lower, upper]
  rw [unsigned, unsigned?]
  simp only [taken, left, if_neg plain, whole_natural value fits, noFraction, noExponent,
    Option.bind_eq_bind, Option.bind_some]
  rfl

end Number

/-- White space between tokens. -/
def IsSpacing (spaces : List Char) : Prop := ∀ c ∈ spaces, isSpace c = true

/-- A layout that adds nothing but white space. -/
structure Layout.IsBlank (layout : Layout) : Prop where
  lineBreak : ∀ depth, IsSpacing (layout.lineBreak depth)
  gap : IsSpacing layout.gap

/-- The layout without any space. -/
theorem isBlank_compact : Layout.compact.IsBlank := by
  constructor <;> simp [Layout.compact, IsSpacing]

/-- Spaces in front of a token are skipped. -/
theorem skipSpace_append {spaces : List Char} (spacing : IsSpacing spaces) (input : List Char) :
    skipSpace (spaces ++ input) = skipSpace input := by
  induction spaces with
  | nil => rfl
  | cons c spaces inductionHypothesis =>
    have rest := inductionHypothesis fun other member => spacing other (by simp [member])
    rw [← rest, skipSpace, skipSpace, List.cons_append,
      List.dropWhile_cons_of_pos (spacing c (by simp))]

/-- A token is where the input goes on. -/
theorem skipSpace_cons {c : Char} (token : isSpace c = false) (input : List Char) :
    skipSpace (c :: input) = c :: input := by
  simp [skipSpace, token]

/-- A value is read behind spaces as without them. -/
theorem value?_append {spaces : List Char} (spacing : IsSpacing spaces) (depth : Nat)
    (input : List Char) : value? depth (spaces ++ input) = value? depth input := by
  cases depth <;> simp only [value?, skipSpace_append spacing]

/-- Spaces end a number, and so does a mark that does not go on with it. -/
theorem ends_append {spaces : List Char} (spacing : IsSpacing spaces) {rest : List Char}
    (ends : Number.Ends rest) : Number.Ends (spaces ++ rest) := by
  cases spaces with
  | nil => exact ends
  | cons c spaces =>
    have space : isSpace c = true := spacing c (by simp)
    simp only [isSpace, Bool.or_eq_true, beq_iff_eq] at space
    intro first head
    obtain rfl : c = first := by simpa using head
    rcases space with ((rfl | rfl) | rfl) | rfl <;> decide

section Items

variable {item : List Char → Option (α × List Char)} {text : α → List Char} {close : Char}
  {gap : List Char}

/-- Items that read back from their texts, behind spaces and in front of what ends them. -/
def ReadsBack (item : List Char → Option (α × List Char)) (text : α → List Char) (own : α) :
    Prop :=
  ∀ spaces rest, IsSpacing spaces → Number.Ends rest →
    item (spaces ++ (text own ++ rest)) = some (own, rest)

/-- What stands behind the first of some items: each other one behind a comma. -/
def listed (gap : List Char) (text : α → List Char) (items : List α) : List Char :=
  items.flatMap fun own => ',' :: (gap ++ text own)

/-- What stands behind an item ends it. -/
theorem ends_listed {behind : List Char} (ends : Number.Ends behind) (items : List α) :
    Number.Ends (listed gap text items ++ behind) := by
  cases items with
  | nil => exact ends
  | cons own items =>
    intro first head
    obtain rfl : ',' = first := by simpa [listed] using head
    decide

/-- What stands behind the first of some items has at least a comma for each other one. -/
theorem length_le_listed (items : List α) : items.length ≤ (listed gap text items).length := by
  induction items with
  | nil => exact Nat.zero_le _
  | cons own items inductionHypothesis =>
    simp only [listed, List.flatMap_cons, List.length_append, List.length_cons] at *
    omega

/-- Items between commas read back up to the closing sign. -/
theorem separated?_listed (spacing : IsSpacing gap) (closing : isSpace close = false)
    (distinct : close ≠ ',') {rest : List Char} (ends : Number.Ends (close :: rest))
    {last : List Char} (lastSpacing : IsSpacing last) {spaces : List Char}
    (spacesSpacing : IsSpacing spaces) {first : α} {items : List α}
    (reads : ∀ own ∈ first :: items, ReadsBack item text own) {bound : Nat}
    (room : items.length < bound) :
    separated? item close bound
        (spaces ++ (text first ++ (listed gap text items ++ (last ++ close :: rest)))) =
      some (first :: items, rest) := by
  induction items generalizing first bound spaces with
  | nil =>
    cases bound with
    | zero => omega
    | succ bound =>
      have behind : Number.Ends (listed gap text [] ++ (last ++ close :: rest)) :=
        ends_listed (ends_append lastSpacing ends) []
      rw [separated?, reads first (by simp) spaces _ spacesSpacing behind]
      simp [listed, skipSpace_append lastSpacing, skipSpace_cons closing]
  | cons next items inductionHypothesis =>
    cases bound with
    | zero => omega
    | succ bound =>
      have behind : Number.Ends (listed gap text (next :: items) ++ (last ++ close :: rest)) :=
        ends_listed (ends_append lastSpacing ends) _
      have fewer : items.length < bound := Nat.lt_of_succ_lt_succ room
      have later := inductionHypothesis spacing
        (fun own member => reads own (List.mem_cons_of_mem first member)) fewer
      have parted : listed gap text (next :: items) ++ (last ++ close :: rest) =
          ',' :: (gap ++ (text next ++ (listed gap text items ++ (last ++ close :: rest)))) := by
        simp [listed]
      have comma : isSpace ',' = false := by decide
      rw [separated?, reads first (by simp) spaces _ spacesSpacing behind]
      simp only [Option.bind_eq_bind, Option.bind_some, parted, skipSpace_cons comma,
        if_neg distinct.symm, ne_eq, not_true_eq_false, if_false, later]
      rfl

/-- Items between an opening and a closing sign read back. -/
theorem enclosed?_listed (spacing : IsSpacing gap) (closing : isSpace close = false)
    (distinct : close ≠ ',') {rest : List Char} (ends : Number.Ends (close :: rest))
    {last : List Char} (lastSpacing : IsSpacing last) {first : α} {items : List α}
    (reads : ∀ own ∈ first :: items, ReadsBack item text own)
    (starts : ∃ c more, text first = c :: more ∧ isSpace c = false ∧ c ≠ close) :
    enclosed? item close
        (gap ++ (text first ++ (listed gap text items ++ (last ++ close :: rest)))) =
      some (first :: items, rest) := by
  have room : items.length <
      (gap ++ (text first ++ (listed gap text items ++ (last ++ close :: rest)))).length := by
    have each : items.length ≤ (listed gap text items).length := length_le_listed items
    simp only [List.length_append, List.length_cons]
    omega
  obtain ⟨c, more, spelled, token, inside⟩ := starts
  have head : skipSpace (gap ++ (text first ++
      (listed gap text items ++ (last ++ close :: rest)))) =
        c :: (more ++ (listed gap text items ++ (last ++ close :: rest))) := by
    rw [skipSpace_append spacing, spelled, List.cons_append, skipSpace_cons token]
  rw [enclosed?, head]
  simp only [if_neg inside]
  exact separated?_listed spacing closing distinct ends lastSpacing spacing reads room

end Items

section Values

variable {layout : Layout}

/-- A value that reads back from its text in a layout, by a reader with some depth left. -/
def Reads (layout : Layout) (depth : Nat) (value : Json) : Prop :=
  ∀ indent rest, Number.Ends rest →
    value? depth (value.write layout indent ++ rest) = some (value, rest)

/-- A value that reads back does so behind spaces. -/
theorem Reads.readsBack {depth : Nat} {value : Json} (reads : Reads layout depth value)
    (indent : Nat) : ReadsBack (value? depth) (·.write layout indent) value := by
  intro spaces rest spacing ends
  rw [value?_append spacing, reads indent rest ends]

/-- What does not open an array or an object is read as a single token. -/
theorem value?_scalar {c : Char} (token : isSpace c = false) (noArray : c ≠ '[')
    (noObject : c ≠ '\x7b') (depth : Nat) (input : List Char) :
    value? depth (c :: input) = scalar? (c :: input) := by
  cases depth with
  | zero => rw [value?, skipSpace_cons token]
  | succ depth =>
    rw [value?, skipSpace_cons token]
    split
    · rename_i same
      exact absurd (List.cons.inj same).1 noArray
    · rename_i same
      exact absurd (List.cons.inj same).1 noObject
    · rfl

/-- A string reads back. -/
theorem reads_string (depth : Nat) (text : String) : Reads layout depth (.string text) := by
  intro indent rest _
  have written : (Json.string text).write layout indent ++ rest =
      '"' :: (text.toList.flatMap Quoted.escape ++ '"' :: rest) := by
    simp [write, Quoted.encode]
  rw [written, value?_scalar (by decide) (by decide) (by decide), scalar?,
    Quoted.decode?_escaped]
  simp

/-- Null reads back. -/
theorem reads_null (depth : Nat) : Reads layout depth .null := by
  intro indent rest _
  have written : Json.null.write layout indent ++ rest = 'n' :: ("ull".toList ++ rest) := by
    simp [write]
  rw [written, value?_scalar (by decide) (by decide) (by decide), scalar?, word?]
  rfl

/-- A digit is no space. -/
theorem isSpace_of_isDigit {c : Char} (digit : c.isDigit = true) : isSpace c = false := by
  simp [isSpace, Number.ne_of_isDigit digit (show ' '.isDigit = false by decide),
    Number.ne_of_isDigit digit (show '\t'.isDigit = false by decide),
    Number.ne_of_isDigit digit (show '\n'.isDigit = false by decide),
    Number.ne_of_isDigit digit (show '\r'.isDigit = false by decide)]

/-- A natural number that fits into a significand reads back. -/
theorem reads_natural (depth : Nat) {value : Nat} (fits : value < Number.limit) :
    Reads layout depth (.natural value) := by
  intro indent rest ends
  obtain ⟨c, digits, spelled, digit⟩ := Number.exists_cons_natural value
  have written : (Json.natural value).write layout indent ++ rest = c :: (digits ++ rest) := by
    simp [write, spelled]
  have number : scalar? (c :: (digits ++ rest)) = Number.decode? (c :: (digits ++ rest)) := by
    rw [scalar?]
    all_goals
      intro behind same
      exact Number.ne_of_isDigit digit (by decide) (List.cons.inj same).1
  rw [written, value?_scalar (isSpace_of_isDigit digit) (Number.ne_of_isDigit digit (by decide))
    (Number.ne_of_isDigit digit (by decide)), number, ← written]
  exact Number.decode?_natural fits ends

/-- The text of a value starts with a token that closes nothing. -/
theorem exists_cons_write (value : Json) (indent : Nat) : ∃ c more,
    value.write layout indent = c :: more ∧ isSpace c = false ∧ c ≠ ']' := by
  have numeral (value : Nat) (behind : List Char) : ∃ c more,
      Text.natural value ++ behind = c :: more ∧ isSpace c = false ∧ c ≠ ']' := by
    obtain ⟨c, digits, spelled, digit⟩ := Number.exists_cons_natural value
    exact ⟨c, digits ++ behind, by rw [spelled, List.cons_append], isSpace_of_isDigit digit,
      Number.ne_of_isDigit digit (by decide)⟩
  cases value with
  | null => exact ⟨'n', _, rfl, by decide, by decide⟩
  | bool value => cases value <;> exact ⟨_, _, rfl, by decide, by decide⟩
  | natural value => simpa [write] using numeral value []
  | decimal negative significand exponent =>
    cases negative with
    | true => exact ⟨'-', _, rfl, by decide, by decide⟩
    | false =>
      simpa [write] using numeral significand ('e' :: (Text.signedDecimal exponent).toList)
  | string text => exact ⟨'"', _, rfl, by decide, by decide⟩
  | array items => cases items <;> exact ⟨'[', _, rfl, by decide, by decide⟩
  | object members => cases members <;> exact ⟨'\x7b', _, rfl, by decide, by decide⟩

/-- The items behind the first one are listed. -/
theorem writeItems_eq (indent : Nat) (items : List Json) :
    writeItems layout indent items =
      listed (layout.lineBreak indent) (·.write layout indent) items := by
  induction items with
  | nil => rfl
  | cons item items inductionHypothesis =>
    rw [writeItems, inductionHypothesis]
    simp [listed]

/-- A member as it is written. -/
def writeMember (layout : Layout) (indent : Nat) (member : String × Json) : List Char :=
  Quoted.encode member.1.toList ++ ':' :: (layout.gap ++ member.2.write layout indent)

/-- The members behind the first one are listed. -/
theorem writeMembers_eq (indent : Nat) (members : List (String × Json)) :
    writeMembers layout indent members =
      listed (layout.lineBreak indent) (writeMember layout indent) members := by
  induction members with
  | nil => rfl
  | cons member members inductionHypothesis =>
    obtain ⟨name, value⟩ := member
    rw [writeMembers, inductionHypothesis]
    simp [listed, writeMember]

/-- An array reads back with one level more than its items. -/
theorem reads_array (blank : layout.IsBlank) {depth : Nat} {items : List Json}
    (each : ∀ item ∈ items, Reads layout depth item) : Reads layout (depth + 1) (.array items) := by
  intro indent rest _
  have opened (inner : List Char) : value? (depth + 1) ('[' :: inner) =
      (enclosed? (value? depth) ']' inner).map fun read => (.array read.1, read.2) := by
    rw [value?, skipSpace_cons (by decide)]
    rfl
  cases items with
  | nil =>
    have written : (Json.array []).write layout indent ++ rest = '[' :: ']' :: rest := rfl
    rw [written, opened, enclosed?, skipSpace_cons (by decide)]
    rfl
  | cons item items =>
    have written : (Json.array (item :: items)).write layout indent ++ rest =
        '[' :: (layout.lineBreak (indent + 1) ++ (item.write layout (indent + 1) ++
          (listed (layout.lineBreak (indent + 1)) (·.write layout (indent + 1)) items ++
            (layout.lineBreak indent ++ ']' :: rest)))) := by
      simp [write, writeItems_eq]
    have closes : Number.Ends (']' :: rest) := by
      intro c head
      obtain rfl : ']' = c := by simpa using head
      decide
    rw [written, opened, enclosed?_listed (blank.lineBreak _) (by decide) (by decide) closes
      (blank.lineBreak _) (fun own member => (each own member).readsBack (indent + 1))
      (exists_cons_write item (indent + 1))]
    rfl

/-- A member reads back if its value does. -/
theorem readsBack_member (blank : layout.IsBlank) {depth : Nat} {member : String × Json}
    (reads : Reads layout depth member.2) (indent : Nat) :
    ReadsBack (member? (value? depth)) (writeMember layout indent) member := by
  obtain ⟨name, value⟩ := member
  intro spaces rest spacing ends
  have written : writeMember layout indent (name, value) ++ rest =
      '"' :: (name.toList.flatMap Quoted.escape ++
        '"' :: ':' :: (layout.gap ++ (value.write layout indent ++ rest))) := by
    simp [writeMember, Quoted.encode]
  rw [member?, skipSpace_append spacing, written, skipSpace_cons (by decide)]
  simp only [Quoted.decode?_escaped, Option.bind_eq_bind, Option.bind_some,
    skipSpace_cons (show isSpace ':' = false by decide), value?_append blank.gap,
    reads indent rest ends, Option.pure_def, String.ofList_toList]

/-- An object reads back with one level more than its values. -/
theorem reads_object (blank : layout.IsBlank) {depth : Nat} {members : List (String × Json)}
    (each : ∀ member ∈ members, Reads layout depth member.2) :
    Reads layout (depth + 1) (.object members) := by
  intro indent rest _
  have opened (inner : List Char) : value? (depth + 1) ('\x7b' :: inner) =
      (enclosed? (member? (value? depth)) '\x7d' inner).map fun read =>
        (.object read.1, read.2) := by
    rw [value?, skipSpace_cons (by decide)]
    rfl
  cases members with
  | nil =>
    have written : (Json.object []).write layout indent ++ rest = '\x7b' :: '\x7d' :: rest := rfl
    rw [written, opened, enclosed?, skipSpace_cons (by decide)]
    rfl
  | cons member members =>
    have written : (Json.object (member :: members)).write layout indent ++ rest =
        '\x7b' :: (layout.lineBreak (indent + 1) ++ (writeMember layout (indent + 1) member ++
          (listed (layout.lineBreak (indent + 1)) (writeMember layout (indent + 1)) members ++
            (layout.lineBreak indent ++ '\x7d' :: rest)))) := by
      obtain ⟨name, value⟩ := member
      simp [write, writeMembers_eq, writeMember]
    have closes : Number.Ends ('\x7d' :: rest) := by
      intro c head
      obtain rfl : '\x7d' = c := by simpa using head
      decide
    have starts : ∃ c more, writeMember layout (indent + 1) member = c :: more ∧
        isSpace c = false ∧ c ≠ '\x7d' := ⟨'"', _, rfl, by decide, by decide⟩
    rw [written, opened, enclosed?_listed (blank.lineBreak _) (by decide) (by decide) closes
      (blank.lineBreak _) (fun own inside => readsBack_member blank (each own inside) (indent + 1))
      starts]
    rfl

/-- A value that reads back with the depth that readers start with is what its text spells. -/
theorem decode?_write {value : Json} (reads : Reads layout nesting value) :
    decode? (value.write layout 0) = some value := by
  have ends : Number.Ends [] := by simp [Number.Ends]
  have whole := reads 0 [] ends
  rw [List.append_nil] at whole
  rw [decode?, whole]
  rfl

end Values

end MapChain.Json
