/-!
# UTF-8

Characters to bytes and back. Both readers take one step at a time: a step yields the
scalar at the front, or the length of the ill-formed part there, which is the longest
part that could still begin a scalar. The strict reader refuses such a part; the
lenient one writes a single U+FFFD for it and goes on behind it.
-/

namespace MapChain.Utf8

/-- The bytes of a text. -/
def encode (text : List Char) : List UInt8 := text.flatMap String.utf8EncodeChar

/-- What a first byte promises: its own bits of the scalar, the range of the second
byte, and how many bytes follow that one. -/
structure Lead where
  bits : Nat
  low : UInt8
  high : UInt8
  more : Nat
  deriving DecidableEq, Repr

/-- The promise of a first byte of a longer scalar. The ranges exclude overlong forms,
surrogates and values above U+10FFFF. -/
def lead? (byte : UInt8) : Option Lead :=
  if 0xC2 ≤ byte ∧ byte ≤ 0xDF then some ⟨byte.toNat - 0xC0, 0x80, 0xBF, 0⟩
  else if byte = 0xE0 then some ⟨0, 0xA0, 0xBF, 1⟩
  else if byte = 0xED then some ⟨0xD, 0x80, 0x9F, 1⟩
  else if 0xE1 ≤ byte ∧ byte ≤ 0xEF then some ⟨byte.toNat - 0xE0, 0x80, 0xBF, 1⟩
  else if byte = 0xF0 then some ⟨0, 0x90, 0xBF, 2⟩
  else if 0xF1 ≤ byte ∧ byte ≤ 0xF3 then some ⟨byte.toNat - 0xF0, 0x80, 0xBF, 2⟩
  else if byte = 0xF4 then some ⟨4, 0x80, 0x8F, 2⟩
  else none

/-- One step of a reader. -/
inductive Step where
  /-- A scalar and the bytes behind it. -/
  | scalar (c : Char) (rest : List UInt8)
  /-- The bytes behind an ill-formed part. -/
  | illFormed (rest : List UInt8)
  deriving DecidableEq, Repr

/-- Reads the remaining bytes of a scalar whose bits so far are `bits`. The next byte
must lie between `low` and `high`, and `more` bytes follow it. -/
def tail (bits : Nat) (low high : UInt8) : (more : Nat) → List UInt8 → Step
  | _, [] => .illFormed []
  | 0, byte :: rest =>
    if low ≤ byte ∧ byte ≤ high then .scalar (Char.ofNat (bits * 64 + byte.toNat % 64)) rest
    else .illFormed (byte :: rest)
  | more + 1, byte :: rest =>
    if low ≤ byte ∧ byte ≤ high then tail (bits * 64 + byte.toNat % 64) 0x80 0xBF more rest
    else .illFormed (byte :: rest)

/-- Reads what stands at `first` and the bytes behind it. -/
def step (first : UInt8) (rest : List UInt8) : Step :=
  if first < 0x80 then .scalar (Char.ofNat first.toNat) rest
  else
    match lead? first with
    | some lead => tail lead.bits lead.low lead.high lead.more rest
    | none => .illFormed rest

/-- The bytes that a step leaves. -/
def Step.rest : Step → List UInt8
  | .scalar _ rest => rest
  | .illFormed rest => rest

/-- Reading the tail of a scalar never lengthens the input. -/
theorem tail_rest_length (bits : Nat) (low high : UInt8) (more : Nat) (bytes : List UInt8) :
    (tail bits low high more bytes).rest.length ≤ bytes.length := by
  induction more generalizing bits low high bytes with
  | zero =>
    cases bytes with
    | nil => simp [tail, Step.rest]
    | cons byte rest => simp only [tail]; split <;> simp [Step.rest]
  | succ more ih =>
    cases bytes with
    | nil => simp [tail, Step.rest]
    | cons byte rest =>
      simp only [tail]
      split
      · exact Nat.le_succ_of_le (ih ..)
      · simp [Step.rest]

/-- A step takes at least the first byte. -/
theorem step_rest_length (first : UInt8) (rest : List UInt8) :
    (step first rest).rest.length ≤ rest.length := by
  simp only [step]
  split
  · simp [Step.rest]
  · split
    · exact tail_rest_length ..
    · simp [Step.rest]

/-- The text that the bytes spell, if they are well formed throughout. -/
def decode? : List UInt8 → Option (List Char)
  | [] => some []
  | first :: rest =>
    match _taken : step first rest with
    | .scalar c rest' => (decode? rest').map (c :: ·)
    | .illFormed _ => none
termination_by bytes => bytes.length
decreasing_by
  have shorter := step_rest_length first rest
  rw [_taken] at shorter
  exact Nat.lt_succ_of_le shorter

/-- The text that the bytes spell, with U+FFFD for each ill-formed part. -/
def decodeLossy : List UInt8 → List Char
  | [] => []
  | first :: rest =>
    match _taken : step first rest with
    | .scalar c rest' => c :: decodeLossy rest'
    | .illFormed rest' => '\uFFFD' :: decodeLossy rest'
termination_by bytes => bytes.length
decreasing_by
  all_goals
    have shorter := step_rest_length first rest
    rw [_taken] at shorter
    exact Nat.lt_succ_of_le shorter

end MapChain.Utf8
