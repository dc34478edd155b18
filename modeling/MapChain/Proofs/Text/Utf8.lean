import MapChain.Text.Utf8
import Mathlib.Tactic.SplitIfs

/-!
# Reading written characters

The bytes of a character are one step of a reader, which gives the character back. So both
readers undo writing: the strict one refuses no written text, and the lenient one replaces
nothing in it.

A character of several bytes leads with its high bits and goes on with six bits a byte. The
first byte names how many follow and narrows the range of the second, and these ranges hold
what characters of that length have there.
-/

namespace MapChain.Utf8

/-- A byte behind the first one holds six bits of the character. -/
theorem toNat_continuation (value : Nat) :
    (UInt8.ofNat (value % 64 + 128)).toNat = value % 64 + 128 := by
  rw [UInt8.toNat_ofNat']
  omega

/-- A byte behind the first one lies in a range that holds its value. -/
theorem continuation_within {value : Nat} {low high : UInt8}
    (least : low.toNat ≤ value % 64 + 128) (most : value % 64 + 128 ≤ high.toNat) :
    low ≤ UInt8.ofNat (value % 64 + 128) ∧ UInt8.ofNat (value % 64 + 128) ≤ high := by
  simp only [UInt8.le_iff_toNat_le, toNat_continuation]
  exact ⟨least, most⟩

/-- Reading the last byte of a character. -/
theorem tail_last {bits value : Nat} {low high : UInt8} (rest : List UInt8)
    (least : low.toNat ≤ value % 64 + 128) (most : value % 64 + 128 ≤ high.toNat) :
    tail bits low high 0 (UInt8.ofNat (value % 64 + 128) :: rest) =
      .scalar (Char.ofNat (bits * 64 + value % 64)) rest := by
  have six : (value % 64 + 128) % 64 = value % 64 := by omega
  rw [tail, if_pos (continuation_within least most), toNat_continuation, six]

/-- Reading a byte of a character that is neither the first nor the last. -/
theorem tail_next {bits value more : Nat} {low high : UInt8} (rest : List UInt8)
    (least : low.toNat ≤ value % 64 + 128) (most : value % 64 + 128 ≤ high.toNat) :
    tail bits low high (more + 1) (UInt8.ofNat (value % 64 + 128) :: rest) =
      tail (bits * 64 + value % 64) 0x80 0xBF more rest := by
  have six : (value % 64 + 128) % 64 = value % 64 := by omega
  rw [tail, if_pos (continuation_within least most), toNat_continuation, six]

/-- What a first byte promises, by the byte's value. -/
theorem lead?_eq (byte : UInt8) : lead? byte =
    if 0xC2 ≤ byte.toNat ∧ byte.toNat ≤ 0xDF then some ⟨byte.toNat - 0xC0, 0x80, 0xBF, 0⟩
    else if byte.toNat = 0xE0 then some ⟨0, 0xA0, 0xBF, 1⟩
    else if byte.toNat = 0xED then some ⟨0xD, 0x80, 0x9F, 1⟩
    else if 0xE1 ≤ byte.toNat ∧ byte.toNat ≤ 0xEF then some ⟨byte.toNat - 0xE0, 0x80, 0xBF, 1⟩
    else if byte.toNat = 0xF0 then some ⟨0, 0x90, 0xBF, 2⟩
    else if 0xF1 ≤ byte.toNat ∧ byte.toNat ≤ 0xF3 then some ⟨byte.toNat - 0xF0, 0x80, 0xBF, 2⟩
    else if byte.toNat = 0xF4 then some ⟨4, 0x80, 0x8F, 2⟩
    else none := by
  simp only [lead?, UInt8.le_iff_toNat_le, ← UInt8.toNat_inj]
  rfl

/-- A first byte that promises something is read with its promise. -/
theorem step_of_lead? {first low high : UInt8} {bits more : Nat} (rest : List UInt8)
    (promises : lead? first = some ⟨bits, low, high, more⟩) :
    step first rest = tail bits low high more rest := by
  have long : ¬first < 0x80 := by
    rw [UInt8.lt_iff_toNat_lt]
    intro short
    have small : first.toNat < 128 := short
    rw [lead?_eq] at promises
    split_ifs at promises <;> omega
  rw [step, if_neg long, promises]

/-- A first byte with the five high bits of a character of two bytes. -/
theorem lead?_two (bits : Nat) (least : 2 ≤ bits) (most : bits < 32) :
    lead? (UInt8.ofNat (bits + 192)) = some ⟨bits, 0x80, 0xBF, 0⟩ := by
  have value : (UInt8.ofNat (bits + 192)).toNat = bits + 192 := by
    rw [UInt8.toNat_ofNat']
    omega
  rw [lead?_eq, value, if_pos (by omega), Nat.add_sub_cancel]

/-- A first byte with the four high bits of a character of three bytes, whose second byte
holds the bits `next`. Overlong forms and surrogates lie outside of the promised range. -/
theorem lead?_three (bits next : Nat) (least : 32 ≤ bits * 64 + next) (most : bits < 16)
    (six : next < 64) (scalar : bits ≠ 13 ∨ next < 32) : ∃ low high,
      lead? (UInt8.ofNat (bits + 224)) = some ⟨bits, low, high, 1⟩ ∧
        low.toNat ≤ next + 128 ∧ next + 128 ≤ high.toNat := by
  have value : (UInt8.ofNat (bits + 224)).toNat = bits + 224 := by
    rw [UInt8.toNat_ofNat']
    omega
  rw [lead?_eq, value]
  split_ifs
  · omega
  · exact ⟨0xA0, 0xBF, by simp; omega, by simp; omega, by simp; omega⟩
  · exact ⟨0x80, 0x9F, by simp; omega, by simp, by simp; omega⟩
  · exact ⟨0x80, 0xBF, by simp, by simp, by simp; omega⟩
  all_goals omega

/-- A first byte with the three high bits of a character of four bytes, whose second byte
holds the bits `next`. Overlong forms and what is no character lie outside of the promised
range. -/
theorem lead?_four (bits next : Nat) (least : 16 ≤ bits * 64 + next)
    (most : bits * 64 + next < 272) (six : next < 64) : ∃ low high,
      lead? (UInt8.ofNat (bits + 240)) = some ⟨bits, low, high, 2⟩ ∧
        low.toNat ≤ next + 128 ∧ next + 128 ≤ high.toNat := by
  have value : (UInt8.ofNat (bits + 240)).toNat = bits + 240 := by
    rw [UInt8.toNat_ofNat']
    omega
  rw [lead?_eq, value]
  split_ifs
  any_goals omega
  · exact ⟨0x90, 0xBF, by simp; omega, by simp; omega, by simp; omega⟩
  · exact ⟨0x80, 0xBF, by simp, by simp, by simp; omega⟩
  · exact ⟨0x80, 0x8F, by simp; omega, by simp, by simp; omega⟩

/-- The bytes of a character are one step. -/
theorem step_encode_char (c : Char) : ∃ first more, String.utf8EncodeChar c = first :: more ∧
    ∀ rest, step first (more ++ rest) = .scalar c rest := by
  have valid : c.val.toNat < 0xD800 ∨ 0xDFFF < c.val.toNat ∧ c.val.toNat < 0x110000 := c.valid
  have low : (0x80 : UInt8).toNat = 128 := rfl
  have high : (0xBF : UInt8).toNat = 191 := rfl
  have back {value : Nat} (same : value = c.val.toNat) : Char.ofNat value = c :=
    same ▸ Char.ofNat_toNat c
  simp only [String.utf8EncodeChar]
  generalize c.val.toNat = value at valid back ⊢
  split_ifs with one two three
  · refine ⟨_, [], rfl, ?_⟩
    intro rest
    have same : (UInt8.ofNat value).toNat = value := by
      rw [UInt8.toNat_ofNat']
      omega
    have short : UInt8.ofNat value < 0x80 := by
      rw [UInt8.lt_iff_toNat_lt, same, low]
      omega
    rw [step, if_pos short, same, back rfl, List.nil_append]
  · refine ⟨_, _, rfl, ?_⟩
    intro rest
    have bits : value / 64 % 32 = value / 64 := by omega
    have promises := lead?_two (value / 64) (by omega) (by omega)
    rw [bits, step_of_lead? _ promises, List.singleton_append,
      tail_last rest (by omega) (by omega), back (by omega)]
  · refine ⟨_, _, rfl, ?_⟩
    intro rest
    have bits : value / 4096 % 16 = value / 4096 := by omega
    obtain ⟨low, high, promises, least, most⟩ :=
      lead?_three (value / 4096) (value / 64 % 64) (by omega) (by omega) (by omega) (by omega)
    rw [bits, step_of_lead? _ promises, List.cons_append, List.singleton_append,
      tail_next _ least most, tail_last rest (by omega) (by omega), back (by omega)]
  · refine ⟨_, _, rfl, ?_⟩
    intro rest
    have bits : value / 262144 % 8 = value / 262144 := by omega
    obtain ⟨low, high, promises, least, most⟩ :=
      lead?_four (value / 262144) (value / 4096 % 64) (by omega) (by omega) (by omega)
    rw [bits, step_of_lead? _ promises, List.cons_append, List.cons_append,
      List.singleton_append, tail_next _ least most, tail_next _ (by omega) (by omega),
      tail_last rest (by omega) (by omega), back (by omega)]

/-- A written text reads back. -/
theorem decode?_encode (text : List Char) : decode? (encode text) = some text := by
  induction text with
  | nil => simp [encode, decode?]
  | cons c text inductionHypothesis =>
    obtain ⟨first, more, spelled, taken⟩ := step_encode_char c
    have parted : encode (c :: text) = first :: (more ++ encode text) := by
      simp [encode, spelled]
    rw [parted, decode?]
    split
    · rename_i stepped
      rw [taken] at stepped
      obtain ⟨rfl, rfl⟩ := Step.scalar.inj stepped
      rw [inductionHypothesis]
      rfl
    · rename_i stepped
      rw [taken] at stepped
      simp at stepped

/-- The lenient reader replaces nothing in a written text. -/
theorem decodeLossy_encode (text : List Char) : decodeLossy (encode text) = text := by
  induction text with
  | nil => simp [encode, decodeLossy]
  | cons c text inductionHypothesis =>
    obtain ⟨first, more, spelled, taken⟩ := step_encode_char c
    have parted : encode (c :: text) = first :: (more ++ encode text) := by
      simp [encode, spelled]
    rw [parted, decodeLossy]
    split
    · rename_i stepped
      rw [taken] at stepped
      obtain ⟨rfl, rfl⟩ := Step.scalar.inj stepped
      rw [inductionHypothesis]
    · rename_i stepped
      rw [taken] at stepped
      simp at stepped

end MapChain.Utf8
