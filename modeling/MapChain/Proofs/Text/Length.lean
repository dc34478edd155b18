import MapChain.Text.Base64
import MapChain.Text.Blank
import MapChain.Text.Split
import MapChain.Text.Utf8
import Mathlib.Tactic.SplitIfs

/-!
# Cutting and decoding never lengthen

What is cut out of a text is no longer than the text, bytes spell no more characters than
they are, and what a base64 text stands for is no longer than the text. Such a text is
plain ASCII, so it has as many bytes as characters.
-/

namespace MapChain

namespace Text

/-- Behind a prefix stands the rest of a text. -/
theorem append_of_isPrefixOf? {front text rest : List Char}
    (found : front.isPrefixOf? text = some rest) : front ++ rest = text := by
  induction front generalizing text with
  | nil =>
    obtain rfl : text = rest := Option.some.inj found
    rfl
  | cons c front inductionHypothesis =>
    cases text with
    | nil => exact absurd found (by rintro ⟨⟩)
    | cons d text =>
      have unfolded : (c :: front).isPrefixOf? (d :: text) =
          if c == d then front.isPrefixOf? text else none := rfl
      rw [unfolded] at found
      by_cases same : c == d
      · rw [if_pos same] at found
        rw [List.cons_append, inductionHypothesis found, eq_of_beq same]
      · simp [same] at found

/-- What follows the characters of a kind at the front of a text is shorter than the text
if there are any. -/
theorem length_dropWhile_lt {kept : Char → Bool} {text : List Char}
    (some : text.takeWhile kept ≠ []) : (text.dropWhile kept).length < text.length := by
  have whole := congrArg List.length (List.takeWhile_append_dropWhile (p := kept) (l := text))
  have front := List.length_pos_iff.mpr some
  rw [List.length_append] at whole
  omega

/-- Removing blanks never lengthens. -/
theorem length_trim_le (text : List Char) : (trim text).length ≤ text.length := by
  have start : (trimStart text).length ≤ text.length := (List.dropWhile_sublist _).length_le
  have last : (trim text).length ≤ (trimStart text).reverse.length := by
    rw [trim, trimEnd, List.length_reverse]
    exact (List.dropWhile_sublist _).length_le
  rw [List.length_reverse] at last
  omega

/-- Joined pieces are as long as any of them. -/
theorem length_le_join (separator : Char) (pieces : List (List Char)) (piece : List Char)
    (member : piece ∈ pieces) : piece.length ≤ (join separator pieces).length := by
  induction pieces with
  | nil => simp at member
  | cons first pieces inductionHypothesis =>
    cases pieces with
    | nil => simp_all [join]
    | cons next pieces =>
      simp only [join, List.length_append, List.length_cons]
      rcases List.mem_cons.mp member with rfl | member
      · omega
      · have later := inductionHypothesis member
        omega

/-- A piece is no longer than the text it is cut from. -/
theorem length_le_of_mem_split {separator : Char} {text piece : List Char}
    (member : piece ∈ split separator text) : piece.length ≤ text.length := by
  have joined := length_le_join separator _ piece member
  rwa [join_split] at joined

end Text

namespace Utf8

/-- Bytes spell no more characters than they are. -/
theorem length_of_decode? {bytes : List UInt8} {text : List Char}
    (spelled : decode? bytes = some text) : text.length ≤ bytes.length := by
  fun_induction decode? bytes generalizing text with
  | case1 => simp_all
  | case2 first rest c left taken inductionHypothesis =>
    obtain ⟨others, read, rfl⟩ := Option.map_eq_some_iff.mp spelled
    have shorter := step_rest_length first rest
    rw [taken, Step.rest] at shorter
    have deeper := inductionHypothesis read
    simp only [List.length_cons]
    omega
  | case3 => simp at spelled

/-- The bytes of a character from 128 on are not below 128 either. -/
theorem not_lt_of_mem_encode_char {c : Char} (beyond : 128 ≤ c.toNat) {byte : UInt8}
    (member : byte ∈ String.utf8EncodeChar c) : ¬byte < 128 := by
  have high (value : Nat) (least : 128 ≤ value) (most : value < 256) :
      ¬UInt8.ofNat value < 128 := by
    have limit : (128 : UInt8).toNat = 128 := rfl
    rw [UInt8.lt_iff_toNat_lt, UInt8.toNat_ofNat', limit]
    omega
  have several : ¬c.val.toNat ≤ 127 := by
    have value : c.val.toNat = c.toNat := rfl
    omega
  simp only [String.utf8EncodeChar, if_neg several] at member
  -- A first byte starts at 192, 224 or 240 and all others at 128.
  split_ifs at member <;> simp only [List.mem_cons, List.not_mem_nil, or_false] at member <;>
    rcases member with rfl | rfl | rfl | rfl
  all_goals exact high _ (by omega) (by omega)

/-- A character is written as one byte if all its bytes are below 128. -/
theorem length_encode_char {c : Char}
    (plain : ∀ byte ∈ String.utf8EncodeChar c, byte < 128) :
    (String.utf8EncodeChar c).length = 1 := by
  by_cases single : c.toNat < 128
  · have small : c.val.toNat ≤ 127 := Nat.le_of_lt_succ single
    rw [String.utf8EncodeChar, if_pos small, List.length_singleton]
  · have inhabited : 0 < (String.utf8EncodeChar c).length := by
      rw [String.length_utf8EncodeChar]
      exact Char.utf8Size_pos c
    obtain ⟨byte, member⟩ := List.exists_mem_of_length_pos inhabited
    exact absurd (plain byte member) (not_lt_of_mem_encode_char (Nat.le_of_not_lt single) member)

/-- A text of bytes below 128 has as many of them as characters. -/
theorem length_encode {text : List Char} (plain : ∀ byte ∈ encode text, byte < 128) :
    (encode text).length = text.length := by
  induction text with
  | nil => rfl
  | cons c text inductionHypothesis =>
    simp only [encode, List.flatMap_cons, List.mem_append] at plain
    have first := length_encode_char fun byte member => plain byte (.inl member)
    have rest := inductionHypothesis fun byte member => plain byte (.inr member)
    simp only [encode, List.flatMap_cons, List.length_append, List.length_cons] at rest ⊢
    omega

end Utf8

namespace Base64

/-- Letters are plain ASCII. -/
theorem lt_of_value? {byte : UInt8} {value : Nat} (letter : value? byte = some value) :
    byte < 128 := by
  simp only [value?, UInt8.le_iff_toNat_le] at letter
  rw [UInt8.lt_iff_toNat_lt]
  split at letter
  · rename_i range
    exact Nat.lt_of_le_of_lt range.2 (by decide)
  · split at letter
    · rename_i range
      exact Nat.lt_of_le_of_lt range.2 (by decide)
    · split at letter
      · rename_i range
        exact Nat.lt_of_le_of_lt range.2 (by decide)
      · split at letter
        · rename_i same
          subst same
          decide
        · split at letter
          · rename_i same
            subst same
            decide
          · simp at letter

/-- A last quantum is four plain characters and stands for at most three bytes. -/
theorem spec_lastQuantum? {first second third fourth : UInt8} {bytes : List UInt8}
    (read : lastQuantum? first second third fourth = some bytes) :
    bytes.length ≤ 3 ∧ first < 128 ∧ second < 128 ∧ third < 128 ∧ fourth < 128 := by
  have padding : pad < 128 := by decide
  simp only [lastQuantum?, Option.bind_eq_bind, Option.bind_eq_some_iff] at read
  obtain ⟨a, firstLetter, b, secondLetter, read⟩ := read
  suffices rest : bytes.length ≤ 3 ∧ third < 128 ∧ fourth < 128 from
    ⟨rest.1, lt_of_value? firstLetter, lt_of_value? secondLetter, rest.2⟩
  split at read
  · rename_i thirdPad
    split at read
    · rename_i fourthPad
      obtain rfl := Option.some.inj read
      exact ⟨by simp, thirdPad ▸ padding, fourthPad.1 ▸ padding⟩
    · simp at read
  · simp only [Option.bind_eq_some_iff] at read
    obtain ⟨c, thirdLetter, read⟩ := read
    split at read
    · rename_i fourthPad
      split at read
      · obtain rfl := Option.some.inj read
        exact ⟨by simp, lt_of_value? thirdLetter, fourthPad ▸ padding⟩
      · simp at read
    · simp only [Option.bind_eq_some_iff] at read
      obtain ⟨d, fourthLetter, read⟩ := read
      obtain rfl := Option.some.inj read
      exact ⟨by simp, lt_of_value? thirdLetter, lt_of_value? fourthLetter⟩

/-- A base64 text is plain ASCII, and what it stands for is no longer than it. -/
theorem spec_decode? {text bytes : List UInt8} (read : decode? text = some bytes) :
    bytes.length ≤ text.length ∧ ∀ byte ∈ text, byte < 128 := by
  fun_induction decode? text generalizing bytes with
  | case1 =>
    obtain rfl := Option.some.inj read
    simp
  | case2 first second third fourth =>
    obtain ⟨shorter, plain⟩ := spec_lastQuantum? read
    simp only [List.length_cons, List.length_nil, List.forall_mem_cons]
    exact ⟨by omega, by simpa using plain⟩
  | case3 first second third fourth rest more inductionHypothesis =>
    simp only [Option.bind_eq_bind, Option.bind_eq_some_iff, Option.pure_def] at read
    obtain ⟨front, quantum, others, later, joined⟩ := read
    obtain rfl := Option.some.inj joined
    obtain ⟨laterShorter, laterPlain⟩ := inductionHypothesis later
    simp only [quantum?] at quantum
    split at quantum
    · simp at quantum
    · obtain ⟨shorter, plain⟩ := spec_lastQuantum? quantum
      obtain ⟨one, two, three, four⟩ := plain
      simp only [List.length_append, List.length_cons, List.forall_mem_cons]
      exact ⟨by omega, one, two, three, four, laterPlain⟩
  | case4 => simp at read

end Base64

end MapChain
