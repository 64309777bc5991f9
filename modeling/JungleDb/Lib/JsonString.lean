import JungleDb.Lib.CString

/-!
# JSON string literals

The string literals of RFC 8259: between two quotation marks a sequence of characters that stand for
themselves, of two-character escapes and of `\uXXXX`, whose hexadecimal number is a UTF-16 code
unit. The types admit no other sequence, so every value of `List JsonChar` is one valid literal.
`decode` gives the UTF-8 bytes of the text; it has no value on an unpaired surrogate, which stands
for no character.
-/

namespace JsonString

open CString

/-! ## Characters -/

/-- The escapes of two characters. -/
inductive Escape
  | quotationMark
  | reverseSolidus
  | solidus
  | backspace
  | formFeed
  | lineFeed
  | carriageReturn
  | tab
  deriving DecidableEq, Repr

namespace Escape

/-- What follows the `\`. -/
def letter : Escape → UInt8
  | quotationMark => ch '"'
  | reverseSolidus => ch '\\'
  | solidus => ch '/'
  | backspace => ch 'b'
  | formFeed => ch 'f'
  | lineFeed => ch 'n'
  | carriageReturn => ch 'r'
  | tab => ch 't'

/-- The character that the escape stands for. -/
def meaning : Escape → UInt8
  | quotationMark => ch '"'
  | reverseSolidus => ch '\\'
  | solidus => ch '/'
  | backspace => 8
  | formFeed => 12
  | lineFeed => 10
  | carriageReturn => 13
  | tab => 9

end Escape

/-- The value of a hexadecimal digit. -/
def hexValue (c : UInt8) : Option Nat :=
  if 48 ≤ c && c ≤ 57 then some (c.toNat - 48)
  else if 65 ≤ c && c ≤ 70 then some (c.toNat - 55)
  else if 97 ≤ c && c ≤ 102 then some (c.toNat - 87)
  else none

/-- A hexadecimal digit of either case. -/
structure HexDigit where
  byte : UInt8
  isHex : (hexValue byte).isSome
  deriving DecidableEq

/-- The digits of `\uXXXX`. -/
structure CodeUnit where
  d₁ : HexDigit
  d₂ : HexDigit
  d₃ : HexDigit
  d₄ : HexDigit
  deriving DecidableEq

namespace CodeUnit

/-- The number that the digits write. -/
def value (u : CodeUnit) : Nat :=
  [u.d₁, u.d₂, u.d₃, u.d₄].foldl (fun n d => 16 * n + (hexValue d.byte).get d.isHex) 0

def bytes (u : CodeUnit) : Bytes := [u.d₁.byte, u.d₂.byte, u.d₃.byte, u.d₄.byte]

def isHighSurrogate (u : CodeUnit) : Bool := 0xD800 ≤ u.value && u.value < 0xDC00

def isLowSurrogate (u : CodeUnit) : Bool := 0xDC00 ≤ u.value && u.value < 0xE000

end CodeUnit

/-- A character that may stand for itself. -/
def Unescaped (c : Char) : Prop := 0x20 ≤ c.toNat ∧ c ≠ '"' ∧ c ≠ '\\'

instance (c : Char) : Decidable (Unescaped c) := inferInstanceAs (Decidable (_ ∧ _ ∧ _))

/-- One character of a literal, as it is written. -/
inductive JsonChar
  | unescaped (c : Char) (h : Unescaped c)
  | escape (e : Escape)
  | unicode (u : CodeUnit)

def JsonChar.bytes : JsonChar → Bytes
  | unescaped c _ => String.utf8EncodeChar c
  | escape e => [ch '\\', e.letter]
  | unicode u => ch '\\' :: ch 'u' :: u.bytes

/-- The bytes of a literal. -/
def encode (s : List JsonChar) : Bytes :=
  ch '"' :: (s.flatMap JsonChar.bytes ++ [ch '"'])

/-! ## Meaning -/

/-- The UTF-8 bytes of a code point. -/
def utf8 (n : Nat) : Bytes := String.utf8EncodeChar (Char.ofNat n)

/-- The code point that two surrogates stand for. -/
def surrogatePair (high low : CodeUnit) : Nat :=
  0x10000 + (high.value - 0xD800) * 0x400 + (low.value - 0xDC00)

/-- The UTF-8 bytes of the text that a literal stands for. -/
def decode : List JsonChar → Option Bytes
  | [] => some []
  | .unescaped c _ :: s => (decode s).map (String.utf8EncodeChar c ++ ·)
  | .escape e :: s => (decode s).map ([e.meaning] ++ ·)
  | .unicode u :: s =>
    if u.isLowSurrogate then none
    else if u.isHighSurrogate then
      match s with
      | .unicode v :: s =>
        if v.isLowSurrogate then (decode s).map (utf8 (surrogatePair u v) ++ ·) else none
      | _ => none
    else (decode s).map (utf8 u.value ++ ·)

/-! ## Bytes of the characters -/

theorem CodeUnit.value_lt (u : CodeUnit) : u.value < 0x10000 := by
  have digit (d : HexDigit) : (hexValue d.byte).get d.isHex < 16 := by
    obtain ⟨n, hn⟩ := Option.isSome_iff_exists.mp d.isHex
    rw [Option.get_of_eq_some _ hn]
    simp only [hexValue, Bool.and_eq_true, decide_eq_true_eq, UInt8.le_iff_toNat_le] at hn
    split at hn
    · rename_i h
      have : d.byte.toNat ≤ 57 := h.2
      cases hn
      omega
    · split at hn
      · rename_i h
        have : d.byte.toNat ≤ 70 := h.2
        cases hn
        omega
      · split at hn
        · rename_i h
          have : d.byte.toNat ≤ 102 := h.2
          cases hn
          omega
        · cases hn
  have h₁ := digit u.d₁
  have h₂ := digit u.d₂
  have h₃ := digit u.d₃
  have h₄ := digit u.d₄
  simp only [value, List.foldl_cons, List.foldl_nil]
  omega

theorem charOfNat_toNat {n : Nat} (h : n.isValidChar) : (Char.ofNat n).toNat = n := by
  rw [Char.ofNat, dif_pos h]
  rfl

theorem one_le_length_utf8 (n : Nat) : 1 ≤ (utf8 n).length := by
  rw [utf8, String.length_utf8EncodeChar]
  exact Char.utf8Size_pos _

theorem utf8_ascii {n : Nat} (h : n < 0x80) : utf8 n = [UInt8.ofNat n] := by
  have hval : (Char.ofNat n).val.toNat = n := charOfNat_toNat (Or.inl (by omega))
  rw [utf8, String.utf8EncodeChar, hval, if_pos (by omega)]

/-- A text of one byte is that of an ASCII character. -/
theorem utf8_eq_singleton {n : Nat} (hn : n.isValidChar) {c : UInt8} (h : utf8 n = [c]) :
    n = c.toNat := by
  have hval : (Char.ofNat n).val.toNat = n := charOfNat_toNat hn
  have hsize : (Char.ofNat n).utf8Size = 1 := by
    rw [← String.length_utf8EncodeChar, ← utf8, h, List.length_singleton]
  rw [Char.utf8Size_eq_one_iff, UInt32.le_iff_toNat_le, hval] at hsize
  have hlt : n ≤ 127 := hsize
  rw [utf8_ascii (by omega), List.cons.injEq] at h
  rw [← h.1, UInt8.toNat_ofNat_of_lt' (Nat.lt_of_le_of_lt hlt (by decide))]

theorem CodeUnit.isValidChar {u : CodeUnit} (hlow : u.isLowSurrogate = false)
    (hhigh : u.isHighSurrogate = false) : u.value.isValidChar := by
  have hlt := u.value_lt
  simp only [isLowSurrogate, isHighSurrogate, Bool.and_eq_false_iff, decide_eq_false_iff_not]
    at hlow hhigh
  unfold Nat.isValidChar
  omega

theorem length_utf8_surrogatePair {u v : CodeUnit} (hu : u.isHighSurrogate)
    (hv : v.isLowSurrogate) : (utf8 (surrogatePair u v)).length = 4 := by
  simp only [CodeUnit.isHighSurrogate, CodeUnit.isLowSurrogate, Bool.and_eq_true,
    decide_eq_true_eq] at hu hv
  have hbounds : 0xFFFF < surrogatePair u v ∧ surrogatePair u v < 0x110000 := by
    unfold surrogatePair
    omega
  have hval : (Char.ofNat (surrogatePair u v)).val.toNat = surrogatePair u v :=
    charOfNat_toNat (Or.inr ⟨by omega, hbounds.2⟩)
  rw [utf8, String.length_utf8EncodeChar, Char.utf8Size_eq_four_iff, UInt32.lt_iff_toNat_lt, hval]
  exact hbounds.1

/-- A byte of a character's encoding is the character itself or is not ASCII. -/
theorem mem_utf8EncodeChar {c : Char} {b : UInt8} (h : b ∈ String.utf8EncodeChar c) :
    b.toNat = c.toNat ∨ 0x80 ≤ b.toNat := by
  have high {n : Nat} (hn : 0x80 ≤ n ∧ n < 0x100) (hb : b = UInt8.ofNat n) : 0x80 ≤ b.toNat := by
    rw [hb, UInt8.toNat_ofNat_of_lt' hn.2]
    exact hn.1
  simp only [String.utf8EncodeChar] at h
  split at h
  · rename_i hle
    left
    rw [List.mem_singleton] at h
    rw [h]
    exact UInt8.toNat_ofNat_of_lt' (Nat.lt_of_le_of_lt hle (by decide))
  · right
    split at h
    · simp only [List.mem_cons, List.not_mem_nil, or_false] at h
      rcases h with h | h <;> exact high (by omega) h
    · split at h
      · simp only [List.mem_cons, List.not_mem_nil, or_false] at h
        rcases h with h | h | h <;> exact high (by omega) h
      · simp only [List.mem_cons, List.not_mem_nil, or_false] at h
        rcases h with h | h | h | h <;> exact high (by omega) h

/-- A character that stands for itself brings no quotation mark and no `\` into the literal. -/
theorem Unescaped.bytes {c : Char} (h : Unescaped c) {b : UInt8}
    (hb : b ∈ String.utf8EncodeChar c) : b ≠ ch '"' ∧ b ≠ ch '\\' := by
  have hne {d : Char} (hd : (ch d).toNat = d.toNat ∧ d.toNat < 0x80) (hcd : c ≠ d) : b ≠ ch d := by
    intro heq
    rcases mem_utf8EncodeChar hb with hbc | hbc
    · apply hcd
      apply Char.ext
      apply UInt32.toNat_inj.mp
      rw [heq] at hbc
      exact (hbc.symm.trans hd.1)
    · rw [heq, hd.1] at hbc
      omega
  exact ⟨hne (by decide) h.2.1, hne (by decide) h.2.2⟩

end JsonString
