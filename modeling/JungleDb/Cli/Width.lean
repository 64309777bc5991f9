import JungleDb.Lib.Stdio
import JungleDb.Lib.Utf8

/-!
# The display width of a string

`utils_display_width` of `utils.c` walks a string code point by code point and adds up the cells that
they take on a terminal. A pointer is given by the bytes from it to the end of its object; a read
behind them gives none. An `int` wraps around. The walk makes the cuts of the text in front of the
terminator, each well-formed sequence a turn and each other byte a turn, so the width adds up over
parts between which no sequence can lie.
-/

namespace JungleDb

open CString Stdio Utf8

/-! ## The code points of a string -/

/-- `head && (text[1] & 0xC0U) == 0x80U && ...`, with so many bytes behind the first. -/
def continues (text : Bytes) (head : Bool) : Nat → Option Bool
  | 0 => some head
  | n + 1 => do
    if ← continues text head n then
      let b ← text[n + 1]?
      some (b &&& 0xC0 == 0x80)
    else some false

/-- `utils_utf8_decode`: what is consumed and the code point; the inner none is FAILURE. -/
def utilsUtf8Decode (text : Bytes) : Option (Option (Nat × UInt32)) := do
  let first ← text[0]?
  if first = 0 then
    return some (0, 0)
  if first < 0x80 then
    return some (1, first.toUInt32)
  if ← continues text (0xC2 ≤ first && first ≤ 0xDF) 1 then
    let second ← text[1]?
    return some (2, (first.toUInt32 &&& 0x1F) <<< 6 ||| (second.toUInt32 &&& 0x3F))
  if ← continues text (0xE0 ≤ first && first ≤ 0xEF) 2 then
    let second ← text[1]?
    let third ← text[2]?
    if (first = 0xE0 ∧ second < 0xA0) ∨ (first = 0xED ∧ 0xA0 ≤ second) then
      return none
    return some (3, (first.toUInt32 &&& 0x0F) <<< 12 ||| (second.toUInt32 &&& 0x3F) <<< 6 |||
      (third.toUInt32 &&& 0x3F))
  if ← continues text (0xF0 ≤ first && first ≤ 0xF4) 3 then
    let second ← text[1]?
    let third ← text[2]?
    let fourth ← text[3]?
    if (first = 0xF0 ∧ second < 0x90) ∨ (first = 0xF4 ∧ 0x90 ≤ second) then
      return none
    return some (4, (first.toUInt32 &&& 0x07) <<< 18 ||| (second.toUInt32 &&& 0x3F) <<< 12 |||
      (third.toUInt32 &&& 0x3F) <<< 6 ||| (fourth.toUInt32 &&& 0x3F))
  return none

/-- `utils_is_zero_width_codepoint`. -/
def utilsIsZeroWidthCodepoint (codepoint : UInt32) : Bool :=
  (0x0300 ≤ codepoint && codepoint ≤ 0x036F) ||
  (0x1AB0 ≤ codepoint && codepoint ≤ 0x1AFF) ||
  (0x1DC0 ≤ codepoint && codepoint ≤ 0x1DFF) ||
  (0x20D0 ≤ codepoint && codepoint ≤ 0x20FF) ||
  (0xFE20 ≤ codepoint && codepoint ≤ 0xFE2F)

/-- `utils_is_wide_codepoint`. -/
def utilsIsWideCodepoint (codepoint : UInt32) : Bool :=
  codepoint == 0x2329 || codepoint == 0x232A ||
  (0x1100 ≤ codepoint &&
    (codepoint ≤ 0x115F ||
      codepoint == 0x303F ||
      (0x2E80 ≤ codepoint && codepoint ≤ 0xA4CF) ||
      (0xAC00 ≤ codepoint && codepoint ≤ 0xD7A3) ||
      (0xF900 ≤ codepoint && codepoint ≤ 0xFAFF) ||
      (0xFE10 ≤ codepoint && codepoint ≤ 0xFE19) ||
      (0xFE30 ≤ codepoint && codepoint ≤ 0xFE6F) ||
      (0xFF00 ≤ codepoint && codepoint ≤ 0xFF60) ||
      (0xFFE0 ≤ codepoint && codepoint ≤ 0xFFE6) ||
      (0x1F300 ≤ codepoint && codepoint ≤ 0x1FAFF) ||
      (0x20000 ≤ codepoint && codepoint ≤ 0x3FFFD)))

/-! ## The loop -/

/-- The value of an `int` expression. -/
def wrap (n : Int) : Int := Int.bmod n (2 ^ 32)

/-- What a code point adds to `width`. -/
def codepointWidth (codepoint : UInt32) : Nat :=
  if codepoint = 9 then 4
  else if codepoint < 0x20 ∨ (0x7F ≤ codepoint ∧ codepoint < 0xA0) then 0
  else if utilsIsZeroWidthCodepoint codepoint then 0
  else if utilsIsWideCodepoint codepoint then 2
  else 1

theorem codepointWidth_le (codepoint : UInt32) : codepointWidth codepoint ≤ 4 := by
  unfold codepointWidth
  repeat' split
  all_goals decide

/-- What a turn of the loop consumes, and its code point; the inner none at the terminator. -/
def displayTurn (cursor : Bytes) : Option (Option (Nat × UInt32)) := do
  let first ← cursor[0]?
  if first = 0 then
    return none
  match ← utilsUtf8Decode cursor with
  -- the byte itself is counted for what does not decode
  | none => return some (1, first.toUInt32)
  | some (consumed, codepoint) =>
    if consumed = 0 then
      return some (1, first.toUInt32)
    return some (consumed, codepoint)

theorem lt_of_displayTurn {cursor : Bytes} {consumed : Nat} {codepoint : UInt32}
    (h : displayTurn cursor = some (some (consumed, codepoint))) :
    (cursor.drop consumed).length < cursor.length := by
  cases cursor with
  | nil => cases h
  | cons first cursor =>
    have hpos : 0 < consumed := by
      simp only [displayTurn, List.getElem?_cons_zero, Option.bind_eq_bind, Option.bind_some,
        Option.pure_def] at h
      split at h
      · cases h
      obtain ⟨found, -, h⟩ := Option.bind_eq_some_iff.mp h
      split at h
      · cases h
        exact Nat.zero_lt_one
      split at h
      · cases h
        exact Nat.zero_lt_one
      · cases h
        exact Nat.pos_of_ne_zero ‹_›
    rw [List.length_drop, List.length_cons]
    omega

/-- `while (*cursor != '\0')`, from a cursor and a width. -/
def displayLoop (cursor : Bytes) (width : Int) : Option Int :=
  match _hturn : displayTurn cursor with
  | none => none
  | some none => some width
  | some (some (consumed, codepoint)) =>
    displayLoop (cursor.drop consumed) (wrap (width + codepointWidth codepoint))
termination_by cursor.length
decreasing_by exact lt_of_displayTurn _hturn

/-- The turns of the loop. -/
def displaySteps (cursor : Bytes) : Option (List (Nat × UInt32)) :=
  match _hturn : displayTurn cursor with
  | none => none
  | some none => some []
  | some (some step) => (displaySteps (cursor.drop step.1)).map (step :: ·)
termination_by cursor.length
decreasing_by exact lt_of_displayTurn _hturn

/-- `utils_display_width` of a pointer, where none is NULL. -/
def utilsDisplayWidth : Option Bytes → Option Int
  | none => some 0
  | some text => displayLoop text 0

/-! ## The bits of a code point -/

/-- So many low bits of a byte, moved to their place. -/
theorem toNat_bits (b : UInt8) (count place : Nat) (hcount : count ≤ 6) (hplace : place ≤ 18) :
    ((b.toUInt32 &&& UInt32.ofNat (2 ^ count - 1)) <<< UInt32.ofNat place).toNat =
      b.toNat % 2 ^ count * 2 ^ place := by
  have hcountPow : 2 ^ count ≤ 2 ^ 6 := Nat.pow_le_pow_right (by decide) hcount
  have hplacePow : 2 ^ place ≤ 2 ^ 18 := Nat.pow_le_pow_right (by decide) hplace
  have hmask : (UInt32.ofNat (2 ^ count - 1)).toNat = 2 ^ count - 1 :=
    UInt32.toNat_ofNat_of_lt' (by change 2 ^ count - 1 < 2 ^ 32; omega)
  have hshift : (UInt32.ofNat place).toNat = place :=
    UInt32.toNat_ofNat_of_lt' (by change place < 2 ^ 32; omega)
  have hbits : b.toNat % 2 ^ count < 2 ^ 6 :=
    Nat.lt_of_lt_of_le (Nat.mod_lt _ (Nat.two_pow_pos count)) hcountPow
  have hfits : b.toNat % 2 ^ count * 2 ^ place < 2 ^ 32 :=
    calc b.toNat % 2 ^ count * 2 ^ place
      _ ≤ 2 ^ 6 * 2 ^ 18 := Nat.mul_le_mul (Nat.le_of_lt hbits) hplacePow
      _ < 2 ^ 32 := by decide
  rw [UInt32.toNat_shiftLeft, UInt32.toNat_and, UInt8.toNat_toUInt32, hmask,
    Nat.and_two_pow_sub_one_eq_mod, hshift, Nat.mod_eq_of_lt (by omega : place < 32),
    Nat.shiftLeft_eq, Nat.mod_eq_of_lt hfits]

theorem toNat_lowBits (b : UInt8) : (b.toUInt32 &&& 0x3F).toNat = b.toNat % 64 := by
  have hbits : ((b.toUInt32 &&& 0x3F) <<< 0).toNat = b.toNat % 2 ^ 6 * 2 ^ 0 :=
    toNat_bits b 6 0 (by decide) (by decide)
  rwa [UInt32.shiftLeft_zero, Nat.pow_zero, Nat.mul_one] at hbits

/-- Bits in front of free places, and what is put there. -/
theorem toNat_or {high low : UInt32} {n places : Nat} (hhigh : high.toNat = n * 2 ^ places)
    (hlow : low.toNat < 2 ^ places) : (high ||| low).toNat = n * 2 ^ places + low.toNat := by
  rw [UInt32.toNat_or, hhigh, ← Nat.shiftLeft_eq, ← Nat.shiftLeft_add_eq_or_of_lt hlow]

theorem toNat_two (a b : UInt8) :
    ((a.toUInt32 &&& 0x1F) <<< 6 ||| (b.toUInt32 &&& 0x3F)).toNat = value [a, b] := by
  have ha : ((a.toUInt32 &&& 0x1F) <<< 6).toNat = a.toNat % 32 * 2 ^ 6 :=
    toNat_bits a 5 6 (by decide) (by decide)
  have hb := toNat_lowBits b
  rw [toNat_or ha (by omega), hb]
  rfl

theorem toNat_three (a b c : UInt8) :
    ((a.toUInt32 &&& 0x0F) <<< 12 ||| (b.toUInt32 &&& 0x3F) <<< 6 |||
      (c.toUInt32 &&& 0x3F)).toNat = value [a, b, c] := by
  have ha : ((a.toUInt32 &&& 0x0F) <<< 12).toNat = a.toNat % 16 * 2 ^ 12 :=
    toNat_bits a 4 12 (by decide) (by decide)
  have hb : ((b.toUInt32 &&& 0x3F) <<< 6).toNat = b.toNat % 64 * 2 ^ 6 :=
    toNat_bits b 6 6 (by decide) (by decide)
  have hc := toNat_lowBits c
  have hab : ((a.toUInt32 &&& 0x0F) <<< 12 ||| (b.toUInt32 &&& 0x3F) <<< 6).toNat =
      (a.toNat % 16 * 64 + b.toNat % 64) * 2 ^ 6 := by
    rw [toNat_or ha (by omega), hb]
    omega
  rw [toNat_or hab (by omega), hc, value]
  omega

theorem toNat_four (a b c d : UInt8) :
    ((a.toUInt32 &&& 0x07) <<< 18 ||| (b.toUInt32 &&& 0x3F) <<< 12 |||
      (c.toUInt32 &&& 0x3F) <<< 6 ||| (d.toUInt32 &&& 0x3F)).toNat = value [a, b, c, d] := by
  have ha : ((a.toUInt32 &&& 0x07) <<< 18).toNat = a.toNat % 8 * 2 ^ 18 :=
    toNat_bits a 3 18 (by decide) (by decide)
  have hb : ((b.toUInt32 &&& 0x3F) <<< 12).toNat = b.toNat % 64 * 2 ^ 12 :=
    toNat_bits b 6 12 (by decide) (by decide)
  have hc : ((c.toUInt32 &&& 0x3F) <<< 6).toNat = c.toNat % 64 * 2 ^ 6 :=
    toNat_bits c 6 6 (by decide) (by decide)
  have hd := toNat_lowBits d
  have hab : ((a.toUInt32 &&& 0x07) <<< 18 ||| (b.toUInt32 &&& 0x3F) <<< 12).toNat =
      (a.toNat % 8 * 64 + b.toNat % 64) * 2 ^ 12 := by
    rw [toNat_or ha (by omega), hb]
    omega
  have habc : ((a.toUInt32 &&& 0x07) <<< 18 ||| (b.toUInt32 &&& 0x3F) <<< 12 |||
      (c.toUInt32 &&& 0x3F) <<< 6).toNat =
        (a.toNat % 8 * 4096 + b.toNat % 64 * 64 + c.toNat % 64) * 2 ^ 6 := by
    rw [toNat_or hab (by omega), hc]
    omega
  rw [toNat_or habc (by omega), hd, value]
  omega

/-! ## The decoder finds the well-formed sequences -/

theorem trails_iff (b : UInt8) : (b &&& 0xC0 == 0x80) = true ↔ Trails b := by
  have hall : ∀ n < 256, (UInt8.ofNat n &&& 0xC0 == 0x80) = true ↔
      0x80 ≤ UInt8.ofNat n ∧ UInt8.ofNat n ≤ 0xBF := by
    decide +kernel
  have hb := hall b.toNat b.toNat_lt
  rwa [UInt8.ofNat_toNat] at hb

theorem not_trails_zero : ¬ Trails 0 := not_trails_of_le UInt8.zero_le

/-- So many trailing bytes begin the text. -/
def Trailing (text : Bytes) (n : Nat) : Prop :=
  ∃ tail, tail <+: text ∧ tail.length = n ∧ ∀ x ∈ tail, Trails x

theorem Trailing.of_succ {text : Bytes} {n : Nat} (h : Trailing text (n + 1)) : Trailing text n := by
  obtain ⟨tail, htext, hlength, hall⟩ := h
  refine ⟨tail.take n, (List.take_prefix n tail).trans htext, ?_, ?_⟩
  · rw [List.length_take, hlength]
    exact Nat.min_eq_left (Nat.le_succ n)
  · exact fun x hx => hall x (List.mem_of_mem_take hx)

/-- The conditions are read up to the terminator at most. -/
theorem continues_spec {text : Bytes} (hzero : 0 ∈ text) (first : UInt8) (head : Bool) (n : Nat) :
    ∃ r, continues (first :: text) head n = some r ∧
      (r = true ↔ head = true ∧ Trailing text n) := by
  induction n with
  | zero =>
    have hnone : Trailing text 0 := ⟨[], List.nil_prefix, rfl, List.forall_mem_nil _⟩
    exact ⟨head, rfl, (and_iff_left hnone).symm⟩
  | succ n ih =>
    obtain ⟨r, hr, hiff⟩ := ih
    rw [continues, hr]
    cases r with
    | false =>
      refine ⟨false, rfl, iff_of_false Bool.false_ne_true ?_⟩
      rintro ⟨hhead, htrailing⟩
      exact Bool.false_ne_true (hiff.mpr ⟨hhead, htrailing.of_succ⟩)
    | true =>
      obtain ⟨hhead, tail, ⟨more, rfl⟩, rfl, htail⟩ := hiff.mp rfl
      cases more with
      | nil =>
        rw [List.append_nil] at hzero
        exact absurd (htail 0 hzero) not_trails_zero
      | cons x more =>
        have hget : (first :: (tail ++ x :: more))[tail.length + 1]? = some x := by
          rw [List.getElem?_cons_succ, List.getElem?_append_right (Nat.le_refl _), Nat.sub_self]
          rfl
        refine ⟨x &&& 0xC0 == 0x80, ?_, ?_⟩
        · simp only [hget, Option.bind_eq_bind, Option.bind_some, if_true]
        rw [trails_iff, and_iff_right hhead]
        constructor
        · intro hx
          refine ⟨tail ++ [x], ?_, List.length_append, ?_⟩
          · exact (List.prefix_append_right_inj tail).mpr (List.prefix_append [x] more)
          · exact List.forall_mem_append.mpr ⟨htail, List.forall_mem_singleton.mpr hx⟩
        · rintro ⟨longer, hlonger, hlength, hall⟩
          have heq : longer = tail ++ [x] := by
            have hsame : (tail ++ [x]).length = tail.length + 1 := List.length_append
            rw [List.prefix_iff_eq_take.mp hlonger, hlength, List.append_cons, ← hsame,
              List.take_left]
          exact hall x (heq ▸ List.mem_append_right tail List.mem_cons_self)

/-- The decoder finds the sequence that begins the text, and fails where there is none. -/
def Decoded (text : Bytes) : Prop :=
  (∃ c, encode c <+: text ∧ utilsUtf8Decode text = some (some ((encode c).length, c.val))) ∨
    (∀ seq, seq <+: text → ¬ Utf8.WellFormed seq) ∧ utilsUtf8Decode text = some none

theorem decoded_of_shape {seq rest : Bytes} {codepoint : UInt32} (hshape : Shape seq)
    (hvalue : codepoint.toNat = value seq)
    (hdecode : utilsUtf8Decode (seq ++ rest) = some (some (seq.length, codepoint))) :
    Decoded (seq ++ rest) := by
  obtain ⟨c, rfl, hc⟩ := hshape.exists_encode
  have hval : codepoint = c.val := UInt32.toNat_inj.mp (hvalue.trans hc.symm)
  rw [hval] at hdecode
  exact .inl ⟨c, List.prefix_append _ _, hdecode⟩

/-- No well-formed sequence of any length begins the text. -/
theorem not_wellFormed_of {b : UInt8} {text : Bytes} (hone : ¬ b ≤ 0x7F)
    (htwo : 0xC2 ≤ b ∧ b ≤ 0xDF → ¬ Trailing text 1)
    (hthree : 0xE0 ≤ b ∧ b ≤ 0xEF → Trailing text 2 →
      ∀ c, text[0]? = some c → ¬ ((b = 0xE0 → 0xA0 ≤ c) ∧ (b = 0xED → c ≤ 0x9F)))
    (hfour : 0xF0 ≤ b ∧ b ≤ 0xF4 → Trailing text 3 →
      ∀ c, text[0]? = some c → ¬ ((b = 0xF0 → 0x90 ≤ c) ∧ (b = 0xF4 → c ≤ 0x8F)))
    (seq : Bytes) (hseq : seq <+: b :: text) : ¬ Utf8.WellFormed seq := by
  intro hwell
  have hshape := shape_of_wellFormed hwell
  cases hshape with
  | one ha =>
    obtain ⟨rfl, _⟩ := List.cons_prefix_cons.mp hseq
    exact hone ha.2
  | two ha hc =>
    obtain ⟨rfl, htail⟩ := List.cons_prefix_cons.mp hseq
    exact htwo ha ⟨_, htail, rfl, hwell.trails⟩
  | @three a c d ha hc hd hE0 hED =>
    obtain ⟨rfl, rest, rfl⟩ := List.cons_prefix_cons.mp hseq
    have htrailing : Trailing ([c, d] ++ rest) 2 := ⟨_, List.prefix_append _ _, rfl, hwell.trails⟩
    exact hthree ha htrailing c rfl ⟨hE0, hED⟩
  | @four a c d e ha hc hd he hF0 hF4 =>
    obtain ⟨rfl, rest, rfl⟩ := List.cons_prefix_cons.mp hseq
    have htrailing : Trailing ([c, d, e] ++ rest) 3 :=
      ⟨_, List.prefix_append _ _, rfl, hwell.trails⟩
    exact hfour ha htrailing c rfl ⟨hF0, hF4⟩

theorem decoded_three {b c d : UInt8} {rest : Bytes} (hb : 0xE0 ≤ b ∧ b ≤ 0xEF) (hc : Trails c)
    (hd : Trails d)
    (hdecode : utilsUtf8Decode ([b, c, d] ++ rest) =
      if (b = 0xE0 ∧ c < 0xA0) ∨ (b = 0xED ∧ 0xA0 ≤ c) then some none
      else some (some (3, (b.toUInt32 &&& 0x0F) <<< 12 ||| (c.toUInt32 &&& 0x3F) <<< 6 |||
        (d.toUInt32 &&& 0x3F)))) : Decoded ([b, c, d] ++ rest) := by
  by_cases hrefused : (b = 0xE0 ∧ c < 0xA0) ∨ (b = 0xED ∧ 0xA0 ≤ c)
  · rw [if_pos hrefused] at hdecode
    refine .inr ⟨not_wellFormed_of ?_ ?_ ?_ ?_, hdecode⟩
    · grind
    · grind
    · rintro - - _ ⟨⟩
      grind
    · grind
  · rw [if_neg hrefused] at hdecode
    have hE0 : b = 0xE0 → 0xA0 ≤ c := by grind
    have hED : b = 0xED → c ≤ 0x9F := by grind
    exact decoded_of_shape (.three hb hc hd hE0 hED) (toNat_three b c d) hdecode

theorem decoded_four {b c d e : UInt8} {rest : Bytes} (hb : 0xF0 ≤ b ∧ b ≤ 0xF4) (hc : Trails c)
    (hd : Trails d) (he : Trails e)
    (hdecode : utilsUtf8Decode ([b, c, d, e] ++ rest) =
      if (b = 0xF0 ∧ c < 0x90) ∨ (b = 0xF4 ∧ 0x90 ≤ c) then some none
      else some (some (4, (b.toUInt32 &&& 0x07) <<< 18 ||| (c.toUInt32 &&& 0x3F) <<< 12 |||
        (d.toUInt32 &&& 0x3F) <<< 6 ||| (e.toUInt32 &&& 0x3F)))) :
    Decoded ([b, c, d, e] ++ rest) := by
  by_cases hrefused : (b = 0xF0 ∧ c < 0x90) ∨ (b = 0xF4 ∧ 0x90 ≤ c)
  · rw [if_pos hrefused] at hdecode
    refine .inr ⟨not_wellFormed_of ?_ ?_ ?_ ?_, hdecode⟩
    · grind
    · grind
    · grind
    · rintro - - _ ⟨⟩
      grind
  · rw [if_neg hrefused] at hdecode
    have hF0 : b = 0xF0 → 0x90 ≤ c := by grind
    have hF4 : b = 0xF4 → c ≤ 0x8F := by grind
    exact decoded_of_shape (.four hb hc hd he hF0 hF4) (toNat_four b c d e) hdecode

theorem utilsUtf8Decode_decoded {b : UInt8} {text : Bytes} (hb : b ≠ 0) (hzero : 0 ∈ text) :
    Decoded (b :: text) := by
  obtain ⟨two, htwo, htwoIff⟩ := continues_spec hzero b (0xC2 ≤ b && b ≤ 0xDF) 1
  obtain ⟨three, hthree, hthreeIff⟩ := continues_spec hzero b (0xE0 ≤ b && b ≤ 0xEF) 2
  obtain ⟨four, hfour, hfourIff⟩ := continues_spec hzero b (0xF0 ≤ b && b ≤ 0xF4) 3
  have hdecode := utilsUtf8Decode.eq_1 (b :: text)
  simp only [List.getElem?_cons_zero, htwo, hthree, hfour, Option.bind_eq_bind, Option.bind_some,
    if_neg hb, Option.pure_def] at hdecode
  simp only [Bool.and_eq_true, decide_eq_true_eq] at htwoIff hthreeIff hfourIff
  by_cases hascii : b < 0x80
  · rw [if_pos hascii] at hdecode
    have hone : b ≤ 0x7F := by grind
    exact decoded_of_shape (.one ⟨UInt8.zero_le, hone⟩) rfl hdecode
  rw [if_neg hascii] at hdecode
  -- the first of the three conditions that holds fixes the bytes that are read
  cases two with
  | true =>
    obtain ⟨hrange, tail, ⟨rest, rfl⟩, hlength, htail⟩ := htwoIff.mp rfl
    obtain ⟨c, rfl⟩ := List.length_eq_one_iff.mp hlength
    have hc := List.forall_mem_singleton.mp htail
    exact decoded_of_shape (.two hrange hc) (toNat_two b c) hdecode
  | false =>
    cases three with
    | true =>
      obtain ⟨hrange, tail, ⟨rest, rfl⟩, hlength, htail⟩ := hthreeIff.mp rfl
      obtain ⟨c, d, rfl⟩ := List.length_eq_two.mp hlength
      obtain ⟨hc, hd⟩ := List.forall_mem_cons.mp htail
      exact decoded_three hrange hc (List.forall_mem_singleton.mp hd) hdecode
    | false =>
      cases four with
      | true =>
        obtain ⟨hrange, tail, ⟨rest, rfl⟩, hlength, htail⟩ := hfourIff.mp rfl
        obtain ⟨c, d, e, rfl⟩ := List.length_eq_three.mp hlength
        obtain ⟨hc, htail⟩ := List.forall_mem_cons.mp htail
        obtain ⟨hd, he⟩ := List.forall_mem_cons.mp htail
        exact decoded_four hrange hc hd (List.forall_mem_singleton.mp he) hdecode
      | false =>
        have hone : ¬ b ≤ 0x7F := by grind
        refine .inr ⟨not_wellFormed_of hone ?_ ?_ ?_, hdecode⟩
        · exact fun hrange htail => Bool.false_ne_true (htwoIff.mpr ⟨hrange, htail⟩)
        · exact fun hrange htail => absurd (hthreeIff.mpr ⟨hrange, htail⟩) Bool.false_ne_true
        · exact fun hrange htail => absurd (hfourIff.mpr ⟨hrange, htail⟩) Bool.false_ne_true

/-! ## The walk makes the cuts -/

/-- What a segment makes the loop consume, and the code point that is counted for it. -/
def stepOf : Segment → Nat × UInt32
  | .char c => ((encode c).length, c.val)
  | .byte b => (1, b.toUInt32)

theorem displayTurn_of_decode {first : UInt8} {cursor : Bytes} (hfirst : first ≠ 0)
    {found : Option (Nat × UInt32)} (h : utilsUtf8Decode (first :: cursor) = some found)
    (hpos : ∀ step, found = some step → 0 < step.1) :
    displayTurn (first :: cursor) = some (some (found.getD (1, first.toUInt32))) := by
  rw [displayTurn]
  simp only [List.getElem?_cons_zero, h, Option.bind_eq_bind, Option.bind_some, if_neg hfirst,
    Option.pure_def]
  cases found with
  | none => rfl
  | some step => exact if_neg (Nat.ne_of_gt (hpos step rfl))

theorem displayTurn_char {c : Char} {rest : Bytes} (hc : 0 ∉ encode c) (hrest : 0 ∈ rest) :
    displayTurn (encode c ++ rest) = some (some (stepOf (.char c))) := by
  obtain ⟨first, tail, hencode⟩ := List.exists_cons_of_ne_nil (String.utf8EncodeChar_ne_nil (c := c))
  have htext : encode c ++ rest = first :: (tail ++ rest) := by
    rw [encode, hencode, List.cons_append]
  have hfirst : first ≠ 0 := by
    rintro rfl
    rw [encode, hencode] at hc
    exact hc List.mem_cons_self
  rw [htext]
  rcases utilsUtf8Decode_decoded hfirst (List.mem_append_right tail hrest) with
    ⟨d, ⟨_, hd⟩, hdecode⟩ | ⟨hnone, -⟩
  · obtain rfl := encode_append_inj (hd.trans htext.symm)
    refine displayTurn_of_decode hfirst hdecode ?_
    rintro _ ⟨⟩
    exact List.length_pos_iff.mpr String.utf8EncodeChar_ne_nil
  · exact absurd (wellFormed_iff.mpr ⟨c, rfl⟩) (hnone _ ⟨rest, htext⟩)

theorem displayTurn_byte {b : UInt8} {text : Bytes} (hb : b ≠ 0)
    (hnone : ∀ seq, seq <+: b :: text → ¬ Utf8.WellFormed seq) (rest : Bytes) :
    displayTurn (b :: text ++ 0 :: rest) = some (some (stepOf (.byte b))) := by
  have hzero : 0 ∈ text ++ 0 :: rest := List.mem_append_right text List.mem_cons_self
  rcases utilsUtf8Decode_decoded hb hzero with ⟨c, hc, -⟩ | ⟨-, hdecode⟩
  · have hwell : Utf8.WellFormed (encode c) := wellFormed_iff.mpr ⟨c, rfl⟩
    have hinside : encode c <+: b :: text := by
      refine hwell.prefix_left hc ?_
      rintro x ⟨⟩
      exact not_trails_zero
    exact absurd hwell (hnone _ hinside)
  · exact displayTurn_of_decode hb hdecode nofun

theorem displaySteps_none {cursor : Bytes} (h : displayTurn cursor = none) :
    displaySteps cursor = none := by
  rw [displaySteps]
  split
  · rfl
  all_goals
    rename_i hother
    rw [h] at hother
    cases hother

theorem displaySteps_nil {cursor : Bytes} (h : displayTurn cursor = some none) :
    displaySteps cursor = some [] := by
  rw [displaySteps]
  split
  · rename_i hother
    rw [h] at hother
    cases hother
  · rfl
  · rename_i hother
    rw [h] at hother
    cases hother

theorem displaySteps_cons {cursor : Bytes} {step : Nat × UInt32}
    (h : displayTurn cursor = some (some step)) :
    displaySteps cursor = (displaySteps (cursor.drop step.1)).map (step :: ·) := by
  rw [displaySteps]
  split
  · rename_i hother
    rw [h] at hother
    cases hother
  · rename_i hother
    rw [h] at hother
    cases hother
  · rename_i other hother
    rw [h, Option.some.injEq, Option.some.injEq] at hother
    rw [hother]

/-- The turns of the loop are the cuts of the text in front of the terminator. -/
theorem displaySteps_eq {text : Bytes} {segs : List Segment} (h : Cuts text segs) (hzero : 0 ∉ text)
    (rest : Bytes) : displaySteps (text ++ 0 :: rest) = some (segs.map stepOf) := by
  induction h with
  | nil =>
    have hturn : displayTurn ([] ++ 0 :: rest) = some none := rfl
    exact displaySteps_nil hturn
  | @char c text segs _ ih =>
    obtain ⟨hc, htext⟩ := not_or.mp (List.mem_append.not.mp hzero)
    have hrest : 0 ∈ text ++ 0 :: rest := List.mem_append_right text List.mem_cons_self
    rw [List.append_assoc, displaySteps_cons (displayTurn_char hc hrest), stepOf, List.drop_left,
      ih htext, Option.map_some, List.map_cons, stepOf]
  | @byte b text segs hnone _ ih =>
    obtain ⟨hb, htext⟩ := not_or.mp (List.mem_cons.not.mp hzero)
    rw [displaySteps_cons (displayTurn_byte (Ne.symm hb) hnone rest), stepOf]
    show Option.map _ (displaySteps (text ++ 0 :: rest)) = _
    rw [ih htext, Option.map_some, List.map_cons, stepOf]

/-! ## The width -/

/-- The cells that a segment takes. -/
def segmentWidth (seg : Segment) : Nat := codepointWidth (stepOf seg).2

theorem wrap_wrap (n : Int) : wrap (wrap n) = wrap n := Int.bmod_bmod

theorem wrap_add_wrap (m n : Int) : wrap (wrap m + n) = wrap (m + n) := Int.bmod_add_bmod

theorem wrap_add {a b c d : Int} (hac : wrap a = wrap c) (hbd : wrap b = wrap d) :
    wrap (a + b) = wrap (c + d) := by
  rw [← wrap_add_wrap, hac, wrap_add_wrap, Int.add_comm, ← wrap_add_wrap, hbd, wrap_add_wrap,
    Int.add_comm]

theorem wrap_eq {n : Int} (hlow : -2 ^ 31 ≤ n) (hhigh : n < 2 ^ 31) : wrap n = n :=
  Int.bmod_eq_of_le (by omega) (by omega)

/-- The loop adds up over its turns. -/
theorem displayLoop_eq (cursor : Bytes) (width : Int) :
    displayLoop cursor width = (displaySteps cursor).map fun steps =>
      steps.foldl (fun width step => wrap (width + codepointWidth step.2)) width := by
  fun_induction displayLoop cursor width with
  | case1 cursor width hturn => rw [displaySteps_none hturn, Option.map_none]
  | case2 cursor width hturn => rw [displaySteps_nil hturn, Option.map_some, List.foldl_nil]
  | case3 cursor width consumed codepoint hturn ih =>
    rw [displaySteps_cons hturn, Option.map_map, ih]
    rfl

theorem foldl_wrap (steps : List (Nat × UInt32)) (width : Int) :
    steps.foldl (fun width step => wrap (width + codepointWidth step.2)) (wrap width) =
      wrap (width + ((steps.map fun step => codepointWidth step.2).sum : Nat)) := by
  induction steps generalizing width with
  | nil => rw [List.foldl_nil, List.map_nil, List.sum_nil, Int.natCast_zero, Int.add_zero]
  | cons step steps ih =>
    rw [List.foldl_cons, wrap_add_wrap, ih, List.map_cons, List.sum_cons, Int.natCast_add,
      Int.add_assoc]

/-- The width of a string is the sum over its cuts. -/
theorem utilsDisplayWidth_eq {text : Bytes} {segs : List Segment} (h : Cuts text segs)
    (hzero : 0 ∉ text) (rest : Bytes) :
    utilsDisplayWidth (some (text ++ 0 :: rest)) =
      some (wrap ((segs.map segmentWidth).sum : Nat)) := by
  have hfold := foldl_wrap (segs.map stepOf) 0
  rw [List.map_map, Int.zero_add] at hfold
  rw [utilsDisplayWidth, displayLoop_eq, displaySteps_eq h hzero, Option.map_some]
  exact congrArg some hfold

theorem zero_notMem_cstring (memory : Bytes) : 0 ∉ cstring memory := by
  intro hzero
  have hne := List.mem_takeWhile_imp hzero
  exact of_decide_eq_true hne rfl

/-- Behind the string stands its terminator. -/
theorem exists_terminator {memory : Bytes} (h : 0 ∈ memory) :
    ∃ rest, memory = cstring memory ++ 0 :: rest := by
  induction memory with
  | nil => cases h
  | cons b memory ih =>
    by_cases hb : b = 0
    · subst hb
      exact ⟨memory, rfl⟩
    · obtain ⟨rest, hrest⟩ := ih ((List.mem_cons.mp h).resolve_left (Ne.symm hb))
      have hcons : cstring (b :: memory) = b :: cstring memory :=
        List.takeWhile_cons_of_pos (decide_eq_true hb)
      refine ⟨rest, ?_⟩
      rw [hcons, List.cons_append, ← hrest]

/-- The loop makes the cuts of the string, and the width adds up over them. -/
theorem utilsDisplayWidth_cuts {memory : Bytes} (h : 0 ∈ memory) :
    ∃ segs, (∀ segs', Cuts (cstring memory) segs' ↔ segs' = segs) ∧
      segs.flatMap Segment.bytes = cstring memory ∧
      displaySteps memory = some (segs.map stepOf) ∧
      utilsDisplayWidth (some memory) = some (wrap ((segs.map segmentWidth).sum : Nat)) := by
  obtain ⟨segs, hsegs⟩ := Cuts.exists_cuts (cstring memory)
  obtain ⟨rest, hrest⟩ := exists_terminator h
  have hzero := zero_notMem_cstring memory
  refine ⟨segs, fun segs' => ?_, hsegs.flatMap_bytes, ?_, ?_⟩
  · exact ⟨fun hsegs' => hsegs'.unique hsegs, fun heq => heq ▸ hsegs⟩
  · rw [hrest]
    exact displaySteps_eq hsegs hzero rest
  · rw [hrest]
    exact utilsDisplayWidth_eq hsegs hzero rest

/-- Without ASCII between them two strings may make up a sequence. -/
example : utilsDisplayWidth (some [0xE3, 0]) = some 1 ∧
    utilsDisplayWidth (some [0x81, 0x82, 0]) = some 0 ∧
    utilsDisplayWidth (some [0xE3, 0x81, 0x82, 0]) = some 2 := by
  decide +kernel

/-- The cells that the segments of a string take. -/
structure Spans (text : Bytes) (n : Nat) : Prop where
  zero_notMem : 0 ∉ text
  cuts : ∃ segs, Cuts text segs ∧ (segs.map segmentWidth).sum = n

theorem exists_spans {text : Bytes} (hzero : 0 ∉ text) : ∃ n, Spans text n := by
  obtain ⟨segs, hsegs⟩ := Cuts.exists_cuts text
  exact ⟨_, hzero, segs, hsegs, rfl⟩

theorem spans_chars {cs : List Char} (hcs : ∀ c ∈ cs, c ≠ '\x00') :
    Spans (cs.flatMap encode) (cs.map fun c => codepointWidth c.val).sum := by
  refine ⟨?_, _, Cuts.chars cs, by rw [List.map_map]; rfl⟩
  intro hzero
  obtain ⟨c, hc, hzero⟩ := List.mem_flatMap.mp hzero
  exact zero_notMem_encode (hcs c hc) hzero

namespace Spans

variable {text text' : Bytes} {m n : Nat}

/-- The width is the number of cells, as an `int`. -/
theorem width (h : Spans text n) (rest : Bytes) :
    utilsDisplayWidth (some (text ++ 0 :: rest)) = some (wrap n) := by
  obtain ⟨hzero, segs, hsegs, rfl⟩ := h
  exact utilsDisplayWidth_eq hsegs hzero rest

theorem append (h : Spans text m) (h' : Spans text' n)
    (hhead : ∀ x, text'.head? = some x → ¬ Trails x) : Spans (text ++ text') (m + n) := by
  obtain ⟨hzero, segs, hsegs, rfl⟩ := h
  obtain ⟨hzero', segs', hsegs', rfl⟩ := h'
  refine ⟨?_, segs ++ segs', hsegs.append hsegs' hhead, ?_⟩
  · exact fun hmem => (List.mem_append.mp hmem).elim hzero hzero'
  · rw [List.map_append, List.sum_append]

theorem ascii_append (hascii : ∀ b ∈ text, b ≤ 0x7F) (h : Spans text m) (h' : Spans text' n) :
    Spans (text ++ text') (m + n) := by
  obtain ⟨hzero, segs, hsegs, rfl⟩ := h
  obtain ⟨hzero', segs', hsegs', rfl⟩ := h'
  obtain ⟨cs, rfl⟩ := exists_chars hascii
  obtain rfl := hsegs.unique (Cuts.chars cs)
  refine ⟨?_, _, hsegs'.chars_append cs, ?_⟩
  · exact fun hmem => (List.mem_append.mp hmem).elim hzero hzero'
  · rw [List.map_append, List.sum_append]

theorem append_ascii (h : Spans text m) (hascii : ∀ b ∈ text', b ≤ 0x7F) (h' : Spans text' n) :
    Spans (text ++ text') (m + n) := by
  refine h.append h' fun x hx => ?_
  exact not_trails_of_le (hascii x (List.mem_of_mem_head? hx))

/-- ASCII keeps apart what stands in front of it and behind it. -/
theorem append_between {between : Bytes} {k : Nat} (h : Spans text m)
    (hbetween : Spans between k) (hne : between ≠ []) (hascii : ∀ b ∈ between, b ≤ 0x7F)
    (h' : Spans text' n) : Spans (text ++ between ++ text') (m + k + n) := by
  rw [List.append_assoc, Nat.add_assoc]
  refine h.append (hbetween.ascii_append hascii h') fun x hx => ?_
  rw [List.head?_append_of_ne_nil _ hne] at hx
  exact not_trails_of_le (hascii x (List.mem_of_mem_head? hx))

/-- No byte takes more than four cells. -/
theorem le (h : Spans text n) : n ≤ 4 * text.length := by
  obtain ⟨-, segs, hsegs, rfl⟩ := h
  induction hsegs with
  | nil => exact Nat.le_refl 0
  | @char c text segs _ ih =>
    have hpos : 0 < (encode c).length := List.length_pos_iff.mpr String.utf8EncodeChar_ne_nil
    have hcells := codepointWidth_le (stepOf (.char c)).2
    rw [List.map_cons, List.sum_cons, segmentWidth, List.length_append]
    omega
  | @byte b text segs _ _ ih =>
    have hcells := codepointWidth_le (stepOf (.byte b)).2
    rw [List.map_cons, List.sum_cons, segmentWidth, List.length_cons]
    omega

theorem in_range (h : Spans text n) (hfits : 4 * text.length < 2 ^ 31) : wrap n = n := by
  have hcells := h.le
  exact wrap_eq (by omega) (by omega)

end Spans

/-! ## Printable ASCII -/

/-- The bytes of the characters that take one cell each. -/
def Printable (b : UInt8) : Prop := 0x20 ≤ b ∧ b ≤ 0x7E

instance (b : UInt8) : Decidable (Printable b) := inferInstanceAs (Decidable (_ ∧ _))

theorem Printable.le {b : UInt8} (h : Printable b) : b ≤ 0x7F := UInt8.le_trans h.2 (by decide)

theorem codepointWidth_printable {codepoint : UInt32} (hlow : 0x20 ≤ codepoint)
    (hhigh : codepoint ≤ 0x7E) : codepointWidth codepoint = 1 := by
  have hzero : utilsIsZeroWidthCodepoint codepoint = false := by
    unfold utilsIsZeroWidthCodepoint
    grind
  have hwide : utilsIsWideCodepoint codepoint = false := by
    unfold utilsIsWideCodepoint
    grind
  have htab : codepoint ≠ 9 := by grind
  have hcontrol : ¬ (codepoint < 0x20 ∨ (0x7F ≤ codepoint ∧ codepoint < 0xA0)) := by grind
  rw [codepointWidth, if_neg htab, if_neg hcontrol, hzero, hwide]
  rfl

theorem spans_printable {text : Bytes} (h : ∀ b ∈ text, Printable b) : Spans text text.length := by
  induction text with
  | nil => exact @spans_chars [] (List.forall_mem_nil _)
  | cons b text ih =>
    obtain ⟨hb, htext⟩ := List.forall_mem_cons.mp h
    obtain ⟨c, hc, hvalue⟩ := (Shape.one ⟨UInt8.zero_le, hb.le⟩ : Shape [b]).exists_encode
    have hlow : 0x20 ≤ c.val := by
      rw [UInt32.le_iff_toNat_le, hvalue]
      exact hb.1
    have hhigh : c.val ≤ 0x7E := by
      rw [UInt32.le_iff_toNat_le, hvalue]
      exact hb.2
    have hone := codepointWidth_printable hlow hhigh
    have hnul : c ≠ '\x00' := by
      rintro rfl
      exact absurd hlow (by decide)
    have hspans := @spans_chars [c] (List.forall_mem_singleton.mpr hnul)
    rw [List.flatMap_singleton, List.map_singleton, List.sum_singleton, hc, hone] at hspans
    have hall := hspans.ascii_append (List.forall_mem_singleton.mpr hb.le) (ih htext)
    rw [Nat.add_comm] at hall
    exact hall

theorem Spans.append_printable {text text' : Bytes} {n : Nat} (h : Spans text n)
    (h' : ∀ b ∈ text', Printable b) : Spans (text ++ text') (n + text'.length) :=
  h.append_ascii (fun b hb => (h' b hb).le) (spans_printable h')

theorem Spans.printable_append {text text' : Bytes} {n : Nat} (h : ∀ b ∈ text, Printable b)
    (h' : Spans text' n) : Spans (text ++ text') (text.length + n) :=
  (spans_printable h).ascii_append (fun b hb => (h b hb).le) h'

end JungleDb
