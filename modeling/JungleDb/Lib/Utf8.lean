import Mathlib.Data.List.Basic
import Mathlib.Data.List.Forall2
import Mathlib.Data.List.Infix

/-!
# UTF-8

The well-formed sequences of bytes of the Unicode standard, Table 3-7, are the encodings of the scalar
values. A text of arbitrary bytes falls into them in one way, where each byte at which no well-formed
sequence begins stands alone. The cuts of a text do not depend on what is behind it, unless that begins
with a trailing byte.
-/

namespace Utf8

/-- The bytes of a scalar value. -/
abbrev encode (c : Char) : List UInt8 := String.utf8EncodeChar c

/-! ## Table 3-7 -/

/-- The ranges of the bytes, row by row. -/
def table : List (List (UInt8 × UInt8)) :=
  [[(0x00, 0x7F)],
   [(0xC2, 0xDF), (0x80, 0xBF)],
   [(0xE0, 0xE0), (0xA0, 0xBF), (0x80, 0xBF)],
   [(0xE1, 0xEC), (0x80, 0xBF), (0x80, 0xBF)],
   [(0xED, 0xED), (0x80, 0x9F), (0x80, 0xBF)],
   [(0xEE, 0xEF), (0x80, 0xBF), (0x80, 0xBF)],
   [(0xF0, 0xF0), (0x90, 0xBF), (0x80, 0xBF), (0x80, 0xBF)],
   [(0xF1, 0xF3), (0x80, 0xBF), (0x80, 0xBF), (0x80, 0xBF)],
   [(0xF4, 0xF4), (0x80, 0x8F), (0x80, 0xBF), (0x80, 0xBF)]]

/-- The byte is in the range. -/
def InRange (b : UInt8) (range : UInt8 × UInt8) : Prop := range.1 ≤ b ∧ b ≤ range.2

/-- The sequence is in a row of the table. -/
def WellFormed (seq : List UInt8) : Prop := ∃ row ∈ table, List.Forall₂ InRange seq row

instance (b : UInt8) (range : UInt8 × UInt8) : Decidable (InRange b range) :=
  inferInstanceAs (Decidable (_ ∧ _))

instance (seq : List UInt8) : Decidable (WellFormed seq) :=
  inferInstanceAs (Decidable (∃ row ∈ table, List.Forall₂ InRange seq row))

/-- A byte behind the first one. -/
def Trails (b : UInt8) : Prop := InRange b (0x80, 0xBF)

/-- The rows of the table, put together by their length. -/
inductive Shape : List UInt8 → Prop
  | one {a : UInt8} : InRange a (0x00, 0x7F) → Shape [a]
  | two {a b : UInt8} : InRange a (0xC2, 0xDF) → Trails b → Shape [a, b]
  | three {a b c : UInt8} : InRange a (0xE0, 0xEF) → Trails b → Trails c →
      (a = 0xE0 → 0xA0 ≤ b) → (a = 0xED → b ≤ 0x9F) → Shape [a, b, c]
  | four {a b c d : UInt8} : InRange a (0xF0, 0xF4) → Trails b → Trails c → Trails d →
      (a = 0xF0 → 0x90 ≤ b) → (a = 0xF4 → b ≤ 0x8F) → Shape [a, b, c, d]

/-- The value that the bits of a sequence make up. -/
def value : List UInt8 → Nat
  | [a] => a.toNat
  | [a, b] => a.toNat % 32 * 64 + b.toNat % 64
  | [a, b, c] => a.toNat % 16 * 4096 + b.toNat % 64 * 64 + c.toNat % 64
  | [a, b, c, d] =>
    a.toNat % 8 * 262144 + b.toNat % 64 * 4096 + c.toNat % 64 * 64 + d.toNat % 64
  | _ => 0

theorem inRange_iff {b : UInt8} {range : UInt8 × UInt8} :
    InRange b range ↔ range.1.toNat ≤ b.toNat ∧ b.toNat ≤ range.2.toNat := Iff.rfl

theorem shape_of_wellFormed {seq : List UInt8} (h : WellFormed seq) : Shape seq := by
  obtain ⟨row, hrow, hall⟩ := h
  simp only [table, List.mem_cons, List.not_mem_nil, or_false] at hrow
  rcases hrow with rfl | rfl | rfl | rfl | rfl | rfl | rfl | rfl | rfl <;>
    simp only [List.forall₂_cons_right_iff, List.forall₂_nil_right_iff] at hall
  · obtain ⟨a, _, ha, rfl, rfl⟩ := hall
    exact .one ha
  · obtain ⟨a, _, ha, ⟨b, _, hb, rfl, rfl⟩, rfl⟩ := hall
    exact .two ha hb
  iterate 4
    obtain ⟨a, _, ha, ⟨b, _, hb, ⟨c, _, hc, rfl, rfl⟩, rfl⟩, rfl⟩ := hall
    simp only [inRange_iff, UInt8.reduceToNat] at ha hb
    refine .three ?_ ?_ hc ?_ ?_ <;>
      simp only [Trails, inRange_iff, UInt8.le_iff_toNat_le, ← UInt8.toNat_inj, UInt8.reduceToNat] <;>
      omega
  iterate 3
    obtain ⟨a, _, ha, ⟨b, _, hb, ⟨c, _, hc, ⟨d, _, hd, rfl, rfl⟩, rfl⟩, rfl⟩, rfl⟩ := hall
    simp only [inRange_iff, UInt8.reduceToNat] at ha hb
    refine .four ?_ ?_ hc hd ?_ ?_ <;>
      simp only [Trails, inRange_iff, UInt8.le_iff_toNat_le, ← UInt8.toNat_inj, UInt8.reduceToNat] <;>
      omega

/-! ## The encodings are the well-formed sequences -/

section Encode

variable {c : Char}

theorem encode_one (h : c.val.toNat ≤ 0x7F) : encode c = [UInt8.ofNat c.val.toNat] := by
  rw [encode, String.utf8EncodeChar]
  exact if_pos h

theorem encode_two (hlow : 0x7F < c.val.toNat) (h : c.val.toNat ≤ 0x7FF) :
    encode c = [UInt8.ofNat (c.val.toNat / 64 % 0x20 + 0xC0),
      UInt8.ofNat (c.val.toNat % 0x40 + 0x80)] := by
  rw [encode, String.utf8EncodeChar]
  rw [if_neg (by omega), if_pos h]

theorem encode_three (hlow : 0x7FF < c.val.toNat) (h : c.val.toNat ≤ 0xFFFF) :
    encode c = [UInt8.ofNat (c.val.toNat / 4096 % 0x10 + 0xE0),
      UInt8.ofNat (c.val.toNat / 64 % 0x40 + 0x80), UInt8.ofNat (c.val.toNat % 0x40 + 0x80)] := by
  rw [encode, String.utf8EncodeChar]
  rw [if_neg (by omega), if_neg (by omega), if_pos h]

theorem encode_four (hlow : 0xFFFF < c.val.toNat) :
    encode c = [UInt8.ofNat (c.val.toNat / 262144 % 0x08 + 0xF0),
      UInt8.ofNat (c.val.toNat / 4096 % 0x40 + 0x80),
      UInt8.ofNat (c.val.toNat / 64 % 0x40 + 0x80), UInt8.ofNat (c.val.toNat % 0x40 + 0x80)] := by
  rw [encode, String.utf8EncodeChar]
  rw [if_neg (by omega), if_neg (by omega), if_neg (by omega)]

end Encode

theorem ofNat_eq {n : Nat} {b : UInt8} (h : n = b.toNat) : UInt8.ofNat n = b := by
  rw [h, UInt8.ofNat_toNat]

/-- A sequence of such a shape is the encoding of its value. -/
theorem Shape.exists_encode {seq : List UInt8} (h : Shape seq) :
    ∃ c : Char, encode c = seq ∧ c.val.toNat = value seq := by
  have hvalid : (value seq).isValidChar := by
    cases h <;>
      simp only [Trails, inRange_iff, UInt8.le_iff_toNat_le, ← UInt8.toNat_inj, UInt8.reduceToNat,
        Nat.isValidChar, value] at * <;>
      omega
  let c := Char.ofNatAux (value seq) hvalid
  have hc : c.val.toNat = value seq := rfl
  refine ⟨c, ?_, hc⟩
  cases h with
  | @one a ha =>
    simp only [inRange_iff, UInt8.reduceToNat, value] at ha hc
    rw [encode_one (by omega), ofNat_eq hc]
  | @two a b ha hb =>
    simp only [Trails, inRange_iff, UInt8.reduceToNat, value] at ha hb hc
    rw [encode_two (by omega) (by omega), ofNat_eq (b := a) (by omega),
      ofNat_eq (b := b) (by omega)]
  | @three a b d ha hb hd hE0 hED =>
    simp only [Trails, inRange_iff, UInt8.le_iff_toNat_le, ← UInt8.toNat_inj, UInt8.reduceToNat,
      value] at ha hb hd hE0 hED hc
    rw [encode_three (by omega) (by omega), ofNat_eq (b := a) (by omega),
      ofNat_eq (b := b) (by omega), ofNat_eq (b := d) (by omega)]
  | @four a b d e ha hb hd he hF0 hF4 =>
    simp only [Trails, inRange_iff, UInt8.le_iff_toNat_le, ← UInt8.toNat_inj, UInt8.reduceToNat,
      value] at ha hb hd he hF0 hF4 hc
    rw [encode_four (by omega), ofNat_eq (b := a) (by omega), ofNat_eq (b := b) (by omega),
      ofNat_eq (b := d) (by omega), ofNat_eq (b := e) (by omega)]

/-- The encoding of a scalar value has such a shape. -/
theorem shape_encode (c : Char) : Shape (encode c) := by
  have hvalid : c.val.toNat.isValidChar := c.valid
  by_cases hone : c.val.toNat ≤ 0x7F
  · rw [encode_one hone]
    refine .one ?_
    simp only [inRange_iff, UInt8.reduceToNat, UInt8.toNat_ofNat']
    omega
  by_cases htwo : c.val.toNat ≤ 0x7FF
  · rw [encode_two (by omega) htwo]
    refine .two ?_ ?_ <;>
      simp only [Trails, inRange_iff, UInt8.reduceToNat, UInt8.toNat_ofNat'] <;>
      omega
  by_cases hthree : c.val.toNat ≤ 0xFFFF
  · rw [encode_three (by omega) hthree]
    refine .three ?_ ?_ ?_ ?_ ?_ <;>
      simp only [Trails, inRange_iff, UInt8.le_iff_toNat_le, ← UInt8.toNat_inj, UInt8.reduceToNat,
        UInt8.toNat_ofNat'] <;>
      omega
  · rw [encode_four (by omega)]
    refine .four ?_ ?_ ?_ ?_ ?_ ?_ <;>
      simp only [Trails, inRange_iff, UInt8.le_iff_toNat_le, ← UInt8.toNat_inj, UInt8.reduceToNat,
        UInt8.toNat_ofNat'] <;>
      omega

theorem Shape.wellFormed {seq : List UInt8} (h : Shape seq) : WellFormed seq := by
  cases h with
  | one ha => exact ⟨_, .head _, .cons ha .nil⟩
  | two ha hb => exact ⟨_, .tail _ (.head _), .cons ha (.cons hb .nil)⟩
  | @three a b c ha hb hc hE0 hED =>
    have hrows : InRange a (0xE0, 0xE0) ∧ InRange b (0xA0, 0xBF) ∨
        InRange a (0xE1, 0xEC) ∧ InRange b (0x80, 0xBF) ∨
        InRange a (0xED, 0xED) ∧ InRange b (0x80, 0x9F) ∨
        InRange a (0xEE, 0xEF) ∧ InRange b (0x80, 0xBF) := by
      simp only [Trails, inRange_iff, UInt8.le_iff_toNat_le, ← UInt8.toNat_inj,
        UInt8.reduceToNat] at *
      omega
    rcases hrows with ⟨ha, hb⟩ | ⟨ha, hb⟩ | ⟨ha, hb⟩ | ⟨ha, hb⟩ <;>
      exact ⟨[(_, _), (_, _), _], by decide, .cons ha (.cons hb (.cons hc .nil))⟩
  | @four a b c d ha hb hc hd hF0 hF4 =>
    have hrows : InRange a (0xF0, 0xF0) ∧ InRange b (0x90, 0xBF) ∨
        InRange a (0xF1, 0xF3) ∧ InRange b (0x80, 0xBF) ∨
        InRange a (0xF4, 0xF4) ∧ InRange b (0x80, 0x8F) := by
      simp only [Trails, inRange_iff, UInt8.le_iff_toNat_le, ← UInt8.toNat_inj,
        UInt8.reduceToNat] at *
      omega
    rcases hrows with ⟨ha, hb⟩ | ⟨ha, hb⟩ | ⟨ha, hb⟩ <;>
      exact ⟨_, by decide, .cons ha (.cons hb (.cons hc (.cons hd .nil)))⟩

theorem wellFormed_iff_shape {seq : List UInt8} : WellFormed seq ↔ Shape seq :=
  ⟨shape_of_wellFormed, Shape.wellFormed⟩

/-- The well-formed sequences are the encodings of the scalar values. -/
theorem wellFormed_iff {seq : List UInt8} : WellFormed seq ↔ ∃ c, encode c = seq := by
  rw [wellFormed_iff_shape]
  constructor
  · intro hshape
    obtain ⟨c, hc, _⟩ := hshape.exists_encode
    exact ⟨c, hc⟩
  · rintro ⟨c, rfl⟩
    exact shape_encode c

/-- Too long a form, a surrogate, and a value above the last. -/
example : ¬ WellFormed [0xC0, 0x80] ∧ ¬ WellFormed [0xED, 0xA0, 0x80] ∧
    ¬ WellFormed [0xF4, 0x90, 0x80, 0x80] := by
  decide

/-- One encoding begins a text. -/
theorem encode_append_inj {c d : Char} {text text' : List UInt8}
    (h : encode c ++ text = encode d ++ text') : c = d := by
  have hc := ByteArray.utf8DecodeChar?_utf8EncodeChar_append (b := text.toByteArray) (c := c)
  have hd := ByteArray.utf8DecodeChar?_utf8EncodeChar_append (b := text'.toByteArray) (c := d)
  rw [← List.toByteArray_append] at hc hd
  rw [h, hd, Option.some.injEq] at hc
  exact hc.symm

theorem WellFormed.ne_nil {seq : List UInt8} (h : WellFormed seq) : seq ≠ [] := by
  obtain ⟨c, rfl⟩ := wellFormed_iff.mp h
  exact String.utf8EncodeChar_ne_nil

theorem not_trails_of_le {b : UInt8} (h : b ≤ 0x7F) : ¬ Trails b := by
  intro htrails
  exact absurd (UInt8.le_trans htrails.1 h) (by decide)

/-- Behind its first byte a sequence has trailing bytes. -/
theorem WellFormed.trails {b : UInt8} {tail : List UInt8} (h : WellFormed (b :: tail)) :
    ∀ x ∈ tail, Trails x := by
  cases shape_of_wellFormed h with
  | one _ => exact List.forall_mem_nil _
  | two _ hb => exact List.forall_mem_singleton.mpr hb
  | three _ hb hc _ _ => simpa only [List.forall_mem_cons] using ⟨hb, hc, List.forall_mem_nil _⟩
  | four _ hb hc hd _ _ =>
    simpa only [List.forall_mem_cons] using ⟨hb, hc, hd, List.forall_mem_nil _⟩

/-- NUL stands in the encoding of NUL only. -/
theorem zero_notMem_encode {c : Char} (hc : c ≠ '\x00') : 0 ∉ encode c := by
  intro hzero
  obtain ⟨first, tail, hencode⟩ := List.exists_cons_of_ne_nil (String.utf8EncodeChar_ne_nil (c := c))
  have hwell : WellFormed (first :: tail) := wellFormed_iff.mpr ⟨c, hencode⟩
  rw [encode, hencode] at hzero
  rcases List.mem_cons.mp hzero with rfl | htail
  · have hnul : encode c ++ [] = encode '\x00' ++ tail := by
      rw [List.append_nil, encode, hencode]
      rfl
    exact hc (encode_append_inj hnul)
  · exact not_trails_of_le UInt8.zero_le (hwell.trails 0 htail)

/-- ASCII text is the encoding of its characters. -/
theorem exists_chars {text : List UInt8} (h : ∀ b ∈ text, b ≤ 0x7F) :
    ∃ cs : List Char, cs.flatMap encode = text := by
  induction text with
  | nil => exact ⟨[], rfl⟩
  | cons b text ih =>
    obtain ⟨hb, htext⟩ := List.forall_mem_cons.mp h
    obtain ⟨cs, hcs⟩ := ih htext
    obtain ⟨c, hc, -⟩ := (Shape.one ⟨UInt8.zero_le, hb⟩ : Shape [b]).exists_encode
    refine ⟨c :: cs, ?_⟩
    rw [List.flatMap_cons, hc, hcs, List.singleton_append]

/-- A sequence does not go on behind a text, unless a trailing byte stands there. -/
theorem WellFormed.prefix_left {seq text text' : List UInt8} {b : UInt8} (h : WellFormed seq)
    (hseq : seq <+: b :: text ++ text') (hhead : ∀ x, text'.head? = some x → ¬ Trails x) :
    seq <+: b :: text := by
  rcases List.prefix_or_prefix_of_prefix hseq (List.prefix_append (b :: text) text') with
    hinside | ⟨more, rfl⟩
  · exact hinside
  · cases more with
    | nil => rw [List.append_nil]
    | cons x more =>
      obtain ⟨rest, hrest⟩ := (List.prefix_append_right_inj (b :: text)).mp hseq
      have hx : text'.head? = some x := by
        rw [← hrest]
        rfl
      exact absurd (h.trails x (List.mem_append_right text List.mem_cons_self)) (hhead x hx)

/-! ## The cuts of a text -/

/-- A part of a text. -/
inductive Segment
  | char (c : Char)
  | byte (b : UInt8)
  deriving DecidableEq

def Segment.bytes : Segment → List UInt8
  | char c => encode c
  | byte b => [b]

/-- The text falls into the segments: a scalar value wherever its encoding stands, and a byte alone
where no well-formed sequence begins. -/
inductive Cuts : List UInt8 → List Segment → Prop
  | nil : Cuts [] []
  | char (c : Char) {text : List UInt8} {segs : List Segment} :
      Cuts text segs → Cuts (encode c ++ text) (.char c :: segs)
  | byte {b : UInt8} {text : List UInt8} {segs : List Segment} :
      (∀ seq, seq <+: b :: text → ¬ WellFormed seq) → Cuts text segs →
      Cuts (b :: text) (.byte b :: segs)

namespace Cuts

variable {text text' : List UInt8} {segs segs' : List Segment}

/-- The segments make up the text. -/
theorem flatMap_bytes (h : Cuts text segs) : segs.flatMap Segment.bytes = text := by
  induction h with
  | nil => rfl
  | char c _ ih => rw [List.flatMap_cons, ih, Segment.bytes]
  | byte _ _ ih => rw [List.flatMap_cons, ih, Segment.bytes, List.singleton_append]

/-- Every text has cuts. -/
theorem exists_cuts (text : List UInt8) : ∃ segs, Cuts text segs := by
  induction hlength : text.length using Nat.strongRecOn generalizing text with
  | ind n ih =>
    cases text with
    | nil => exact ⟨[], .nil⟩
    | cons b text =>
      by_cases hbegins : ∃ seq, seq <+: b :: text ∧ WellFormed seq
      · obtain ⟨seq, ⟨rest, hrest⟩, hseq⟩ := hbegins
        obtain ⟨c, rfl⟩ := wellFormed_iff.mp hseq
        have hshorter : rest.length < n := by
          have hpos := List.length_pos_iff.mpr hseq.ne_nil
          have hsum := congrArg List.length hrest
          rw [List.length_append] at hsum
          omega
        obtain ⟨segs, hsegs⟩ := ih _ hshorter rest rfl
        exact ⟨_, hrest ▸ hsegs.char c⟩
      · have hshorter : text.length < n := by
          rw [← hlength, List.length_cons]
          exact Nat.lt_succ_self _
        obtain ⟨segs, hsegs⟩ := ih _ hshorter text rfl
        exact ⟨_, .byte (fun seq hprefixed hseq => hbegins ⟨seq, hprefixed, hseq⟩) hsegs⟩

/-- The cuts are determined. -/
theorem unique (h : Cuts text segs) (h' : Cuts text segs') : segs = segs' := by
  induction h generalizing segs' with
  | nil =>
    generalize htext : ([] : List UInt8) = text' at h'
    cases h' with
    | nil => rfl
    | char d _ => exact absurd (List.append_eq_nil_iff.mp htext.symm).1 String.utf8EncodeChar_ne_nil
    | byte _ _ => cases htext
  | @char c text segs _ ih =>
    generalize htext : encode c ++ text = text' at h'
    cases h' with
    | nil => exact absurd (List.append_eq_nil_iff.mp htext).1 String.utf8EncodeChar_ne_nil
    | char d h' =>
      obtain rfl := encode_append_inj htext
      obtain rfl := List.append_cancel_left htext
      rw [ih h']
    | byte hnone _ =>
      exact absurd (wellFormed_iff.mpr ⟨c, rfl⟩) (hnone _ (htext ▸ List.prefix_append _ _))
  | @byte b text segs hnone _ ih =>
    generalize htext : b :: text = text' at h'
    cases h' with
    | nil => cases htext
    | char d _ =>
      exact absurd (wellFormed_iff.mpr ⟨d, rfl⟩) (hnone _ (htext ▸ List.prefix_append _ _))
    | byte _ h' =>
      obtain ⟨rfl, rfl⟩ := List.cons.inj htext
      rw [ih h']

/-- Cuts stay where they are if what is added does not begin with a trailing byte. -/
theorem append (h : Cuts text segs) (h' : Cuts text' segs')
    (hhead : ∀ x, text'.head? = some x → ¬ Trails x) : Cuts (text ++ text') (segs ++ segs') := by
  induction h with
  | nil => exact h'
  | char c _ ih =>
    rw [List.append_assoc]
    exact ih.char c
  | @byte b text segs hnone _ ih =>
    exact .byte (fun seq hseq hwell => hnone seq (hwell.prefix_left hseq hhead) hwell) ih

/-- Scalar values are cut off in front of any text. -/
theorem chars_append (cs : List Char) (h : Cuts text segs) :
    Cuts (cs.flatMap encode ++ text) (cs.map .char ++ segs) := by
  induction cs with
  | nil => exact h
  | cons c cs ih =>
    rw [List.flatMap_cons, List.append_assoc]
    exact ih.char c

theorem chars (cs : List Char) : Cuts (cs.flatMap encode) (cs.map .char) := by
  have happend := Cuts.nil.chars_append cs
  rwa [List.append_nil, List.append_nil] at happend

end Cuts

end Utf8
