import JungleDb.Lib.JsonString
import JungleDb.Sql.Utils

/-!
# Reading a JSON string

`server_read_json_string` of `server.c`. The text from the cursor to `end` is a list of bytes, and
the output buffer is a string that fits in `out_size` bytes. The reader copies what it does not
treat itself: after a `\` every letter other than `n`, `r`, `t` and `u` stands for itself, and a
`\uXXXX` becomes one question mark.
-/

namespace JungleDb

open CString JsonString

/-! ## The reader -/

/-- `ServerJsonReadStatus`, with what is written to `out` and `*cursor` where it is
`SERVER_JSON_READ_OK`. -/
inductive ServerJsonRead (outSize : Nat)
  | ok (out : CStr outSize) (cursor : Bytes)
  | invalid
  | tooLong
  deriving DecidableEq

/-- What follows a `\`: the character to store and the rest of the text. -/
def serverReadJsonEscape : Bytes → Option (UInt8 × Bytes)
  | [] => none
  | c :: p =>
    if c = ch 'n' then some (10, p)
    else if c = ch 'r' then some (13, p)
    else if c = ch 't' then some (9, p)
    else if c = ch 'u' then
      if p.length < 4 then none else some (ch '?', p.drop 4)
    else some (c, p)

theorem serverReadJsonEscape_length {p p' : Bytes} {c : UInt8}
    (h : serverReadJsonEscape p = some (c, p')) : p'.length < p.length := by
  cases p with
  | nil => cases h
  | cons b p =>
    simp only [serverReadJsonEscape] at h
    repeat' split at h
    all_goals
      cases h
    all_goals
      simp only [List.length_cons, List.length_drop]
      omega

/-- The loop of `server_read_json_string`. -/
def serverReadJsonLoop {outSize : Nat} (p : Bytes) (out : CStr outSize) : ServerJsonRead outSize :=
  match p with
  | [] => .invalid
  | c :: p =>
    if c = ch '"' then .ok out p
    else if c = ch '\\' then
      match _h : serverReadJsonEscape p with
      | none => .invalid
      | some (c, p') =>
        match out.push c with
        | none => .tooLong
        | some out => serverReadJsonLoop p' out
    else
      match out.push c with
      | none => .tooLong
      | some out => serverReadJsonLoop p out
termination_by p.length
decreasing_by
  · have := serverReadJsonEscape_length _h
    simp only [List.length_cons]
    omega
  · simp only [List.length_cons]
    omega

/-- `server_read_json_string`. -/
def serverReadJsonString (cursor : Bytes) (outSize : Nat) : ServerJsonRead outSize :=
  if h : outSize = 0 then .invalid
  else
    match cursor with
    | [] => .invalid
    | c :: p =>
      if c = ch '"' then serverReadJsonLoop p ⟨[], Nat.pos_of_ne_zero h⟩ else .invalid

/-! ## What it makes of a literal -/

/-- The byte that the reader stores for an escape of two characters. -/
def storedEscape : Escape → UInt8
  | .lineFeed => 10
  | .carriageReturn => 13
  | .tab => 9
  | e => e.letter

/-- The bytes that the reader stores for one character of a literal. -/
def storedBytes : JsonChar → Bytes
  | .unescaped c _ => String.utf8EncodeChar c
  | .escape e => [storedEscape e]
  | .unicode _ => [ch '?']

/-- How the reader goes on once `bs` are to be stored. -/
def storeThen {outSize : Nat} (out : CStr outSize) (bs : Bytes)
    (next : CStr outSize → ServerJsonRead outSize) : ServerJsonRead outSize :=
  match out.append bs with
  | none => .tooLong
  | some out => next out

variable {outSize : Nat}

theorem storeThen_append (out : CStr outSize) (as bs : Bytes)
    (next : CStr outSize → ServerJsonRead outSize) :
    storeThen out (as ++ bs) next = storeThen out as (storeThen · bs next) := by
  unfold storeThen
  rw [CStr.append_append]
  cases out.append as <;> rfl

theorem serverReadJsonLoop_plain {c : UInt8} (hquote : c ≠ ch '"') (hsolidus : c ≠ ch '\\')
    (p : Bytes) (out : CStr outSize) :
    serverReadJsonLoop (c :: p) out = storeThen out [c] (serverReadJsonLoop p) := by
  rw [serverReadJsonLoop, if_neg hquote, if_neg hsolidus]
  rfl

theorem serverReadJsonLoop_escape {c : UInt8} {p p' : Bytes}
    (h : serverReadJsonEscape p = some (c, p')) (out : CStr outSize) :
    serverReadJsonLoop (ch '\\' :: p) out = storeThen out [c] (serverReadJsonLoop p') := by
  rw [serverReadJsonLoop, if_neg (by decide), if_pos rfl]
  split
  · rename_i h'
    rw [h] at h'
    cases h'
  · rename_i c' p'' h'
    rw [h] at h'
    cases h'
    rfl

theorem serverReadJsonLoop_bytes {bs : Bytes} (h : ∀ b ∈ bs, b ≠ ch '"' ∧ b ≠ ch '\\') (p : Bytes)
    (out : CStr outSize) :
    serverReadJsonLoop (bs ++ p) out = storeThen out bs (serverReadJsonLoop p) := by
  induction bs generalizing out with
  | nil => rw [storeThen, CStr.append_nil, List.nil_append]
  | cons b bs ih =>
    have hb := h b List.mem_cons_self
    have hbs := ih fun b' hb' => h b' (List.mem_cons_of_mem _ hb')
    rw [List.cons_append, serverReadJsonLoop_plain hb.1 hb.2, ← List.singleton_append (l := bs),
      storeThen_append]
    exact congrArg (storeThen out [b]) (funext hbs)

/-- One character of a literal. -/
theorem serverReadJsonLoop_char (c : JsonChar) (p : Bytes) (out : CStr outSize) :
    serverReadJsonLoop (c.bytes ++ p) out =
      storeThen out (storedBytes c) (serverReadJsonLoop p) := by
  cases c with
  | unescaped c h => exact serverReadJsonLoop_bytes (fun b hb => h.bytes hb) p out
  | escape e =>
    have h : serverReadJsonEscape (e.letter :: p) = some (storedEscape e, p) := by
      cases e <;> rfl
    exact serverReadJsonLoop_escape h out
  | unicode u =>
    have h : serverReadJsonEscape (ch 'u' :: (u.bytes ++ p)) = some (ch '?', p) := rfl
    exact serverReadJsonLoop_escape h out

/-- A whole literal: its characters are stored one after the other while they fit. -/
theorem serverReadJsonLoop_literal (s : List JsonChar) (following : Bytes) (out : CStr outSize) :
    serverReadJsonLoop (s.flatMap JsonChar.bytes ++ ch '"' :: following) out =
      storeThen out (s.flatMap storedBytes) (.ok · following) := by
  induction s generalizing out with
  | nil =>
    rw [List.flatMap_nil, List.flatMap_nil, List.nil_append, serverReadJsonLoop, if_pos rfl,
      storeThen, CStr.append_nil]
  | cons c s ih =>
    rw [List.flatMap_cons, List.append_assoc, serverReadJsonLoop_char, List.flatMap_cons,
      storeThen_append]
    exact congrArg (storeThen out _) (funext ih)

/-- The reader accepts a literal exactly when the bytes that it stores and a terminating NUL fit. -/
theorem serverReadJsonString_literal {s : List JsonChar} {following : Bytes} {out : CStr outSize}
    {cursor : Bytes} :
    serverReadJsonString (encode s ++ following) outSize = .ok out cursor ↔
      out.text = s.flatMap storedBytes ∧ cursor = following := by
  unfold serverReadJsonString
  split
  · rename_i h
    have := out.fits
    omega
  · rename_i h
    rw [encode, List.cons_append, List.append_assoc, List.singleton_append]
    simp only [if_pos]
    rw [serverReadJsonLoop_literal, storeThen]
    cases happ : CStr.append _ (s.flatMap storedBytes) with
    | none =>
      rw [CStr.append_eq_none, List.nil_append] at happ
      simp only [reduceCtorEq, false_iff, not_and]
      intro htext
      have := out.fits
      rw [htext] at this
      omega
    | some out' =>
      rw [CStr.append_eq_some, List.nil_append] at happ
      simp only [ServerJsonRead.ok.injEq, CStr.ext_iff, happ, eq_comm (b := cursor),
        eq_comm (b := out.text)]

/-! ## Where it agrees with the meaning -/

/-- The bytes that the output buffer needs for a character. -/
def storedSize : JsonChar → Nat
  | .unescaped c _ => c.utf8Size
  | .escape _ => 1
  | .unicode _ => 1

/-- The characters that the reader understands: every one that stands for itself, every escape but
`\b` and `\f`, and of all `\uXXXX` the question mark. -/
def Understood : JsonChar → Prop
  | .unescaped _ _ => True
  | .escape e => e ≠ .backspace ∧ e ≠ .formFeed
  | .unicode u => u.value = (ch '?').toNat

theorem storedBytes_length (c : JsonChar) : (storedBytes c).length = storedSize c := by
  cases c with
  | unescaped c h => exact String.length_utf8EncodeChar c
  | escape e => rfl
  | unicode u => rfl

theorem flatMap_storedBytes_length (s : List JsonChar) :
    (s.flatMap storedBytes).length = (s.map storedSize).sum := by
  rw [List.length_flatMap]
  exact congrArg List.sum (List.map_congr_left fun c _ => storedBytes_length c)

theorem storedEscape_eq_meaning {e : Escape} :
    e.meaning = storedEscape e ↔ e ≠ .backspace ∧ e ≠ .formFeed := by
  cases e <;> decide

/-- The reader never stores more bytes than the text has. -/
theorem length_le_of_decode {s : List JsonChar} {t : Bytes} (h : decode s = some t) :
    (s.flatMap storedBytes).length ≤ t.length := by
  fun_induction decode s generalizing t with
  | case1 => exact Nat.zero_le _
  | case2 c hc s ih =>
    obtain ⟨t, ht, rfl⟩ := Option.map_eq_some_iff.mp h
    have := ih ht
    rw [List.flatMap_cons, List.length_append, List.length_append, storedBytes]
    omega
  | case3 e s ih =>
    obtain ⟨t, ht, rfl⟩ := Option.map_eq_some_iff.mp h
    have := ih ht
    rw [List.flatMap_cons, List.length_append, List.length_append, storedBytes,
      List.length_singleton, List.length_singleton]
    omega
  | case4 => cases h
  | case5 u hlow hhigh v s hv ih =>
    obtain ⟨t, ht, rfl⟩ := Option.map_eq_some_iff.mp h
    have := ih ht
    rw [List.length_append, length_utf8_surrogatePair hhigh hv]
    simp only [List.flatMap_cons, List.length_append, storedBytes, List.length_singleton]
    omega
  | case6 => cases h
  | case7 => cases h
  | case8 u s hlow hhigh ih =>
    obtain ⟨t, ht, rfl⟩ := Option.map_eq_some_iff.mp h
    have := ih ht
    have := one_le_length_utf8 u.value
    rw [List.flatMap_cons, List.length_append, List.length_append, storedBytes,
      List.length_singleton]
    omega

/-- Where the text begins with at least as many bytes as the reader stores for the first character,
the two can be compared character by character. -/
theorem map_append_eq_stored {m : Bytes} {c : JsonChar} {s : List JsonChar}
    (hle : (storedBytes c).length ≤ m.length) :
    (decode s).map (m ++ ·) = some ((c :: s).flatMap storedBytes) ↔
      m = storedBytes c ∧ decode s = some (s.flatMap storedBytes) := by
  rw [List.flatMap_cons]
  constructor
  · intro h
    obtain ⟨t, ht, heq⟩ := Option.map_eq_some_iff.mp h
    have hlen := congrArg List.length heq
    have htail := length_le_of_decode ht
    rw [List.length_append, List.length_append] at hlen
    obtain ⟨hm, rfl⟩ := List.append_inj heq (by omega)
    exact ⟨hm, ht⟩
  · rintro ⟨rfl, hs⟩
    rw [hs]
    rfl

theorem Understood.not_surrogate {u : CodeUnit} (h : Understood (.unicode u)) :
    ¬ u.isLowSurrogate ∧ ¬ u.isHighSurrogate := by
  have hval : u.value = 63 := h
  simp only [CodeUnit.isLowSurrogate, CodeUnit.isHighSurrogate, hval]
  decide

theorem not_understood_of_surrogate {u : CodeUnit} {s : List JsonChar}
    (hu : u.isLowSurrogate ∨ u.isHighSurrogate) : ¬ ∀ c ∈ JsonChar.unicode u :: s, Understood c := by
  intro h
  have := (h _ List.mem_cons_self).not_surrogate
  tauto

/-- The reader stores the text of a literal exactly when it understands every character. -/
theorem decode_eq_stored {s : List JsonChar} :
    decode s = some (s.flatMap storedBytes) ↔ ∀ c ∈ s, Understood c := by
  fun_induction decode s with
  | case1 => exact iff_of_true rfl (by simp)
  | case2 c hc s ih =>
    have hle : (storedBytes (.unescaped c hc)).length ≤ (String.utf8EncodeChar c).length :=
      Nat.le_refl _
    rw [map_append_eq_stored hle, ih, List.forall_mem_cons]
    exact and_congr_left fun _ => iff_of_true rfl trivial
  | case3 e s ih =>
    have hle : (storedBytes (.escape e)).length ≤ [e.meaning].length := Nat.le_refl _
    rw [map_append_eq_stored hle, ih, List.forall_mem_cons, storedBytes, List.singleton_inj,
      storedEscape_eq_meaning]
    rfl
  | case4 u s hlow => exact iff_of_false (by simp) (not_understood_of_surrogate (Or.inl hlow))
  | case5 u hlow hhigh v s hv ih =>
    refine iff_of_false ?_ (not_understood_of_surrogate (Or.inr hhigh))
    -- two question marks are fewer bytes than the four of the character
    intro h
    obtain ⟨t, ht, heq⟩ := Option.map_eq_some_iff.mp h
    have hlen := congrArg List.length heq
    have htail := length_le_of_decode ht
    rw [List.length_append, length_utf8_surrogatePair hhigh hv] at hlen
    simp only [List.flatMap_cons, List.length_append, storedBytes, List.length_singleton] at hlen
    omega
  | case6 u hlow hhigh v s hv =>
    exact iff_of_false (by simp) (not_understood_of_surrogate (Or.inr hhigh))
  | case7 u s hlow hhigh hs =>
    exact iff_of_false (by simp) (not_understood_of_surrogate (Or.inr hhigh))
  | case8 u s hlow hhigh ih =>
    have hle : (storedBytes (.unicode u)).length ≤ (utf8 u.value).length := one_le_length_utf8 _
    rw [map_append_eq_stored hle, ih, List.forall_mem_cons, storedBytes]
    refine and_congr_left fun _ => ⟨fun h => ?_, fun h => ?_⟩
    · exact utf8_eq_singleton (CodeUnit.isValidChar (eq_false_of_ne_true hlow)
        (eq_false_of_ne_true hhigh)) h
    · rw [Understood] at h
      rw [h]
      exact utf8_ascii (by decide)

/-- What the reader returns for a literal is its text and the cursor behind it, or a failure, exactly
when the buffer is too small for the bytes to store or every character is understood. -/
theorem serverReadJsonString_text (s : List JsonChar) (following : Bytes) (outSize : Nat) :
    (∀ out cursor, serverReadJsonString (encode s ++ following) outSize = .ok out cursor →
      decode s = some out.text ∧ cursor = following) ↔
      outSize ≤ (s.map storedSize).sum ∨ ∀ c ∈ s, Understood c := by
  rw [← flatMap_storedBytes_length, ← decode_eq_stored, ← Nat.not_lt, ← imp_iff_not_or]
  constructor
  · intro h hlt
    exact (h ⟨_, hlt⟩ following (serverReadJsonString_literal.mpr ⟨rfl, rfl⟩)).1
  · intro h out cursor hread
    obtain ⟨htext, hcursor⟩ := serverReadJsonString_literal.mp hread
    rw [htext]
    exact ⟨h (htext ▸ out.fits), hcursor⟩

/-- The literal `"caf\u00e9"`. -/
def cafe : List JsonChar :=
  [.unescaped 'c' (by decide), .unescaped 'a' (by decide), .unescaped 'f' (by decide),
    .unicode ⟨⟨ch '0', rfl⟩, ⟨ch '0', rfl⟩, ⟨ch 'e', rfl⟩, ⟨ch '9', rfl⟩⟩]

/-- The reader accepts it, in the buffer that the server has for the SQL, with another text. -/
theorem serverReadJsonString_cafe :
    encode cafe = bytes "\"caf\\u00e9\"" ∧ decode cafe = some (bytes "caf" ++ [0xC3, 0xA9]) ∧
    ∃ out : CStr MAX_SQL_LENGTH,
      serverReadJsonString (encode cafe ++ bytes "\x7d") MAX_SQL_LENGTH = .ok out (bytes "\x7d") ∧
      out.text = bytes "caf?" ∧ decode cafe ≠ some out.text :=
  ⟨by decide +kernel, by decide +kernel, ⟨bytes "caf?", by decide⟩, by decide +kernel, rfl,
    by decide +kernel⟩

end JungleDb
