import JungleDb.Sql.Grammar

/-!
# Reading back a statement that is printed

A statement can be printed with its keywords in any case and any white space between its tokens; the
quotes in a string are doubled. The tokenizer and the parser read the statement back.
-/

namespace JungleDb

open CString

/-! ## Printing -/

/-- The bytes of a string literal between its quotes. -/
def doubled (s : Bytes) : Bytes := s.flatMap fun c => if c = ch '\'' then [c, c] else [c]

theorem doubled_cons {c : UInt8} (hc : c ≠ ch '\'') (s : Bytes) :
    doubled (c :: s) = c :: doubled s := by
  rw [doubled, List.flatMap_cons, if_neg hc]
  rfl

/-- A string literal. -/
def quoted (s : Bytes) : Bytes := ch '\'' :: (doubled s ++ [ch '\''])

/-- The text is a spelling of the token. -/
def Token.Spelled (t : Token) (text : Bytes) : Prop :=
  match t.type with
  | .keyword => text.map toupper = t.value.text
  | .strLiteral => text = quoted t.value.text
  | _ => text = t.value.text

/-- The text is the tokens with white space between them. -/
inductive Printed : Tokens → Bytes → Prop
  | last {t : Token} {text : Bytes} : t.Spelled text → Printed [t] text
  | cons {t : Token} {text space rest : Bytes} {tokens : Tokens} : t.Spelled text → space ≠ [] →
      (∀ c ∈ space, isspace c = true) → Printed tokens rest →
      Printed (t :: tokens) (text ++ (space ++ rest))

/-! ## Classes of bytes -/

theorem isspace_eq_false_of_isalpha {c : UInt8} (h : (isalpha c || c == ch '_') = true) :
    isspace c = false := by
  rw [← Bool.not_eq_true]
  intro hspace
  simp only [isspace, isalpha, Bool.or_eq_true, Bool.and_eq_true, beq_iff_eq, decide_eq_true_eq,
    UInt8.le_iff_toNat_le, ← UInt8.toNat_inj] at h hspace
  have h32 : (32 : UInt8).toNat = 32 := rfl
  have h9 : (9 : UInt8).toNat = 9 := rfl
  have h13 : (13 : UInt8).toNat = 13 := rfl
  have h65 : (65 : UInt8).toNat = 65 := rfl
  have h97 : (97 : UInt8).toNat = 97 := rfl
  have h95 : (ch '_').toNat = 95 := rfl
  omega

theorem isdigit_eq_false_of_isalpha {c : UInt8} (h : (isalpha c || c == ch '_') = true) :
    isdigit c = false := by
  rw [← Bool.not_eq_true, isdigit_iff]
  intro hdigit
  simp only [isalpha, Bool.or_eq_true, Bool.and_eq_true, beq_iff_eq, decide_eq_true_eq,
    UInt8.le_iff_toNat_le, ← UInt8.toNat_inj] at h
  have h65 : (65 : UInt8).toNat = 65 := rfl
  have h97 : (97 : UInt8).toNat = 97 := rfl
  have h95 : (ch '_').toNat = 95 := rfl
  omega

theorem isWordByte_eq_false_of_isspace {c : UInt8} (h : isspace c = true) :
    isWordByte c = false := by
  rw [← Bool.not_eq_true]
  intro hword
  rw [isWordByte, isalnum, Bool.or_right_comm, Bool.or_eq_true] at hword
  rcases hword with hword | hword
  · rw [isspace_eq_false_of_isalpha hword] at h
    cases h
  · rw [isspace_eq_false_of_isdigit hword] at h
    cases h

/-- A byte that starts a word starts nothing else. -/
theorem tokenizeStep_word {c : UInt8} (h : (isalpha c || c == ch '_') = true) (rest : Bytes) :
    tokenizeStep c rest = wordToken (c :: rest) := by
  have hne : ∀ d : UInt8, (isalpha d || d == ch '_') = false → c ≠ d := by
    rintro d hd rfl
    rw [hd] at h
    cases h
  have hmarks : ∀ d ∈ marks, (isalpha d || d == ch '_') = false := by decide +kernel
  have hmark : c ∉ marks := fun hmem => hne c (hmarks c hmem) rfl
  have hdigit := isdigit_eq_false_of_isalpha h
  have hminus : (c == ch '-') = false := beq_eq_false_iff_ne.mpr (hne _ (by decide))
  have hplus : (c == ch '+') = false := beq_eq_false_iff_ne.mpr (hne _ (by decide))
  have hnumber : tokenizerIsNumericStart (c :: rest) = false := by
    rw [tokenizerIsNumericStart, hdigit, hminus, hplus]
    rfl
  rw [tokenizeStep_unmarked (isspace_eq_false_of_isalpha h) hmark, hnumber,
    if_neg Bool.false_ne_true, if_pos h]

/-- A byte that starts a number starts nothing else. -/
theorem tokenizeStep_number {c : UInt8} {rest : Bytes}
    (h : tokenizerIsNumericStart (c :: rest) = true) :
    tokenizeStep c rest = tokenOf .intLiteral (tokenizerReadNumber (c :: rest)) := by
  have hfirst : isdigit c = true ∨ c = ch '-' ∨ c = ch '+' := by
    simp only [tokenizerIsNumericStart, Bool.or_eq_true, Bool.and_eq_true, beq_iff_eq] at h
    exact h.imp_right And.left
  have hmarks : ∀ d ∈ marks, isdigit d = false := by decide +kernel
  have hmark : c ∉ marks := by
    intro hmem
    rcases hfirst with hdigit | rfl | rfl
    · rw [hmarks c hmem] at hdigit
      cases hdigit
    · exact absurd hmem (by decide)
    · exact absurd hmem (by decide)
  have hspace : isspace c = false := by
    rcases hfirst with hdigit | rfl | rfl
    · exact isspace_eq_false_of_isdigit hdigit
    · rfl
    · rfl
  rw [tokenizeStep_unmarked hspace hmark, if_pos h]

/-! ## Reading single tokens -/

/-- Bytes of the class, before a byte that is not, are read. -/
theorem readWhile_append {p : UInt8 → Bool} {tooLong : String} {text rest : Bytes}
    {buffer value : CStr MAX_TOKEN_VALUE} (htext : ∀ c ∈ text, p c = true)
    (hrest : ∀ c ∈ rest.head?, p c = false) (hvalue : value.text = buffer.text ++ text) :
    readWhile p tooLong buffer (text ++ rest) = .ok (value, rest) := by
  induction text generalizing buffer with
  | nil =>
    have hbuffer : value = buffer := CStr.ext (by rw [hvalue, List.append_nil])
    subst hbuffer
    cases rest with
    | nil => rfl
    | cons c rest =>
      rw [List.nil_append, readWhile, hrest c rfl]
      rfl
  | cons c text ih =>
    have hfits : (buffer.text ++ [c]).length < MAX_TOKEN_VALUE := by
      have := value.fits
      rw [hvalue] at this
      simp only [List.length_append, List.length_cons, List.length_nil] at this ⊢
      omega
    have hpush : buffer.push c = some ⟨buffer.text ++ [c], hfits⟩ := CStr.push_eq_some.mpr rfl
    rw [List.cons_append, readWhile, htext c List.mem_cons_self, if_pos rfl, bufferAppend, hpush]
    apply ih
    · exact fun d hd => htext d (List.mem_cons_of_mem c hd)
    · rw [hvalue, List.append_assoc]
      rfl

/-- A string literal is read back. -/
theorem readStringBody_doubled {s rest : Bytes} {buffer value : CStr MAX_TOKEN_VALUE}
    (hrest : ∀ c ∈ rest.head?, c ≠ ch '\'') (hvalue : value.text = buffer.text ++ s) :
    readStringBody buffer (doubled s ++ ch '\'' :: rest) = .ok (value, rest) := by
  induction s generalizing buffer with
  | nil =>
    have hbuffer : value = buffer := CStr.ext (by rw [hvalue, List.append_nil])
    subst hbuffer
    show readStringBody value (ch '\'' :: rest) = _
    cases rest with
    | nil => rfl
    | cons c rest =>
      rw [readStringBody, if_pos rfl]
      simp only [if_neg (hrest c rfl)]
  | cons c s ih =>
    have hfits : (buffer.text ++ [c]).length < MAX_TOKEN_VALUE := by
      have := value.fits
      rw [hvalue] at this
      simp only [List.length_append, List.length_cons, List.length_nil] at this ⊢
      omega
    have hpush : buffer.push c = some ⟨buffer.text ++ [c], hfits⟩ := CStr.push_eq_some.mpr rfl
    have hnext := @ih ⟨buffer.text ++ [c], hfits⟩
      (by rw [hvalue, List.append_assoc]; rfl)
    by_cases hc : c = ch '\''
    · subst hc
      show readStringBody buffer (ch '\'' :: ch '\'' :: (doubled s ++ ch '\'' :: rest)) = _
      rw [readStringBody, if_pos rfl]
      simp only [if_true, bufferAppend, hpush]
      exact hnext
    · rw [doubled_cons hc, List.cons_append, readStringBody.eq_def]
      simp only [if_neg hc, bufferAppend, hpush]
      exact hnext

/-- The text after a token: none, or white space. -/
def Delimited (rest : Bytes) : Prop := ∀ c ∈ rest.head?, isspace c = true

theorem Delimited.ne {rest : Bytes} (h : Delimited rest) {d : UInt8} (hd : isspace d = false) :
    rest.head? ≠ some d := by
  intro hhead
  rw [h d hhead] at hd
  cases hd

theorem fixedToken_eq (t : Token) (rest : Bytes) :
    fixedToken t.type t.value.text rest = .ok (some t, rest) := by
  rw [fixedToken, tokenizerAppendToken, utilsSafeStrcpy_text]
  rfl

theorem tokenOf_eq {read : Sql (CStr MAX_TOKEN_VALUE × Bytes)} (t : Token) {rest : Bytes}
    (h : read = .ok (t.value, rest)) : tokenOf t.type read = .ok (some t, rest) := by
  rw [tokenOf, h]
  exact fixedToken_eq t rest

theorem tokenizerReadWord_append {word : CStr MAX_TOKEN_VALUE} {rest : Bytes}
    (hword : IsWord word.text) (hrest : Delimited rest) :
    tokenizerReadWord (word.text ++ rest) = .ok (word, rest) := by
  apply readWhile_append
  · exact fun c hc => List.all_eq_true.mp hword.2 c hc
  · exact fun c hc => isWordByte_eq_false_of_isspace (hrest c hc)
  · rfl

theorem IsWord.cons {text : Bytes} (h : IsWord text) :
    ∃ c rest, text = c :: rest ∧ (isalpha c || c == ch '_') = true := by
  obtain ⟨hhead, -⟩ := h
  cases text with
  | nil => cases hhead
  | cons c rest => exact ⟨c, rest, rfl, hhead⟩

theorem IsWord.isspace {text : Bytes} (h : IsWord text) : ∀ c ∈ text, isspace c = false := by
  intro c hc
  cases hspace : CString.isspace c with
  | false => rfl
  | true =>
    have hword := List.all_eq_true.mp h.2 c hc
    rw [isWordByte_eq_false_of_isspace hspace] at hword
    cases hword

/-- A spelling that starts and ends with no white space and is read as the token. -/
structure Token.Reads (t : Token) (text : Bytes) : Prop where
  first : ∃ c tail, text = c :: tail ∧ isspace c = false ∧
    ∀ rest, Delimited rest → tokenizeStep c (tail ++ rest) = .ok (some t, rest)
  last : ∀ c ∈ text.getLast?, isspace c = false

/-- A word that is no keyword. -/
theorem reads_identifier {value : CStr MAX_TOKEN_VALUE} (h : IsName value.text) :
    Token.Reads ⟨.identifier, value⟩ value.text := by
  obtain ⟨hword, hkey⟩ := h
  obtain ⟨c, tail, htext, hstart⟩ := hword.cons
  refine ⟨⟨c, tail, htext, isspace_eq_false_of_isalpha hstart, ?_⟩, ?_⟩
  · intro rest hrest
    have hread := tokenizerReadWord_append hword hrest
    rw [htext, List.cons_append] at hread
    rw [tokenizeStep_word hstart, wordToken, hread]
    simp only [bind, Except.bind, hkey, Bool.false_eq_true, if_false, tokenizerAppendToken,
      utilsSafeStrcpy_text]
    rfl
  · exact fun d hd => hword.isspace d (List.mem_of_getLast? hd)

theorem isalpha_of_toupper {c : UInt8} (h : isalpha (toupper c) = true) : isalpha c = true := by
  unfold toupper at h
  split at h
  · rename_i hlower
    rw [isalpha, hlower, Bool.or_true]
  · exact h

theorem isalpha_of_mem_keywords {text : Bytes} (h : text ∈ keywords) :
    text ≠ [] ∧ text.length < MAX_TOKEN_VALUE ∧ text.map toupper = text ∧
      ∀ c ∈ text, isalpha c = true := by
  have hall : ∀ text ∈ keywords, text ≠ [] ∧ text.length < MAX_TOKEN_VALUE ∧
      text.map toupper = text ∧ ∀ c ∈ text, isalpha c = true := by decide +kernel
  exact hall text h

/-- A keyword in any case. -/
theorem reads_keyword {value : CStr MAX_TOKEN_VALUE} {text : Bytes} (h : value.text ∈ keywords)
    (htext : text.map toupper = value.text) : Token.Reads ⟨.keyword, value⟩ text := by
  obtain ⟨hne, hlen, hupper, halpha⟩ := isalpha_of_mem_keywords h
  have halpha' : ∀ c ∈ text, isalpha c = true := fun c hc =>
    isalpha_of_toupper (halpha _ (htext ▸ List.mem_map_of_mem hc))
  have hword : IsWord text := by
    constructor
    · cases text with
      | nil => exact absurd htext.symm hne
      | cons c text =>
        rw [List.head?_cons, Option.any_some, halpha' c List.mem_cons_self, Bool.true_or]
    · refine List.all_eq_true.mpr fun c hc => ?_
      rw [isWordByte, isalnum, halpha' c hc, Bool.true_or, Bool.true_or]
  have hkey : utilsIsSqlKeyword text = true := by
    refine List.any_eq_true.mpr ⟨value.text, h, ?_⟩
    rw [utilsEqualsIgnoreCase_iff, htext, hupper]
  have hfits : text.length < MAX_TOKEN_VALUE := by
    rw [← htext, List.length_map] at hlen
    exact hlen
  have hcopy : utilsToUpperCopy text MAX_TOKEN_VALUE = some value :=
    utilsSafeStrcpy_eq_some.mpr htext.symm
  obtain ⟨c, tail, hcons, hstart⟩ := hword.cons
  refine ⟨⟨c, tail, hcons, isspace_eq_false_of_isalpha hstart, ?_⟩, ?_⟩
  · intro rest hrest
    have hread : tokenizerReadWord (c :: (tail ++ rest)) = .ok (⟨text, hfits⟩, rest) := by
      rw [← List.cons_append, ← hcons]
      exact @tokenizerReadWord_append ⟨text, hfits⟩ rest hword hrest
    rw [tokenizeStep_word hstart, wordToken, hread]
    simp only [bind, Except.bind, hkey, if_true, hcopy, orError, tokenizerAppendToken,
      utilsSafeStrcpy_text]
  · exact fun d hd => hword.isspace d (List.mem_of_getLast? hd)

/-- A string literal of any bytes. -/
theorem reads_string (value : CStr MAX_TOKEN_VALUE) :
    Token.Reads ⟨.strLiteral, value⟩ (quoted value.text) := by
  refine ⟨⟨_, _, rfl, by decide, ?_⟩, ?_⟩
  · intro rest hrest
    have hread : tokenizerReadString (ch '\'' :: (doubled value.text ++ [ch '\''] ++ rest)) =
        .ok (value, rest) := by
      rw [tokenizerReadString, List.drop_one, List.tail_cons, List.append_assoc]
      apply readStringBody_doubled
      · exact fun c hc heq => hrest.ne (by decide) (heq ▸ hc)
      · rfl
    exact tokenOf_eq ⟨.strLiteral, value⟩ hread
  · intro c hc
    rw [quoted, ← List.cons_append, List.getLast?_concat] at hc
    obtain rfl := Option.some.inj hc
    decide

/-- An optional sign and digits. -/
theorem reads_number {value : CStr MAX_TOKEN_VALUE} (h : utilsIsInteger value.text = true) :
    Token.Reads ⟨.intLiteral, value⟩ value.text := by
  have hend : ∀ {rest : Bytes}, Delimited rest → ∀ c ∈ rest.head?, isdigit c = false := by
    intro rest hrest c hc
    cases hdigit : isdigit c with
    | false => rfl
    | true =>
      have hspace := hrest c hc
      rw [isspace_eq_false_of_isdigit hdigit] at hspace
      cases hspace
  cases htext : value.text with
  | nil =>
    rw [htext] at h
    cases h
  | cons c tail =>
    rw [htext, utilsIsInteger] at h
    by_cases hsign : c = ch '-' ∨ c = ch '+'
    · rw [if_pos hsign, Bool.and_eq_true, decide_eq_true_eq] at h
      obtain ⟨hne, hdigits⟩ := h
      have hall := List.all_eq_true.mp hdigits
      refine ⟨⟨c, tail, rfl, ?_, ?_⟩, ?_⟩
      · rcases hsign with rfl | rfl <;> decide
      · intro rest hrest
        have hstart : tokenizerIsNumericStart (c :: (tail ++ rest)) = true := by
          cases tail with
          | nil => exact absurd rfl hne
          | cons d tail =>
            rw [tokenizerIsNumericStart, List.cons_append, List.head?_cons, Option.any_some,
              hall d List.mem_cons_self, Bool.and_true, Bool.or_eq_true, Bool.or_eq_true,
              beq_iff_eq, beq_iff_eq]
            exact .inr hsign
        have hpush : (CStr.empty : CStr MAX_TOKEN_VALUE).push c = 
            some ⟨[c], Nat.lt_of_sub_eq_succ rfl⟩ :=
          CStr.push_eq_some.mpr rfl
        have hread : tokenizerReadNumber (c :: (tail ++ rest)) = .ok (value, rest) := by
          simp only [tokenizerReadNumber, if_pos hsign, bufferAppend, hpush]
          exact readWhile_append hall (hend hrest) htext
        rw [tokenizeStep_number hstart]
        exact tokenOf_eq ⟨.intLiteral, value⟩ hread
      · intro d hd
        have hmem : d ∈ tail := by
          cases tail with
          | nil => exact absurd rfl hne
          | cons e tail =>
            rw [List.getLast?_cons_cons] at hd
            exact List.mem_of_getLast? hd
        exact isspace_eq_false_of_isdigit (hall d hmem)
    · rw [if_neg hsign] at h
      have hall := List.all_eq_true.mp h
      refine ⟨⟨c, tail, rfl, isspace_eq_false_of_isdigit (hall c List.mem_cons_self), ?_⟩, ?_⟩
      · intro rest hrest
        have hstart : tokenizerIsNumericStart (c :: (tail ++ rest)) = true := by
          rw [tokenizerIsNumericStart, hall c List.mem_cons_self, Bool.true_or]
        have hread : tokenizerReadNumber (c :: (tail ++ rest)) = .ok (value, rest) := by
          simp only [tokenizerReadNumber, if_neg hsign]
          rw [← List.cons_append]
          apply readWhile_append hall (hend hrest)
          rw [htext, CStr.text_empty, List.nil_append]
        rw [tokenizeStep_number hstart]
        exact tokenOf_eq ⟨.intLiteral, value⟩ hread
      · exact fun d hd => isspace_eq_false_of_isdigit (hall d (List.mem_of_getLast? hd))

theorem tokenizeStep_operator {c : UInt8}
    (hc : c = ch '!' ∨ c = ch '<' ∨ c = ch '>' ∨ c = ch '=') (rest : Bytes) :
    tokenizeStep c rest =
      if (c = ch '!' ∨ c = ch '<' ∨ c = ch '>') ∧ rest.head? = some (ch '=') then
        fixedToken .operator [c, ch '='] (rest.drop 1)
      else fixedToken .operator [c] rest := by
  rcases hc with rfl | rfl | rfl | rfl <;> rfl

/-- An operator of one byte. -/
theorem reads_operatorByte {value : CStr MAX_TOKEN_VALUE} {c : UInt8} (htext : value.text = [c])
    (hc : c = ch '!' ∨ c = ch '<' ∨ c = ch '>' ∨ c = ch '=') :
    Token.Reads ⟨.operator, value⟩ value.text := by
  have hspace : isspace c = false := by
    rcases hc with rfl | rfl | rfl | rfl <;> rfl
  rw [htext]
  refine ⟨⟨c, [], rfl, hspace, ?_⟩, ?_⟩
  · intro rest hrest
    rw [List.nil_append, tokenizeStep_operator hc, if_neg (fun h => hrest.ne (by decide) h.2),
      ← htext]
    exact fixedToken_eq ⟨.operator, value⟩ rest
  · intro d hd
    obtain rfl := Option.some.inj hd
    exact hspace

/-- An operator. -/
theorem reads_operator {value : CStr MAX_TOKEN_VALUE} (h : value.text ∈ operators) :
    Token.Reads ⟨.operator, value⟩ value.text := by
  have htwo : ∀ c : UInt8, value.text = [c, ch '='] → isspace c = false →
      (c = ch '!' ∨ c = ch '<' ∨ c = ch '>') → Token.Reads ⟨.operator, value⟩ value.text := by
    intro c htext hspace hc
    have hc' : c = ch '!' ∨ c = ch '<' ∨ c = ch '>' ∨ c = ch '=' :=
      hc.imp_right fun h => h.imp_right Or.inl
    rw [htext]
    refine ⟨⟨c, [ch '='], rfl, hspace, ?_⟩, ?_⟩
    · intro rest hrest
      rw [tokenizeStep_operator hc', if_pos ⟨hc, rfl⟩, ← htext]
      exact fixedToken_eq ⟨.operator, value⟩ rest
    · intro d hd
      obtain rfl := Option.some.inj hd
      show isspace (ch '=') = false
      decide
  simp only [operators, List.map_cons, List.map_nil, List.mem_cons, List.not_mem_nil,
    or_false] at h
  rcases h with h | h | h | h | h | h
  · exact reads_operatorByte h (.inr (.inr (.inr rfl)))
  · exact htwo (ch '!') h (by decide) (by decide)
  · exact reads_operatorByte h (.inr (.inl rfl))
  · exact htwo (ch '<') h (by decide) (by decide)
  · exact reads_operatorByte h (.inr (.inr (.inl rfl)))
  · exact htwo (ch '>') h (by decide) (by decide)

/-- The tokens of one byte. -/
def punctuation : Tokens := [lparen, rparen, comma, semicolon, asterisk]

theorem reads_punctuation {t : Token} (h : t ∈ punctuation) : t.Reads t.value.text := by
  have hone : ∀ c : UInt8, t.value.text = [c] → isspace c = false →
      (∀ rest, tokenizeStep c rest = fixedToken t.type [c] rest) → t.Reads t.value.text := by
    intro c htext hspace hstep
    rw [htext]
    refine ⟨⟨c, [], rfl, hspace, ?_⟩, ?_⟩
    · intro rest _
      rw [List.nil_append, hstep, ← htext]
      exact fixedToken_eq t rest
    · intro d hd
      obtain rfl := Option.some.inj hd
      exact hspace
  simp only [punctuation, List.mem_cons, List.not_mem_nil, or_false] at h
  rcases h with rfl | rfl | rfl | rfl | rfl
  · exact hone (ch '(') rfl (by decide) fun _ => rfl
  · exact hone (ch ')') rfl (by decide) fun _ => rfl
  · exact hone (ch ',') rfl (by decide) fun _ => rfl
  · exact hone (ch ';') rfl (by decide) fun _ => rfl
  · exact hone (ch '*') rfl (by decide) fun _ => rfl

/-! ## Reading a text -/

/-- The tokens that a statement is printed with. -/
def Token.Readable (t : Token) : Prop :=
  match t.type with
  | .keyword => t.value.text ∈ keywords
  | .identifier => JungleDb.IsName t.value.text ∨ t = asterisk
  | .operator => t.value.text ∈ operators
  | .intLiteral => utilsIsInteger t.value.text = true
  | .strLiteral => True
  | _ => t ∈ punctuation

theorem Token.Readable.reads {t : Token} (h : t.Readable) {text : Bytes} (hs : t.Spelled text) :
    t.Reads text := by
  obtain ⟨type, value⟩ := t
  cases type with
  | keyword => exact reads_keyword h hs
  | identifier =>
    obtain rfl : text = value.text := hs
    rcases h with h | h
    · exact reads_identifier h
    · rw [h, show value = asterisk.value from congrArg Token.value h]
      exact reads_punctuation (by decide)
  | operator =>
    obtain rfl : text = value.text := hs
    exact reads_operator h
  | intLiteral =>
    obtain rfl : text = value.text := hs
    exact reads_number h
  | strLiteral =>
    obtain rfl : text = quoted value.text := hs
    exact reads_string value
  | lparen =>
    obtain rfl : text = value.text := hs
    exact reads_punctuation h
  | rparen =>
    obtain rfl : text = value.text := hs
    exact reads_punctuation h
  | comma =>
    obtain rfl : text = value.text := hs
    exact reads_punctuation h
  | semicolon =>
    obtain rfl : text = value.text := hs
    exact reads_punctuation h
  | unknown =>
    obtain rfl : text = value.text := hs
    exact reads_punctuation h

theorem tokenizerTokenizeSql_step {c : UInt8} {sql rest : Bytes} {token : Option Token}
    {tokens : Tokens} (hstep : tokenizeStep c sql = .ok (token, rest))
    (hrest : tokenizerTokenizeSql rest = .ok tokens) :
    tokenizerTokenizeSql (c :: sql) = .ok (token.toList ++ tokens) := by
  rw [tokenizerTokenizeSql_cons, hstep]
  show (tokenizerTokenizeSql rest).map (token.toList ++ ·) = _
  rw [hrest]
  rfl

theorem tokenizerTokenizeSql_space {space rest : Bytes} {tokens : Tokens}
    (hspace : ∀ c ∈ space, isspace c = true) (hrest : tokenizerTokenizeSql rest = .ok tokens) :
    tokenizerTokenizeSql (space ++ rest) = .ok tokens := by
  induction space with
  | nil => exact hrest
  | cons c space ih =>
    have hstep : tokenizeStep c (space ++ rest) = .ok (none, space ++ rest) := by
      rw [tokenizeStep, hspace c List.mem_cons_self]
      rfl
    exact tokenizerTokenizeSql_step hstep (ih fun d hd => hspace d (List.mem_cons_of_mem c hd))

/-- A token is read where it is spelled. -/
theorem Token.Reads.tokenize {t : Token} {text rest : Bytes} {tokens : Tokens} (h : t.Reads text)
    (hdelim : Delimited rest) (hrest : tokenizerTokenizeSql rest = .ok tokens) :
    tokenizerTokenizeSql (text ++ rest) = .ok (t :: tokens) := by
  obtain ⟨c, tail, rfl, -, hstep⟩ := h.first
  exact tokenizerTokenizeSql_step (hstep rest hdelim) hrest

/-- Every spelling of the token is read as the token. -/
def Token.Legible (t : Token) : Prop := ∀ text, t.Spelled text → t.Reads text

theorem Token.Readable.legible {t : Token} (h : t.Readable) : t.Legible := fun _ => h.reads

/-- The tokens of a printed text are read back. -/
theorem Printed.tokenize {tokens : Tokens} {text : Bytes} (h : Printed tokens text)
    (hlegible : ∀ t ∈ tokens, t.Legible) : tokenizerTokenizeSql text = .ok tokens := by
  induction h with
  | @last t text hs =>
    have hreads := hlegible t List.mem_cons_self text hs
    rw [← List.append_nil text]
    apply hreads.tokenize
    · intro c hc
      cases hc
    · rw [tokenizerTokenizeSql]
  | @cons t text space rest tokens hs hne hspace _ ih =>
    have hreads := hlegible t List.mem_cons_self text hs
    have hdelim : Delimited (space ++ rest) := by
      intro c hc
      cases space with
      | nil => exact absurd rfl hne
      | cons d space =>
        obtain rfl := Option.some.inj hc
        exact hspace d List.mem_cons_self
    apply hreads.tokenize hdelim
    apply tokenizerTokenizeSql_space hspace
    exact ih fun u hu => hlegible u (List.mem_cons_of_mem t hu)

/-- A printed text starts and ends with a token. -/
theorem Printed.ends {tokens : Tokens} {text : Bytes} (h : Printed tokens text)
    (hlegible : ∀ t ∈ tokens, t.Legible) :
    text ≠ [] ∧ (∀ c ∈ text.head?, isspace c = false) ∧
      ∀ c ∈ text.getLast?, isspace c = false := by
  induction h with
  | @last t text hs =>
    have hreads := hlegible t List.mem_cons_self text hs
    obtain ⟨c, tail, rfl, hc, -⟩ := hreads.first
    refine ⟨List.cons_ne_nil _ _, ?_, hreads.last⟩
    intro d hd
    obtain rfl := Option.some.inj hd
    exact hc
  | @cons t text space rest tokens hs _ _ _ ih =>
    have hreads := hlegible t List.mem_cons_self text hs
    obtain ⟨c, tail, rfl, hc, -⟩ := hreads.first
    obtain ⟨hne, -, hlast⟩ := ih fun u hu => hlegible u (List.mem_cons_of_mem t hu)
    refine ⟨List.cons_ne_nil _ _, ?_, ?_⟩
    · intro d hd
      obtain rfl := Option.some.inj hd
      exact hc
    · intro d hd
      rw [← List.append_assoc, List.getLast?_append_of_ne_nil _ hne] at hd
      exact hlast d hd

theorem utilsTrim_eq_self {text : Bytes} (hhead : ∀ c ∈ text.head?, isspace c = false)
    (hlast : ∀ c ∈ text.getLast?, isspace c = false) : utilsTrim text = text := by
  have hdrop : ∀ l : Bytes, (∀ c ∈ l.head?, isspace c = false) → l.dropWhile isspace = l := by
    intro l hl
    cases l with
    | nil => rfl
    | cons c l => exact List.dropWhile_cons_of_neg (by rw [hl c rfl]; exact Bool.false_ne_true)
  rw [utilsTrim, hdrop text.reverse (by rwa [List.head?_reverse]), List.reverse_reverse,
    hdrop text hhead]

theorem Printed.tokenizerTokenize {tokens : Tokens} {text : Bytes} (h : Printed tokens text)
    (hlegible : ∀ t ∈ tokens, t.Legible) : tokenizerTokenize text = .ok tokens := by
  obtain ⟨hne, hhead, hlast⟩ := h.ends hlegible
  simp only [JungleDb.tokenizerTokenize, utilsTrim_eq_self hhead hlast, if_neg hne]
  exact h.tokenize hlegible

/-! ## Statements within the limits -/

/-- The statement can be printed: its names are names, its operator is one of the six, its integer
literals are a sign and digits, and an INSERT has columns. The other limits are those of the
types. -/
structure SqlStatement.Printable (stmt : SqlStatement) : Prop where
  names : ∀ name ∈ stmt.identifiers, IsName name.text
  operator : ∀ clause ∈ stmt.clause, clause.op.text ∈ operators
  integers : ∀ value ∈ stmt.literals, value.2 = .int → utilsIsInteger value.1.text = true
  columns : ∀ insert, stmt = .insert insert → insert.items.1 ≠ []

theorem readable_literalToken {value : Literal × ValueKind}
    (h : value.2 = .int → utilsIsInteger value.1.text = true) : (literalToken value).Readable := by
  obtain ⟨v, kind⟩ := value
  cases kind with
  | int => exact h rfl
  | string => trivial

theorem readable_nameToken {name : Identifier} (h : IsName name.text) :
    (nameToken name).Readable := .inl h

theorem readable_keyword {text : String} (h : (lit MAX_TOKEN_VALUE text).text ∈ keywords) :
    (keyword text).Readable := h

theorem readable_punctuation {t : Token} (h : t ∈ [lparen, rparen, comma, semicolon]) :
    t.Readable := by
  simp only [List.mem_cons, List.not_mem_nil, or_false] at h
  rcases h with rfl | rfl | rfl | rfl <;> exact List.mem_of_elem_eq_true rfl

theorem readable_commaSeparated {tokens : Tokens} (h : ∀ t ∈ tokens, t.Readable) :
    ∀ t ∈ commaSeparated tokens, t.Readable := by
  intro t ht
  rcases mem_commaSeparated ht with rfl | ht
  · exact readable_punctuation (by decide)
  · exact h t ht

theorem readable_names {names : List Identifier} (h : ∀ name ∈ names, IsName name.text) :
    ∀ t ∈ commaSeparated (names.map nameToken), t.Readable := by
  apply readable_commaSeparated
  intro t ht
  obtain ⟨name, hname, rfl⟩ := List.mem_map.mp ht
  exact readable_nameToken (h name hname)

theorem readable_literals {values : List (Literal × ValueKind)}
    (h : ∀ value ∈ values, value.2 = .int → utilsIsInteger value.1.text = true) :
    ∀ t ∈ commaSeparated (values.map literalToken), t.Readable := by
  apply readable_commaSeparated
  intro t ht
  obtain ⟨value, hvalue, rfl⟩ := List.mem_map.mp ht
  exact readable_literalToken (h value hvalue)

theorem readable_whereTokens {clause : Option WhereClause}
    (hnames : ∀ name ∈ clause.toList.map WhereClause.column, IsName name.text)
    (hop : ∀ c ∈ clause, c.op.text ∈ operators)
    (hvalues : ∀ value ∈ clause.toList.map fun c => (c.value, c.valueKind),
      value.2 = ValueKind.int → utilsIsInteger value.1.text = true) :
    ∀ t ∈ whereTokens clause, t.Readable := by
  cases clause with
  | none => exact List.forall_mem_nil _
  | some c =>
    simp only [whereTokens, WhereClause.tokens, List.forall_mem_cons]
    exact ⟨readable_keyword (by decide), readable_nameToken (hnames _ List.mem_cons_self),
      hop c rfl, readable_literalToken (hvalues _ List.mem_cons_self), List.forall_mem_nil _⟩

theorem Final.readable {final : Tokens} (h : Final final) : ∀ t ∈ final, t.Readable := by
  intro t ht
  rcases h with rfl | rfl
  · cases ht
  · rw [List.mem_singleton.mp ht]
    exact readable_punctuation (by decide)

/-- The tokens of a statement that can be printed. -/
theorem SqlStatement.Printable.readable {stmt : SqlStatement} (h : stmt.Printable) :
    ∀ t ∈ stmt.tokens, t.Readable := by
  have hlparen : lparen.Readable := readable_punctuation (by decide)
  have hrparen : rparen.Readable := readable_punctuation (by decide)
  cases stmt with
  | insert stmt =>
    have htable := readable_nameToken (h.names _ List.mem_cons_self)
    have hcolumns := readable_names fun name hname => h.names name (List.mem_cons_of_mem _ hname)
    have hvalues := readable_literals h.integers
    simp only [SqlStatement.tokens, List.forall_mem_append, List.forall_mem_cons]
    exact ⟨⟨readable_keyword (by decide), readable_keyword (by decide), htable, hlparen,
        List.forall_mem_nil _⟩,
      hcolumns,
      ⟨hrparen, readable_keyword (by decide), hlparen, List.forall_mem_nil _⟩,
      hvalues, hrparen, List.forall_mem_nil _⟩
  | select stmt =>
    have htable := readable_nameToken (h.names _ List.mem_cons_self)
    have hnames := fun name hname => h.names name (List.mem_cons_of_mem _ hname)
    have hwhere := readable_whereTokens
      (fun name hname => hnames name (List.mem_append_right _ hname)) h.operator h.integers
    have hcolumns : ∀ t ∈ stmt.columnTokens, t.Readable := by
      unfold SelectStatement.columnTokens
      split
      · intro t ht
        rw [List.mem_singleton.mp ht]
        exact Or.inr rfl
      · exact readable_names fun name hname => hnames name (List.mem_append_left _ hname)
    simp only [SqlStatement.tokens, List.forall_mem_append, List.forall_mem_cons]
    exact ⟨readable_keyword (by decide), hcolumns, readable_keyword (by decide), htable, hwhere⟩
  | delete stmt =>
    have htable := readable_nameToken (h.names _ List.mem_cons_self)
    have hwhere := readable_whereTokens
      (fun name hname => h.names name (List.mem_cons_of_mem _ hname)) h.operator h.integers
    simp only [SqlStatement.tokens, List.forall_mem_cons]
    exact ⟨readable_keyword (by decide), readable_keyword (by decide), htable, hwhere⟩

theorem SqlStatement.Printable.writable {stmt : SqlStatement} (h : stmt.Printable) :
    stmt.Writable := by
  cases stmt with
  | insert stmt => exact h.columns stmt rfl
  | select stmt =>
    intro name hname hasterisk
    have hmem : name ∈ stmt.columns.1 := List.mem_of_head? hname
    obtain ⟨⟨-, hword⟩, -⟩ := h.names name
      (List.mem_cons_of_mem _ (List.mem_append_left _ hmem))
    rw [show name.text = asterisk.value.text from congrArg (fun t => t.value.text) hasterisk]
      at hword
    exact absurd hword (by decide)
  | delete _ => trivial

/-- A statement that is printed, with or without a semicolon at its end, is read back. -/
theorem sql_roundTrip {stmt : SqlStatement} (h : stmt.Printable) {final : Tokens}
    (hfinal : Final final) {sql : Bytes} (hsql : Printed (stmt.tokens ++ final) sql) :
    tokenizerTokenize sql = .ok (stmt.tokens ++ final) ∧
      parserParse (stmt.tokens ++ final) = .ok stmt := by
  constructor
  · have hall := List.forall_mem_append.mpr ⟨h.readable, hfinal.readable⟩
    exact hsql.tokenizerTokenize fun t ht => (hall t ht).legible
  · exact parserParse_ok.mpr ⟨h.writable, final, hfinal, rfl⟩

/-- A DELETE with a quote in its string. -/
theorem sql_roundTrip_delete :
    let stmt := SqlStatement.delete
      ⟨lit _ "t", some ⟨lit _ "a", lit _ "!=", lit _ "it's", .string⟩⟩
    let sql := bytes "delete From t\twhere a  != 'it''s' ;"
    tokenizerTokenize sql = .ok (stmt.tokens ++ [semicolon]) ∧
      parserParse (stmt.tokens ++ [semicolon]) = .ok stmt := by
  intro stmt sql
  have hprintable : stmt.Printable := by
    refine ⟨?_, ?_, ?_, nofun⟩
    · show ∀ name ∈ [lit MAX_IDENTIFIER_LEN "t", lit MAX_IDENTIFIER_LEN "a"], IsName name.text
      unfold IsName IsWord
      decide
    · show ∀ clause ∈ some (WhereClause.mk _ (lit 4 "!=") _ _), clause.op.text ∈ operators
      intro clause hclause
      obtain rfl := Option.some.inj hclause
      decide
    · intro value hvalue hint
      obtain rfl := List.mem_singleton.mp hvalue
      cases hint
  have hsql : sql = bytes "delete" ++ (bytes " " ++ (bytes "From" ++ (bytes " " ++ (bytes "t" ++
      (bytes "\t" ++ (bytes "where" ++ (bytes " " ++ (bytes "a" ++ (bytes "  " ++ (bytes "!=" ++
      (bytes " " ++ (bytes "'it''s'" ++ (bytes " " ++ bytes ";"))))))))))))) := by decide
  refine sql_roundTrip hprintable (.inr rfl) ?_
  rw [hsql]
  iterate 7 refine .cons rfl (by decide +kernel) (by decide +kernel) ?_
  exact .last rfl

end JungleDb
