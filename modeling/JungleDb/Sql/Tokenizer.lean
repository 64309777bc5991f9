import JungleDb.Sql.Utils

/-!
# The tokenizer of `tokenizer.c`

Every function takes the text that is left to read. A failing function returns the text that
`tokenizer_get_last_error` gives afterwards.
-/

namespace JungleDb

open CString

inductive TokenType
  | keyword
  | identifier
  | intLiteral
  | strLiteral
  | operator
  | lparen
  | rparen
  | comma
  | semicolon
  | unknown
  deriving DecidableEq, Repr

structure Token where
  type : TokenType
  value : CStr MAX_TOKEN_VALUE
  deriving DecidableEq

/-- An operation of the SQL front end: its result or the text of its error. -/
abbrev Sql (α : Type) := Except (CStr MESSAGE_LEN) α

/-- The text of an error. -/
def message (s : String) : CStr MESSAGE_LEN := lit MESSAGE_LEN s

/-- The result, or the error `text` where there is none. -/
def orError {α : Type} (text : String) : Option α → Sql α
  | some a => .ok a
  | none => .error (message text)

/-- `buffer[length++] = c;` with the check on the size of the buffer. -/
def bufferAppend (tooLong : String) (buffer : CStr MAX_TOKEN_VALUE) (c : UInt8) :
    Sql (CStr MAX_TOKEN_VALUE) :=
  orError tooLong (buffer.push c)

/-- The loop of `tokenizer_read_word` and `tokenizer_read_number`: the bytes of a class. -/
def readWhile (p : UInt8 → Bool) (tooLong : String) (buffer : CStr MAX_TOKEN_VALUE) :
    Bytes → Sql (CStr MAX_TOKEN_VALUE × Bytes)
  | [] => .ok (buffer, [])
  | c :: sql =>
    if p c then do
      let buffer ← bufferAppend tooLong buffer c
      readWhile p tooLong buffer sql
    else .ok (buffer, c :: sql)

/-- The bytes of a word. -/
def isWordByte (c : UInt8) : Bool := isalnum c || c == ch '_'

/-- `tokenizer_read_word`. -/
def tokenizerReadWord (sql : Bytes) : Sql (CStr MAX_TOKEN_VALUE × Bytes) :=
  readWhile isWordByte "Identifier is too long." .empty sql

/-- The loop of `tokenizer_read_string`, after the opening quote. -/
def readStringBody (buffer : CStr MAX_TOKEN_VALUE) : Bytes → Sql (CStr MAX_TOKEN_VALUE × Bytes)
  | [] => .error (message "Unterminated string literal.")
  | c :: sql =>
    if c = ch '\'' then
      match sql with
      | d :: sql =>
        if d = ch '\'' then do
          let buffer ← bufferAppend "String literal is too long." buffer c
          readStringBody buffer sql
        else .ok (buffer, d :: sql)
      | [] => .ok (buffer, [])
    else do
      let buffer ← bufferAppend "String literal is too long." buffer c
      readStringBody buffer sql

/-- `tokenizer_read_string`. -/
def tokenizerReadString (sql : Bytes) : Sql (CStr MAX_TOKEN_VALUE × Bytes) :=
  readStringBody .empty (sql.drop 1)

/-- `tokenizer_read_number`. -/
def tokenizerReadNumber (sql : Bytes) : Sql (CStr MAX_TOKEN_VALUE × Bytes) := do
  let tooLong := "Integer literal is too long."
  match sql with
  | [] => .ok (.empty, [])
  | c :: rest =>
    if c = ch '-' ∨ c = ch '+' then
      let buffer ← bufferAppend tooLong .empty c
      readWhile isdigit tooLong buffer rest
    else readWhile isdigit tooLong .empty sql

/-- `tokenizer_is_numeric_start`. -/
def tokenizerIsNumericStart : Bytes → Bool
  | [] => false
  | c :: rest => isdigit c || ((c == ch '-' || c == ch '+') && rest.head?.any isdigit)

/-- `tokenizer_append_token`: the token that is appended. -/
def tokenizerAppendToken (type : TokenType) (value : Bytes) : Sql Token := do
  let value ← orError "Token value is too long." (utilsSafeStrcpy MAX_TOKEN_VALUE value)
  .ok ⟨type, value⟩

/-- A token that one of the readers delivers. -/
def tokenOf (type : TokenType) (read : Sql (CStr MAX_TOKEN_VALUE × Bytes)) :
    Sql (Option Token × Bytes) := do
  let (value, rest) ← read
  let token ← tokenizerAppendToken type value.text
  .ok (some token, rest)

/-- A word: a keyword in upper case, or an identifier. -/
def wordToken (sql : Bytes) : Sql (Option Token × Bytes) := do
  let (word, rest) ← tokenizerReadWord sql
  if utilsIsSqlKeyword word.text then
    let upper ← orError "Failed to tokenize SQL." (utilsToUpperCopy word.text MAX_TOKEN_VALUE)
    let token ← tokenizerAppendToken .keyword upper.text
    .ok (some token, rest)
  else
    let token ← tokenizerAppendToken .identifier word.text
    .ok (some token, rest)

/-- A token of the bytes `value`, before `rest`. -/
def fixedToken (type : TokenType) (value rest : Bytes) : Sql (Option Token × Bytes) := do
  let token ← tokenizerAppendToken type value
  .ok (some token, rest)

/-- The body of the loop of `tokenizer_tokenize_sql` at the byte `c`: the token appended, none for
white space, and the text after it. -/
def tokenizeStep (c : UInt8) (rest : Bytes) : Sql (Option Token × Bytes) :=
  if isspace c then .ok (none, rest)
  else if c = ch '(' then fixedToken .lparen [c] rest
  else if c = ch ')' then fixedToken .rparen [c] rest
  else if c = ch ',' then fixedToken .comma [c] rest
  else if c = ch ';' then fixedToken .semicolon [c] rest
  else if c = ch '*' then fixedToken .identifier [c] rest
  else if c = ch '\'' then tokenOf .strLiteral (tokenizerReadString (c :: rest))
  else if c = ch '!' ∨ c = ch '<' ∨ c = ch '>' ∨ c = ch '=' then
    if (c = ch '!' ∨ c = ch '<' ∨ c = ch '>') ∧ rest.head? = some (ch '=') then
      fixedToken .operator [c, ch '='] (rest.drop 1)
    else fixedToken .operator [c] rest
  else if tokenizerIsNumericStart (c :: rest) then
    tokenOf .intLiteral (tokenizerReadNumber (c :: rest))
  else if isalpha c || c == ch '_' then wordToken (c :: rest)
  else fixedToken .unknown [c] rest

theorem orError_ok {α : Type} {text : String} {o : Option α} {a : α} :
    orError text o = .ok a ↔ o = some a := by
  cases o <;> simp [orError]

theorem Sql.bind_ok {α β : Type} {x : Sql α} {f : α → Sql β} {b : β} :
    (x >>= f) = .ok b ↔ ∃ a, x = .ok a ∧ f a = .ok b := by
  cases x <;> simp [bind, Except.bind]

theorem Sql.bind_error {α β : Type} {x : Sql α} {f : α → Sql β} {e : CStr MESSAGE_LEN} :
    (x >>= f) = .error e ↔ x = .error e ∨ ∃ a, x = .ok a ∧ f a = .error e := by
  cases x <;> simp [bind, Except.bind]

theorem orError_error {α : Type} {text : String} {o : Option α} {e : CStr MESSAGE_LEN}
    (h : orError text o = .error e) : e = message text := by
  cases o with
  | none => exact (Except.error.inj h).symm
  | some a => cases h

/-- The bytes of the class that stand first are read, and the text stops being of the class. -/
theorem readWhile_ok {p : UInt8 → Bool} {tooLong : String} {sql : Bytes}
    {buffer value : CStr MAX_TOKEN_VALUE} {rest : Bytes}
    (h : readWhile p tooLong buffer sql = .ok (value, rest)) :
    value.text = buffer.text ++ sql.takeWhile p ∧ rest = sql.dropWhile p := by
  induction sql generalizing buffer with
  | nil =>
    obtain ⟨rfl, rfl⟩ := Prod.mk.inj (Except.ok.inj h)
    simp
  | cons c sql ih =>
    rw [readWhile] at h
    split at h
    · rename_i hc
      obtain ⟨buffer', hpush, h⟩ := Sql.bind_ok.mp h
      obtain ⟨hvalue, hrest⟩ := ih h
      rw [CStr.push_eq_some.mp (orError_ok.mp hpush)] at hvalue
      rw [List.takeWhile_cons_of_pos hc, List.dropWhile_cons_of_pos hc]
      exact ⟨by simpa using hvalue, hrest⟩
    · rename_i hc
      obtain ⟨rfl, rfl⟩ := Prod.mk.inj (Except.ok.inj h)
      rw [List.takeWhile_cons_of_neg hc, List.dropWhile_cons_of_neg hc]
      simp

/-- The only error is that the buffer is full. -/
theorem readWhile_error {p : UInt8 → Bool} {tooLong : String} {sql : Bytes}
    {buffer : CStr MAX_TOKEN_VALUE} {e : CStr MESSAGE_LEN}
    (h : readWhile p tooLong buffer sql = .error e) : e = message tooLong := by
  induction sql generalizing buffer with
  | nil => cases h
  | cons c sql ih =>
    rw [readWhile] at h
    split at h
    · rcases Sql.bind_error.mp h with h | ⟨buffer', -, h⟩
      · exact orError_error h
      · exact ih h
    · cases h

theorem readStringBody_length {sql : Bytes} {buffer value : CStr MAX_TOKEN_VALUE} {rest : Bytes}
    (h : readStringBody buffer sql = .ok (value, rest)) : rest.length ≤ sql.length := by
  fun_induction readStringBody buffer sql with
  | case1 => cases h
  | case2 buffer sql ih =>
    obtain ⟨buffer', -, h⟩ := Sql.bind_ok.mp h
    have := ih buffer' h
    simp only [List.length_cons]
    omega
  | case3 buffer d sql hd =>
    obtain ⟨-, rfl⟩ := Prod.mk.inj (Except.ok.inj h)
    simp
  | case4 buffer =>
    obtain ⟨-, rfl⟩ := Prod.mk.inj (Except.ok.inj h)
    simp
  | case5 buffer c sql hc ih =>
    obtain ⟨buffer', -, h⟩ := Sql.bind_ok.mp h
    have := ih buffer' h
    rw [List.length_cons]
    omega

/-- A number takes at least one byte where one starts. -/
theorem tokenizerReadNumber_length {c : UInt8} {sql : Bytes} {value : CStr MAX_TOKEN_VALUE}
    {rest : Bytes} (hstart : tokenizerIsNumericStart (c :: sql) = true)
    (h : tokenizerReadNumber (c :: sql) = .ok (value, rest)) : rest.length ≤ sql.length := by
  unfold tokenizerReadNumber at h
  simp only at h
  split at h
  · obtain ⟨buffer, -, h⟩ := Sql.bind_ok.mp h
    rw [(readWhile_ok h).2]
    exact (List.dropWhile_suffix _).length_le
  · rename_i hsign
    have hdigit : isdigit c = true := by
      simp only [tokenizerIsNumericStart, Bool.or_eq_true, Bool.and_eq_true, beq_iff_eq] at hstart
      exact hstart.resolve_right fun h => hsign h.1
    rw [(readWhile_ok h).2, List.dropWhile_cons_of_pos hdigit]
    exact (List.dropWhile_suffix _).length_le

theorem tokenizerReadWord_length {c : UInt8} {sql : Bytes} {value : CStr MAX_TOKEN_VALUE}
    {rest : Bytes} (hstart : (isalpha c || c == ch '_') = true)
    (h : tokenizerReadWord (c :: sql) = .ok (value, rest)) : rest.length ≤ sql.length := by
  have hword : isWordByte c = true := by
    simp only [isWordByte, isalnum, Bool.or_eq_true] at hstart ⊢
    exact hstart.imp_left .inl
  rw [(readWhile_ok h).2, List.dropWhile_cons_of_pos hword]
  exact (List.dropWhile_suffix _).length_le

theorem fixedToken_ok {type : TokenType} {value rest rest' : Bytes} {token : Option Token}
    (h : fixedToken type value rest = .ok (token, rest')) :
    rest' = rest ∧ ∃ v, token = some ⟨type, v⟩ ∧ v.text = value := by
  unfold fixedToken tokenizerAppendToken at h
  obtain ⟨t, ht, h⟩ := Sql.bind_ok.mp h
  obtain ⟨v, hv, ht⟩ := Sql.bind_ok.mp ht
  obtain ⟨rfl, rfl⟩ := Prod.mk.inj (Except.ok.inj h)
  obtain rfl := Except.ok.inj ht
  exact ⟨rfl, v, rfl, utilsSafeStrcpy_eq_some.mp (orError_ok.mp hv)⟩

theorem tokenOf_ok {type : TokenType} {read : Sql (CStr MAX_TOKEN_VALUE × Bytes)} {rest : Bytes}
    {token : Option Token} (h : tokenOf type read = .ok (token, rest)) :
    ∃ value, read = .ok (value, rest) ∧ token = some ⟨type, value⟩ := by
  obtain ⟨⟨value, rest'⟩, hread, h⟩ := Sql.bind_ok.mp h
  simp only [tokenizerAppendToken, utilsSafeStrcpy_text] at h
  obtain ⟨rfl, rfl⟩ := Prod.mk.inj (Except.ok.inj h)
  exact ⟨value, hread, rfl⟩

theorem wordToken_ok {sql rest : Bytes} {token : Option Token}
    (h : wordToken sql = .ok (token, rest)) :
    ∃ word, tokenizerReadWord sql = .ok (word, rest) ∧ ∃ t, token = some t ∧
      if utilsIsSqlKeyword word.text then t.type = .keyword ∧ t.value.text = word.text.map toupper
      else t = ⟨.identifier, word⟩ := by
  obtain ⟨⟨word, rest'⟩, hread, h⟩ := Sql.bind_ok.mp h
  simp only at h
  split at h
  · rename_i hkey
    obtain ⟨upper, hupper, h⟩ := Sql.bind_ok.mp h
    unfold tokenizerAppendToken at h
    rw [utilsSafeStrcpy_text] at h
    obtain ⟨rfl, rfl⟩ := Prod.mk.inj (Except.ok.inj h)
    refine ⟨word, hread, _, rfl, ?_⟩
    rw [if_pos hkey]
    exact ⟨rfl, utilsSafeStrcpy_eq_some.mp (orError_ok.mp hupper)⟩
  · rename_i hkey
    unfold tokenizerAppendToken at h
    rw [utilsSafeStrcpy_text] at h
    obtain ⟨rfl, rfl⟩ := Prod.mk.inj (Except.ok.inj h)
    refine ⟨word, hread, _, rfl, ?_⟩
    rw [if_neg hkey]

/-- The bytes that are a token, or start one, by themselves. -/
def marks : List UInt8 :=
  [ch '(', ch ')', ch ',', ch ';', ch '*', ch '\'', ch '!', ch '<', ch '>', ch '=']

/-- A byte that is neither white space nor a mark is left to the last branches of the loop. -/
theorem tokenizeStep_unmarked {c : UInt8} (hspace : isspace c = false) (hmark : c ∉ marks)
    (rest : Bytes) :
    tokenizeStep c rest =
      if tokenizerIsNumericStart (c :: rest) then
        tokenOf .intLiteral (tokenizerReadNumber (c :: rest))
      else if isalpha c || c == ch '_' then wordToken (c :: rest)
      else fixedToken .unknown [c] rest := by
  simp only [marks, List.mem_cons, List.not_mem_nil, or_false, not_or] at hmark
  obtain ⟨hlparen, hrparen, hcomma, hsemicolon, hasterisk, hquote, hops⟩ := hmark
  rw [tokenizeStep, hspace, if_neg Bool.false_ne_true, if_neg hlparen, if_neg hrparen,
    if_neg hcomma, if_neg hsemicolon, if_neg hasterisk, if_neg hquote]
  apply if_neg
  simp only [not_or]
  exact hops

/-- The tokens of one byte that have a type of their own. -/
def brackets : List (TokenType × UInt8) :=
  [(.lparen, ch '('), (.rparen, ch ')'), (.comma, ch ','), (.semicolon, ch ';')]

/-- What one turn of the loop can do. -/
theorem tokenizeStep_cases {c : UInt8} {sql : Bytes} {motive : Sql (Option Token × Bytes) → Prop}
    (space : isspace c = true → motive (.ok (none, sql)))
    (bracket : ∀ type, (type, c) ∈ brackets → motive (fixedToken type [c] sql))
    (asterisk : c = ch '*' → motive (fixedToken .identifier [c] sql))
    (string : c = ch '\'' → motive (tokenOf .strLiteral (tokenizerReadString (c :: sql))))
    (twoBytes : c = ch '!' ∨ c = ch '<' ∨ c = ch '>' → sql.head? = some (ch '=') →
      motive (fixedToken .operator [c, ch '='] (sql.drop 1)))
    (oneByte : c = ch '!' ∨ c = ch '<' ∨ c = ch '>' ∨ c = ch '=' →
      motive (fixedToken .operator [c] sql))
    (number : tokenizerIsNumericStart (c :: sql) = true →
      motive (tokenOf .intLiteral (tokenizerReadNumber (c :: sql))))
    (word : (isalpha c || c == ch '_') = true → motive (wordToken (c :: sql)))
    (unknown : isspace c = false → c ∉ marks → isdigit c = false →
      (isalpha c || c == ch '_') = false → motive (fixedToken .unknown [c] sql)) :
    motive (tokenizeStep c sql) := by
  by_cases hspace : isspace c = true
  · rw [tokenizeStep, if_pos hspace]
    exact space hspace
  by_cases hmark : c ∈ marks
  · unfold tokenizeStep
    rw [if_neg hspace]
    refine iteInduction (fun h => bracket .lparen (h ▸ by decide)) fun hlparen => ?_
    refine iteInduction (fun h => bracket .rparen (h ▸ by decide)) fun hrparen => ?_
    refine iteInduction (fun h => bracket .comma (h ▸ by decide)) fun hcomma => ?_
    refine iteInduction (fun h => bracket .semicolon (h ▸ by decide)) fun hsemicolon => ?_
    refine iteInduction asterisk fun hasterisk => ?_
    refine iteInduction string fun hquote => ?_
    have hop : c = ch '!' ∨ c = ch '<' ∨ c = ch '>' ∨ c = ch '=' := by
      simpa [marks, hlparen, hrparen, hcomma, hsemicolon, hasterisk, hquote] using hmark
    rw [if_pos hop]
    exact iteInduction (fun h => twoBytes h.1 h.2) fun _ => oneByte hop
  · rw [tokenizeStep_unmarked (Bool.not_eq_true _ ▸ hspace) hmark]
    refine iteInduction number fun hnumber => ?_
    refine iteInduction word fun hword => ?_
    rw [Bool.not_eq_true] at hspace hnumber hword
    rw [tokenizerIsNumericStart, Bool.or_eq_false_iff] at hnumber
    exact unknown hspace hmark hnumber.1 hword

/-- One turn of the loop reads at least one byte. -/
theorem tokenizeStep_length {c : UInt8} {sql rest : Bytes} {token : Option Token}
    (h : tokenizeStep c sql = .ok (token, rest)) : rest.length ≤ sql.length := by
  revert h
  apply tokenizeStep_cases (c := c)
    (motive := fun read => read = .ok (token, rest) → rest.length ≤ sql.length)
  case space =>
    intro _ h
    rw [(Prod.mk.inj (Except.ok.inj h)).2]
  case bracket =>
    intro type _ h
    rw [(fixedToken_ok h).1]
  case asterisk =>
    intro _ h
    rw [(fixedToken_ok h).1]
  case string =>
    intro _ h
    obtain ⟨value, hread, -⟩ := tokenOf_ok h
    exact readStringBody_length hread
  case twoBytes =>
    intro _ _ h
    rw [(fixedToken_ok h).1, List.length_drop]
    exact Nat.sub_le _ _
  case oneByte =>
    intro _ h
    rw [(fixedToken_ok h).1]
  case number =>
    intro hstart h
    obtain ⟨value, hread, -⟩ := tokenOf_ok h
    exact tokenizerReadNumber_length hstart hread
  case word =>
    intro hstart h
    obtain ⟨word, hread, -⟩ := wordToken_ok h
    exact tokenizerReadWord_length hstart hread
  case unknown =>
    intro _ _ _ _ h
    rw [(fixedToken_ok h).1]

/-- `tokenizer_tokenize_sql`. -/
def tokenizerTokenizeSql : Bytes → Sql (List Token)
  | [] => .ok []
  | c :: sql =>
    match h : tokenizeStep c sql with
    | .error e => .error e
    | .ok (token, rest) =>
      have : rest.length ≤ sql.length := tokenizeStep_length h
      match tokenizerTokenizeSql rest with
      | .error e => .error e
      | .ok tokens => .ok (token.toList ++ tokens)
termination_by sql => sql.length

/-- The turn at the first byte, and the others. -/
theorem tokenizerTokenizeSql_cons (c : UInt8) (sql : Bytes) :
    tokenizerTokenizeSql (c :: sql) = (tokenizeStep c sql).bind fun step =>
      (tokenizerTokenizeSql step.2).map (step.1.toList ++ ·) := by
  rw [tokenizerTokenizeSql]
  split
  · rename_i e herror
    rw [herror]
    rfl
  · rename_i token rest hstep
    simp only [hstep, Except.bind]
    cases tokenizerTokenizeSql rest <;> rfl

/-- `tokenizer_tokenize`. -/
def tokenizerTokenize (sql : Bytes) : Sql (List Token) :=
  let workingSql := utilsTrim sql
  if workingSql = [] then .error (message "SQL is empty.")
  else tokenizerTokenizeSql workingSql

/-! ## Integer literals -/

/-- What `tokenizer_read_number` reads is an integer text. -/
theorem tokenizerReadNumber_isInteger {c : UInt8} {sql : Bytes} {value : CStr MAX_TOKEN_VALUE}
    {rest : Bytes} (hstart : tokenizerIsNumericStart (c :: sql) = true)
    (h : tokenizerReadNumber (c :: sql) = .ok (value, rest)) :
    utilsIsInteger value.text = true := by
  unfold tokenizerReadNumber at h
  simp only at h
  split at h
  · rename_i hsign
    obtain ⟨buffer, hpush, h⟩ := Sql.bind_ok.mp h
    have hdigit : sql.head?.any isdigit = true := by
      simp only [tokenizerIsNumericStart, Bool.or_eq_true, Bool.and_eq_true] at hstart
      refine (hstart.resolve_left fun h => ?_).2
      rcases hsign with rfl | rfl
      · exact absurd h (by decide)
      · exact absurd h (by decide)
    have hvalue := (readWhile_ok h).1
    rw [CStr.push_eq_some.mp (orError_ok.mp hpush), CStr.text_empty, List.nil_append,
      List.singleton_append] at hvalue
    rw [hvalue, utilsIsInteger, if_pos hsign]
    cases sql with
    | nil => cases hdigit
    | cons d sql =>
      have hd : isdigit d = true := hdigit
      simp [List.takeWhile_cons_of_pos hd, hd]
  · rename_i hsign
    have hdigit : isdigit c = true := by
      simp only [tokenizerIsNumericStart, Bool.or_eq_true, Bool.and_eq_true, beq_iff_eq] at hstart
      exact hstart.resolve_right fun h => hsign h.1
    have hvalue := (readWhile_ok h).1
    rw [CStr.text_empty, List.nil_append, List.takeWhile_cons_of_pos hdigit] at hvalue
    rw [hvalue, utilsIsInteger, if_neg hsign]
    simp [hdigit]

/-- An integer literal token holds an integer text. -/
def Token.Sound (t : Token) : Prop := t.type = .intLiteral → utilsIsInteger t.value.text = true

theorem fixedToken_sound {type : TokenType} {value rest rest' : Bytes} {token : Option Token}
    (htype : type ≠ .intLiteral) (h : fixedToken type value rest = .ok (token, rest')) :
    ∀ t ∈ token, t.Sound := by
  obtain ⟨-, v, rfl, -⟩ := fixedToken_ok h
  rintro t ht hint
  obtain rfl := Option.some.inj ht
  exact absurd hint htype

theorem tokenizeStep_sound {c : UInt8} {sql rest : Bytes} {token : Option Token}
    (h : tokenizeStep c sql = .ok (token, rest)) : ∀ t ∈ token, t.Sound := by
  revert h
  apply tokenizeStep_cases (c := c)
    (motive := fun read => read = .ok (token, rest) → ∀ t ∈ token, t.Sound)
  case space =>
    intro _ h
    obtain ⟨rfl, -⟩ := Prod.mk.inj (Except.ok.inj h)
    nofun
  case bracket =>
    intro type htype h
    apply fixedToken_sound _ h
    rintro rfl
    simp [brackets] at htype
  case asterisk =>
    intro _ h
    exact fixedToken_sound (by decide) h
  case string =>
    intro _ h t ht hint
    obtain ⟨value, -, rfl⟩ := tokenOf_ok h
    obtain rfl := Option.some.inj ht
    cases hint
  case twoBytes =>
    intro _ _ h
    exact fixedToken_sound (by decide) h
  case oneByte =>
    intro _ h
    exact fixedToken_sound (by decide) h
  case number =>
    intro hstart h t ht _
    obtain ⟨value, hread, rfl⟩ := tokenOf_ok h
    obtain rfl := Option.some.inj ht
    exact tokenizerReadNumber_isInteger hstart hread
  case word =>
    intro _ h t' ht' hint
    obtain ⟨word, -, t, rfl, hword⟩ := wordToken_ok h
    obtain rfl := Option.some.inj ht'
    split at hword
    · rw [hword.1] at hint
      cases hint
    · rw [hword] at hint
      cases hint
  case unknown =>
    intro _ _ _ _ h
    exact fixedToken_sound (by decide) h

theorem tokenizerTokenizeSql_sound {sql : Bytes} {tokens : List Token}
    (h : tokenizerTokenizeSql sql = .ok tokens) : ∀ t ∈ tokens, t.Sound := by
  fun_induction tokenizerTokenizeSql sql generalizing tokens with
  | case1 =>
    obtain rfl := Except.ok.inj h
    nofun
  | case2 => cases h
  | case3 => cases h
  | case4 c sql token rest hstep hlen tokens' htokens ih =>
    obtain rfl := Except.ok.inj h
    intro t ht
    rcases List.mem_append.mp ht with ht | ht
    · exact tokenizeStep_sound hstep t (Option.mem_toList.mp ht)
    · exact ih htokens t ht

theorem tokenizerTokenize_sound {sql : Bytes} {tokens : List Token}
    (h : tokenizerTokenize sql = .ok tokens) : ∀ t ∈ tokens, t.Sound := by
  unfold tokenizerTokenize at h
  simp only at h
  split at h
  · cases h
  · exact tokenizerTokenizeSql_sound h

end JungleDb
