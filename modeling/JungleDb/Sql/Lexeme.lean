import JungleDb.Sql.Print

/-!
# The lexemes of a text

The tokenizer reads a text as one lexeme after the other with white space between them, and drops
nothing else. A token says enough to print a lexeme for it: the tokens printed with single spaces
between them are read back.
-/

namespace JungleDb

open CString

/-- The tokens that the tokenizer makes: those that a statement is printed with, the lone `!`, and a
byte that starts no token. -/
def Token.Scanned (t : Token) : Prop :=
  t.Readable ∨ (t.type = .operator ∧ t.value.text = [ch '!']) ∨
    (t.type = .unknown ∧ ∃ c, t.value.text = [c] ∧ isspace c = false ∧ c ∉ marks ∧
      isdigit c = false ∧ (isalpha c || c == ch '_') = false)

/-- The bytes that one turn of the loop reads: white space, or a spelling of the token. -/
def Lexeme : Option Token → Bytes → Prop
  | none, text => ∃ c, isspace c = true ∧ text = [c]
  | some t, text => t.Scanned ∧ t.Spelled text

/-- The text is a spelling of each token, in order, and white space before, between and behind. -/
inductive Interleaved : Tokens → Bytes → Prop
  | nil {space : Bytes} : Spaces space → Interleaved [] space
  | cons {t : Token} {space text rest : Bytes} {tokens : Tokens} : Spaces space →
      t.Spelled text → Interleaved tokens rest → Interleaved (t :: tokens) (space ++ (text ++ rest))

/-- The lexeme of a token that is printed. -/
def Token.print (t : Token) : Bytes :=
  if t.type = .strLiteral then quoted t.value.text else t.value.text

/-- The tokens with single spaces between them. -/
def printTokens : Tokens → Bytes
  | [] => []
  | [t] => t.print
  | t :: u :: tokens => t.print ++ ([ch ' '] ++ printTokens (u :: tokens))

/-! ## What a reader consumes -/

theorem readWhile_consumes {p : UInt8 → Bool} {tooLong : String} {sql rest : Bytes}
    {buffer value : CStr MAX_TOKEN_VALUE}
    (h : readWhile p tooLong buffer sql = .ok (value, rest)) :
    buffer.text ++ sql = value.text ++ rest := by
  obtain ⟨hvalue, hrest⟩ := readWhile_ok h
  rw [hvalue, hrest, List.append_assoc, List.takeWhile_append_dropWhile]

theorem tokenizerReadNumber_consumes {sql rest : Bytes} {value : CStr MAX_TOKEN_VALUE}
    (h : tokenizerReadNumber sql = .ok (value, rest)) : sql = value.text ++ rest := by
  unfold tokenizerReadNumber at h
  simp only at h
  split at h
  · obtain ⟨rfl, rfl⟩ := Prod.mk.inj (Except.ok.inj h)
    rfl
  · rename_i c sql
    split at h
    · obtain ⟨buffer, hpush, h⟩ := Sql.bind_ok.mp h
      have hread := readWhile_consumes h
      rw [CStr.push_eq_some.mp (orError_ok.mp hpush)] at hread
      exact hread
    · exact readWhile_consumes h

/-- Up to the closing quote, which no other one follows. -/
theorem readStringBody_consumes {sql rest : Bytes} {buffer value : CStr MAX_TOKEN_VALUE}
    (h : readStringBody buffer sql = .ok (value, rest)) :
    ∃ s, value.text = buffer.text ++ s ∧ sql = doubled s ++ ch '\'' :: rest ∧
      rest.head? ≠ some (ch '\'') := by
  have hpushed : ∀ {buffer buffer' : CStr MAX_TOKEN_VALUE} {c : UInt8} {s : Bytes},
      bufferAppend "String literal is too long." buffer c = .ok buffer' →
      buffer'.text ++ s = buffer.text ++ c :: s := by
    intro buffer buffer' c s hpush
    rw [CStr.push_eq_some.mp (orError_ok.mp hpush), List.append_assoc]
    rfl
  fun_induction readStringBody buffer sql with
  | case1 => cases h
  | case2 buffer sql ih =>
    obtain ⟨buffer', hpush, h⟩ := Sql.bind_ok.mp h
    obtain ⟨s, hvalue, rfl, hnext⟩ := ih buffer' h
    exact ⟨ch '\'' :: s, hvalue.trans (hpushed hpush), rfl, hnext⟩
  | case3 buffer d sql hd =>
    obtain ⟨rfl, rfl⟩ := Prod.mk.inj (Except.ok.inj h)
    exact ⟨[], (List.append_nil _).symm, rfl, fun hhead => hd (Option.some.inj hhead)⟩
  | case4 buffer =>
    obtain ⟨rfl, rfl⟩ := Prod.mk.inj (Except.ok.inj h)
    exact ⟨[], (List.append_nil _).symm, rfl, fun hhead => by cases hhead⟩
  | case5 buffer c sql hc ih =>
    obtain ⟨buffer', hpush, h⟩ := Sql.bind_ok.mp h
    obtain ⟨s, hvalue, rfl, hnext⟩ := ih buffer' h
    refine ⟨c :: s, hvalue.trans (hpushed hpush), ?_, hnext⟩
    rw [doubled_cons hc]
    rfl

theorem fixedToken_lexeme {type : TokenType} {value rest rest' : Bytes} {token : Option Token}
    (hlexeme : ∀ v : CStr MAX_TOKEN_VALUE, v.text = value → Lexeme (some ⟨type, v⟩) value)
    (h : fixedToken type value rest = .ok (token, rest')) :
    ∃ text, value ++ rest = text ++ rest' ∧ Lexeme token text := by
  obtain ⟨rfl, v, rfl, hv⟩ := fixedToken_ok h
  exact ⟨value, rfl, hlexeme v hv⟩

/-- A word that is a keyword, ignoring case. -/
theorem toupper_mem_keywords {word : Bytes} (h : utilsIsSqlKeyword word = true) :
    word.map toupper ∈ keywords := by
  obtain ⟨k, hk, heq⟩ := List.any_eq_true.mp h
  rw [utilsEqualsIgnoreCase_iff.mp heq, (isalpha_of_mem_keywords hk).2.2.1]
  exact hk

/-- One turn of the loop reads a lexeme of the token that it appends. -/
theorem tokenizeStep_lexeme {c : UInt8} {sql rest : Bytes} {token : Option Token}
    (h : tokenizeStep c sql = .ok (token, rest)) :
    ∃ text, c :: sql = text ++ rest ∧ Lexeme token text := by
  revert h
  apply tokenizeStep_cases (c := c) (motive := fun read => read = .ok (token, rest) →
    ∃ text, c :: sql = text ++ rest ∧ Lexeme token text)
  case space =>
    intro hspace h
    obtain ⟨rfl, rfl⟩ := Prod.mk.inj (Except.ok.inj h)
    exact ⟨[c], rfl, c, hspace, rfl⟩
  case bracket =>
    intro type hmem h
    simp only [brackets, List.mem_cons, Prod.mk.injEq, List.not_mem_nil, or_false] at hmem
    refine fixedToken_lexeme ?_ h
    intro v hv
    rcases hmem with ⟨rfl, rfl⟩ | ⟨rfl, rfl⟩ | ⟨rfl, rfl⟩ | ⟨rfl, rfl⟩
    · obtain rfl : v = lparen.value := CStr.ext hv
      exact ⟨.inl (readable_punctuation (by decide)), rfl⟩
    · obtain rfl : v = rparen.value := CStr.ext hv
      exact ⟨.inl (readable_punctuation (by decide)), rfl⟩
    · obtain rfl : v = comma.value := CStr.ext hv
      exact ⟨.inl (readable_punctuation (by decide)), rfl⟩
    · obtain rfl : v = semicolon.value := CStr.ext hv
      exact ⟨.inl (readable_punctuation (by decide)), rfl⟩
  case asterisk =>
    rintro rfl h
    refine fixedToken_lexeme ?_ h
    intro v hv
    obtain rfl : v = JungleDb.asterisk.value := CStr.ext hv
    exact ⟨.inl (.inr rfl), rfl⟩
  case string =>
    rintro rfl h
    obtain ⟨value, hread, rfl⟩ := tokenOf_ok h
    obtain ⟨s, hvalue, hsql, -⟩ := readStringBody_consumes hread
    rw [CStr.text_empty, List.nil_append] at hvalue
    refine ⟨quoted value.text, ?_, .inl trivial, rfl⟩
    rw [List.drop_one, List.tail_cons] at hsql
    rw [quoted, hvalue, hsql, List.cons_append, List.append_assoc]
    rfl
  case twoBytes =>
    intro hop hhead h
    obtain ⟨rest', rfl⟩ := List.head?_eq_some_iff.mp hhead
    refine fixedToken_lexeme ?_ h
    intro v hv
    refine ⟨.inl ?_, hv.symm⟩
    show v.text ∈ operators
    rw [hv]
    rcases hop with rfl | rfl | rfl <;> decide
  case oneByte =>
    intro hop h
    refine fixedToken_lexeme ?_ h
    intro v hv
    refine ⟨?_, hv.symm⟩
    rcases hop with rfl | hop
    · exact .inr (.inl ⟨rfl, hv⟩)
    · left
      show v.text ∈ operators
      rw [hv]
      rcases hop with rfl | rfl | rfl <;> decide
  case number =>
    intro hstart h
    obtain ⟨value, hread, rfl⟩ := tokenOf_ok h
    refine ⟨value.text, tokenizerReadNumber_consumes hread, .inl ?_, rfl⟩
    exact tokenizerReadNumber_isInteger hstart hread
  case word =>
    intro hstart h
    obtain ⟨word, hread, t, rfl, hword⟩ := wordToken_ok h
    refine ⟨word.text, readWhile_consumes hread, ?_⟩
    by_cases hkey : utilsIsSqlKeyword word.text = true
    · rw [if_pos hkey] at hword
      obtain ⟨type, value⟩ := t
      obtain ⟨rfl, hvalue⟩ := hword
      have hmem : value.text ∈ keywords := by
        rw [hvalue]
        exact toupper_mem_keywords hkey
      exact ⟨.inl hmem, hvalue.symm⟩
    · rw [if_neg hkey] at hword
      subst hword
      have hname : IsName word.text :=
        ⟨tokenizerReadWord_isWord hstart hread, Bool.not_eq_true _ ▸ hkey⟩
      exact ⟨.inl (.inl hname), rfl⟩
  case unknown =>
    intro hspace hmark hdigit halpha h
    refine fixedToken_lexeme ?_ h
    intro v hv
    refine ⟨.inr (.inr ?_), hv.symm⟩
    exact ⟨rfl, c, hv, hspace, hmark, hdigit, halpha⟩

/-! ## Reading a text -/

theorem Interleaved.space {c : UInt8} {tokens : Tokens} {text : Bytes} (hc : isspace c = true)
    (h : Interleaved tokens text) : Interleaved tokens (c :: text) := by
  cases h with
  | nil hspace => exact .nil (List.forall_mem_cons.mpr ⟨hc, hspace⟩)
  | @cons t space lexeme rest tokens hspace hlexeme hrest =>
    have hspaces : Spaces (c :: space) := List.forall_mem_cons.mpr ⟨hc, hspace⟩
    exact .cons hspaces hlexeme hrest

/-- A text that is tokenized is its lexemes and white space. -/
theorem tokenizerTokenizeSql_interleaved {sql : Bytes} {tokens : Tokens}
    (h : tokenizerTokenizeSql sql = .ok tokens) :
    Interleaved tokens sql ∧ ∀ t ∈ tokens, t.Scanned := by
  fun_induction tokenizerTokenizeSql sql generalizing tokens with
  | case1 =>
    obtain rfl := Except.ok.inj h
    exact ⟨.nil (List.forall_mem_nil _), List.forall_mem_nil _⟩
  | case2 => cases h
  | case3 => cases h
  | case4 c sql token rest hstep hlen tokens' htokens ih =>
    obtain rfl := Except.ok.inj h
    obtain ⟨hrest, hscanned⟩ := ih htokens
    obtain ⟨text, htext, hlexeme⟩ := tokenizeStep_lexeme hstep
    cases token with
    | none =>
      obtain ⟨d, hspace, rfl⟩ := hlexeme
      rw [htext]
      exact ⟨hrest.space hspace, hscanned⟩
    | some t =>
      rw [htext]
      have hnone : Spaces [] := List.forall_mem_nil _
      exact ⟨.cons hnone hlexeme.2 hrest, List.forall_mem_cons.mpr ⟨hlexeme.1, hscanned⟩⟩

/-! ## The bytes of the tokens -/

/-- But for keywords, which are made upper case, a token has the bytes of its lexeme. -/
theorem Token.Spelled.subset {t : Token} {text : Bytes} (h : t.Spelled text)
    (hkeyword : t.type ≠ .keyword) : t.value.text ⊆ text := by
  obtain ⟨type, value⟩ := t
  cases type with
  | keyword => exact absurd rfl hkeyword
  | strLiteral =>
    obtain rfl : text = quoted value.text := h
    intro c hc
    have hdoubled : c ∈ doubled value.text := by
      refine List.mem_flatMap.mpr ⟨c, hc, ?_⟩
      split <;> exact List.mem_cons_self
    exact List.mem_cons_of_mem _ (List.mem_append_left _ hdoubled)
  | _ =>
    obtain rfl : text = value.text := h
    exact List.Subset.refl _

theorem Interleaved.subset {tokens : Tokens} {text : Bytes} (h : Interleaved tokens text) :
    ∀ t ∈ tokens, t.type ≠ .keyword → t.value.text ⊆ text := by
  induction h with
  | nil => nofun
  | cons hspace hspelled _ ih =>
    intro t ht hkeyword c hc
    rw [List.mem_append, List.mem_append]
    rcases List.mem_cons.mp ht with rfl | ht
    · exact .inr (.inl (hspelled.subset hkeyword hc))
    · exact .inr (.inr (ih t ht hkeyword hc))

theorem tokenizerTokenize_subset {sql : Bytes} {tokens : Tokens}
    (h : tokenizerTokenize sql = .ok tokens) :
    ∀ t ∈ tokens, t.type ≠ .keyword → t.value.text ⊆ sql := by
  unfold tokenizerTokenize at h
  simp only at h
  split at h
  · cases h
  · obtain ⟨lead, trail, -, -, hsql⟩ := exists_utilsTrim sql
    intro t ht hkeyword c hc
    have hmem := (tokenizerTokenizeSql_interleaved h).1.subset t ht hkeyword hc
    rw [hsql]
    exact List.mem_append_right _ (List.mem_append_left _ hmem)

/-! ## Printing the tokens -/

theorem reads_unknown {value : CStr MAX_TOKEN_VALUE} {c : UInt8} (htext : value.text = [c])
    (hspace : isspace c = false) (hmark : c ∉ marks) (hdigit : isdigit c = false)
    (halpha : (isalpha c || c == ch '_') = false) :
    Token.Reads ⟨.unknown, value⟩ value.text := by
  rw [htext]
  refine ⟨⟨c, [], rfl, hspace, ?_⟩, ?_⟩
  · intro rest hrest
    have hnext : rest.head?.any isdigit = false := by
      cases rest with
      | nil => rfl
      | cons d rest =>
        have hd := hrest d rfl
        rw [← Bool.not_eq_true]
        intro hdigit'
        rw [isspace_eq_false_of_isdigit hdigit'] at hd
        cases hd
    have hnumber : tokenizerIsNumericStart (c :: ([] ++ rest)) = false := by
      rw [tokenizerIsNumericStart, hdigit, List.nil_append, hnext, Bool.and_false]
      rfl
    rw [tokenizeStep_unmarked hspace hmark, hnumber, halpha, if_neg Bool.false_ne_true,
      if_neg Bool.false_ne_true, ← htext]
    exact fixedToken_eq ⟨.unknown, value⟩ rest
  · intro d hd
    obtain rfl := Option.some.inj hd
    exact hspace

theorem Token.Scanned.legible {t : Token} (h : t.Scanned) : t.Legible := by
  rcases h with h | ⟨htype, hvalue⟩ | ⟨htype, c, hvalue, hspace, hmark, hdigit, halpha⟩
  · exact h.legible
  · obtain ⟨type, value⟩ := t
    obtain rfl : type = .operator := htype
    rintro text rfl
    exact reads_operatorByte hvalue (.inl rfl)
  · obtain ⟨type, value⟩ := t
    obtain rfl : type = .unknown := htype
    rintro text rfl
    exact reads_unknown hvalue hspace hmark hdigit halpha

/-- A token is printed as it is spelled. -/
theorem Token.Scanned.spelled_print {t : Token} (h : t.Scanned) : t.Spelled t.print := by
  obtain ⟨type, value⟩ := t
  cases type with
  | keyword =>
    have hmem : value.text ∈ keywords := by
      rcases h with h | h | h
      · exact h
      · cases h.1
      · cases h.1
    exact (isalpha_of_mem_keywords hmem).2.2.1
  | _ => exact rfl

theorem printTokens_printed {tokens : Tokens} (hne : tokens ≠ [])
    (h : ∀ t ∈ tokens, t.Scanned) : Printed tokens (printTokens tokens) := by
  fun_induction printTokens tokens with
  | case1 => exact absurd rfl hne
  | case2 t => exact .last (h t List.mem_cons_self).spelled_print
  | case3 t u tokens ih =>
    refine .cons (h t List.mem_cons_self).spelled_print (List.cons_ne_nil _ _) ?_ ?_
    · intro c hc
      obtain rfl := List.mem_singleton.mp hc
      rfl
    · exact ih (List.cons_ne_nil u tokens) fun v hv => h v (List.mem_cons_of_mem t hv)

/-- A text that is tokenized is, up to the white space around it, one spelling of each token, in
order, and white space between them; and the tokens printed with single spaces between them are read
back. -/
theorem tokenizerTokenize_lexemes {sql : Bytes} {tokens : Tokens}
    (h : tokenizerTokenize sql = .ok tokens) :
    Interleaved tokens (utilsTrim sql) ∧ (∀ t ∈ tokens, t.Scanned) ∧
      tokenizerTokenize (printTokens tokens) = .ok tokens := by
  unfold tokenizerTokenize at h
  simp only at h
  split at h
  · cases h
  · rename_i hne
    obtain ⟨hinter, hscanned⟩ := tokenizerTokenizeSql_interleaved h
    refine ⟨hinter, hscanned, ?_⟩
    have htokens : tokens ≠ [] := by
      rintro rfl
      cases hinter with
      | nil hspace =>
        apply hne
        rw [← dropWhile_utilsTrim, List.dropWhile_eq_nil_iff]
        exact hspace
    exact (printTokens_printed htokens hscanned).tokenizerTokenize fun t ht =>
      (hscanned t ht).legible

/-- A text with a sign that starts no number, a doubled quote and an operator without a space. -/
theorem tokenizerTokenize_lexemes_unspaced : ∃ tokens,
    tokenizerTokenize (bytes " select*From t WHERE a!='it''s';-x ") = .ok tokens ∧
      printTokens tokens = bytes "SELECT * FROM t WHERE a != 'it''s' ; - x" ∧
      Interleaved tokens (bytes "select*From t WHERE a!='it''s';-x") ∧
      (∀ t ∈ tokens, t.Scanned) ∧ tokenizerTokenize (printTokens tokens) = .ok tokens := by
  cases h : tokenizerTokenize (bytes " select*From t WHERE a!='it''s';-x ") with
  | error e =>
    have hok : (tokenizerTokenize (bytes " select*From t WHERE a!='it''s';-x ")).isOk = true := by
      decide +kernel
    rw [h] at hok
    cases hok
  | ok tokens =>
    have hprint : (tokenizerTokenize (bytes " select*From t WHERE a!='it''s';-x ")).map printTokens =
        .ok (bytes "SELECT * FROM t WHERE a != 'it''s' ; - x") := by
      decide +kernel
    rw [h] at hprint
    exact ⟨tokens, rfl, Except.ok.inj hprint, tokenizerTokenize_lexemes h⟩

end JungleDb
