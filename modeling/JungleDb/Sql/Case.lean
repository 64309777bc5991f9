import JungleDb.Sql.Parser

/-!
# The case of letters outside string literals

Two texts that differ only in the case of letters outside string literals are read as the same
statement, up to the case of its names: the tokenizer and the parser commute with writing every
letter outside string literals in upper case.
-/

namespace JungleDb

open CString

/-! ## Texts -/

/-- A function that does not tell the letters of one pair from each other. -/
theorem apply_toupper {α : Type} {f : UInt8 → α}
    (h : ∀ n < 26, f (UInt8.ofNat (65 + n)) = f (UInt8.ofNat (97 + n))) (c : UInt8) :
    f (toupper c) = f c := by
  unfold toupper
  split
  · rename_i hlower
    rw [Bool.and_eq_true, decide_eq_true_eq, decide_eq_true_eq, UInt8.le_iff_toNat_le,
      UInt8.le_iff_toNat_le] at hlower
    have hrange : 97 ≤ c.toNat ∧ c.toNat ≤ 122 := hlower
    have hletter := h (c.toNat - 97) (by omega)
    have hlow : UInt8.ofNat (97 + (c.toNat - 97)) = c := by
      rw [show 97 + (c.toNat - 97) = c.toNat by omega, UInt8.ofNat_toNat]
    have hle : (32 : UInt8) ≤ c := UInt8.le_iff_toNat_le.mpr (show 32 ≤ c.toNat by omega)
    have hup : UInt8.ofNat (65 + (c.toNat - 97)) = c - 32 := by
      apply UInt8.toNat_inj.mp
      rw [UInt8.toNat_sub_of_le _ _ hle,
        UInt8.toNat_ofNat_of_lt' (show 65 + (c.toNat - 97) < 256 by omega)]
      show _ = c.toNat - 32
      omega
    rw [hlow, hup] at hletter
    exact hletter
  · rfl

theorem isspace_toupper (c : UInt8) : isspace (toupper c) = isspace c :=
  apply_toupper (by decide) c

theorem isdigit_toupper (c : UInt8) : isdigit (toupper c) = isdigit c :=
  apply_toupper (by decide) c

theorem isalpha_toupper (c : UInt8) : isalpha (toupper c) = isalpha c :=
  apply_toupper (by decide) c

theorem isWordByte_toupper (c : UInt8) : isWordByte (toupper c) = isWordByte c :=
  apply_toupper (by decide) c

theorem toupper_toupper (c : UInt8) : toupper (toupper c) = toupper c :=
  apply_toupper (by decide) c

/-- A byte that is no letter. -/
theorem toupper_eq_self {c : UInt8} (h : isalpha c = false) : toupper c = c := by
  unfold toupper
  split
  · rename_i hlower
    rw [isalpha, hlower, Bool.or_true] at h
    cases h
  · rfl

theorem toupper_eq_iff {d : UInt8} (h : isalpha d = false) (c : UInt8) : toupper c = d ↔ c = d := by
  constructor
  · intro heq
    have halpha := isalpha_toupper c
    rw [heq, h] at halpha
    rw [← heq, toupper_eq_self halpha.symm]
  · rintro rfl
    exact toupper_eq_self h

theorem isalpha_eq_false_of_isdigit {c : UInt8} (h : isdigit c = true) : isalpha c = false := by
  have hrange := isdigit_iff.mp h
  simp only [isalpha, Bool.or_eq_false_iff, Bool.and_eq_false_iff, decide_eq_false_iff_not,
    UInt8.le_iff_toNat_le]
  exact ⟨.inl (fun hle => absurd (show 65 ≤ c.toNat from hle) (by omega)),
    .inl (fun hle => absurd (show 97 ≤ c.toNat from hle) (by omega))⟩

/-- The text with the letters outside string literals in upper case; it begins inside a literal or
outside. -/
def upperOutside (inside : Bool) : Bytes → Bytes
  | [] => []
  | c :: sql =>
    (if inside then c else toupper c) :: upperOutside (if c = ch '\'' then !inside else inside) sql

/-- The texts differ only in the case of letters outside string literals. -/
def SameOutsideLiterals (sql sql' : Bytes) : Prop := upperOutside false sql = upperOutside false sql'

instance (sql sql' : Bytes) : Decidable (SameOutsideLiterals sql sql') :=
  inferInstanceAs (Decidable (_ = _))

theorem length_upperOutside (inside : Bool) (sql : Bytes) :
    (upperOutside inside sql).length = sql.length := by
  induction sql generalizing inside with
  | nil => rfl
  | cons c sql ih => rw [upperOutside, List.length_cons, List.length_cons, ih]

theorem upperOutside_eq_nil {inside : Bool} {sql : Bytes} :
    upperOutside inside sql = [] ↔ sql = [] := by
  rw [← List.length_eq_zero_iff, length_upperOutside, List.length_eq_zero_iff]

theorem upperOutside_cons {c : UInt8} (h : c ≠ ch '\'') (sql : Bytes) :
    upperOutside false (c :: sql) = toupper c :: upperOutside false sql := by
  rw [upperOutside, if_neg Bool.false_ne_true, if_neg h]

/-! ## The ends of a text -/

/-- The text without white space at its end. -/
def trimEnd (sql : Bytes) : Bytes := (sql.reverse.dropWhile isspace).reverse

theorem trimEnd_cons (c : UInt8) (sql : Bytes) :
    trimEnd (c :: sql) = if trimEnd sql = [] then if isspace c then [] else [c]
      else c :: trimEnd sql := by
  have hnil : (sql.reverse.dropWhile isspace).isEmpty = true ↔ trimEnd sql = [] := by
    rw [List.isEmpty_iff, trimEnd, List.reverse_eq_nil_iff]
  unfold trimEnd at hnil ⊢
  rw [List.reverse_cons, List.dropWhile_append]
  by_cases h : (sql.reverse.dropWhile isspace).isEmpty = true
  · rw [if_pos h, if_pos (hnil.mp h)]
    cases hc : isspace c with
    | true => rw [List.dropWhile_cons_of_pos hc]; rfl
    | false => rw [List.dropWhile_cons_of_neg (by rw [hc]; exact Bool.false_ne_true)]; rfl
  · rw [if_neg h, if_neg (fun heq => h (hnil.mpr heq)), List.reverse_append]
    rfl

theorem trimEnd_upperOutside (inside : Bool) (sql : Bytes) :
    trimEnd (upperOutside inside sql) = upperOutside inside (trimEnd sql) := by
  induction sql generalizing inside with
  | nil => rfl
  | cons c sql ih =>
    have hspace : isspace (if inside then c else toupper c) = isspace c := by
      cases inside with
      | true => rfl
      | false => exact isspace_toupper c
    rw [upperOutside, trimEnd_cons, ih, hspace, trimEnd_cons]
    simp only [upperOutside_eq_nil]
    split
    · split <;> rfl
    · rfl

theorem dropSpace_upperOutside (sql : Bytes) :
    (upperOutside false sql).dropWhile isspace = upperOutside false (sql.dropWhile isspace) := by
  induction sql with
  | nil => rfl
  | cons c sql ih =>
    by_cases hc : isspace c = true
    · have hquote : c ≠ ch '\'' := by
        rintro rfl
        cases hc
      rw [upperOutside_cons hquote, List.dropWhile_cons_of_pos (by rw [isspace_toupper]; exact hc),
        List.dropWhile_cons_of_pos hc]
      exact ih
    · rw [List.dropWhile_cons_of_neg hc, upperOutside, List.dropWhile_cons_of_neg]
      rw [if_neg Bool.false_ne_true, isspace_toupper]
      exact hc

theorem utilsTrim_upperOutside (sql : Bytes) :
    utilsTrim (upperOutside false sql) = upperOutside false (utilsTrim sql) := by
  have hends := trimEnd_upperOutside false sql
  unfold trimEnd at hends
  rw [utilsTrim, hends, dropSpace_upperOutside]
  rfl

/-! ## Tokens -/

/-- The string in upper case. -/
def upperStr {n : Nat} (s : CStr n) : CStr n :=
  ⟨s.text.map toupper, by rw [List.length_map]; exact s.fits⟩

@[simp] theorem text_upperStr {n : Nat} (s : CStr n) : (upperStr s).text = s.text.map toupper := rfl

theorem map_toupper_toupper (text : Bytes) : (text.map toupper).map toupper = text.map toupper := by
  rw [List.map_map]
  exact List.map_congr_left fun c _ => toupper_toupper c

/-- The token with its name in upper case. -/
def Token.upper (t : Token) : Token :=
  if t.type = .identifier then ⟨t.type, upperStr t.value⟩ else t

/-- What a reader gives, with its text in upper case. -/
def upperRead (read : CStr MAX_TOKEN_VALUE × Bytes) : CStr MAX_TOKEN_VALUE × Bytes :=
  (upperStr read.1, upperOutside false read.2)

/-- What one turn of the tokenizer gives, with its text in upper case. -/
def upperStep (step : Option Token × Bytes) : Option Token × Bytes :=
  (step.1.map Token.upper, upperOutside false step.2)

theorem push_upperStr {n : Nat} (s : CStr n) (c : UInt8) :
    (upperStr s).push (toupper c) = (s.push c).map upperStr := by
  have hlen : ((upperStr s).text ++ [toupper c]).length = (s.text ++ [c]).length := by
    rw [List.length_append, List.length_append, text_upperStr, List.length_map]
    rfl
  unfold CStr.push
  by_cases hfits : (s.text ++ [c]).length < n
  · rw [dif_pos hfits, dif_pos (hlen ▸ hfits)]
    refine congrArg some (CStr.ext ?_)
    show s.text.map toupper ++ [toupper c] = (s.text ++ [c]).map toupper
    rw [List.map_append]
    rfl
  · rw [dif_neg hfits, dif_neg (hlen ▸ hfits)]
    rfl

theorem bufferAppend_upper (tooLong : String) (buffer : CStr MAX_TOKEN_VALUE) (c : UInt8) :
    bufferAppend tooLong (upperStr buffer) (toupper c) =
      (bufferAppend tooLong buffer c).map upperStr := by
  rw [bufferAppend, push_upperStr, bufferAppend]
  cases buffer.push c <;> rfl

/-- The bytes of a class that does not see the case and has no quote. -/
theorem readWhile_upper {p : UInt8 → Bool} (hp : ∀ c, p (toupper c) = p c)
    (hquote : p (ch '\'') = false) (tooLong : String) (sql : Bytes)
    (buffer : CStr MAX_TOKEN_VALUE) :
    readWhile p tooLong (upperStr buffer) (upperOutside false sql) =
      (readWhile p tooLong buffer sql).map upperRead := by
  induction sql generalizing buffer with
  | nil => rfl
  | cons c sql ih =>
    by_cases hc : p c = true
    · have hne : c ≠ ch '\'' := by
        rintro rfl
        rw [hquote] at hc
        cases hc
      rw [upperOutside_cons hne, readWhile, if_pos (by rw [hp]; exact hc), bufferAppend_upper,
        readWhile, if_pos hc]
      cases bufferAppend tooLong buffer c with
      | error e => rfl
      | ok buffer' => exact ih buffer'
    · have hkeep : readWhile p tooLong (upperStr buffer) (upperOutside false (c :: sql)) =
          .ok (upperStr buffer, upperOutside false (c :: sql)) := by
        rw [upperOutside, readWhile, if_neg]
        rw [if_neg Bool.false_ne_true, hp]
        exact hc
      rw [hkeep, readWhile, if_neg hc]
      rfl

/-- What is read of a literal is not changed. -/
theorem readStringBody_upper (sql : Bytes) (buffer : CStr MAX_TOKEN_VALUE) :
    readStringBody buffer (upperOutside true sql) =
      (readStringBody buffer sql).map fun read => (read.1, upperOutside false read.2) := by
  fun_induction readStringBody buffer sql with
  | case1 => rfl
  | case2 buffer sql ih =>
    have hquotes : upperOutside true (ch '\'' :: ch '\'' :: sql) =
        ch '\'' :: ch '\'' :: upperOutside true sql := rfl
    rw [hquotes, readStringBody, if_pos rfl, if_pos rfl]
    cases hbuffer : bufferAppend "String literal is too long." buffer (ch '\'') with
    | error e => rfl
    | ok buffer' => exact ih buffer'
  | case3 buffer d sql hd =>
    have hquote : upperOutside true (ch '\'' :: d :: sql) =
        ch '\'' :: toupper d :: upperOutside false sql :=
      congrArg (ch '\'' :: ·) (upperOutside_cons hd sql)
    have hd' : toupper d ≠ ch '\'' := fun heq => hd ((toupper_eq_iff (by decide) d).mp heq)
    rw [hquote, readStringBody, if_pos rfl, if_neg hd', ← upperOutside_cons hd]
    rfl
  | case4 buffer => rfl
  | case5 buffer c sql hc ih =>
    have hplain : upperOutside true (c :: sql) = c :: upperOutside true sql := by
      rw [upperOutside, if_neg hc]
      rfl
    rw [hplain, readStringBody.eq_def buffer (c :: upperOutside true sql)]
    simp only [if_neg hc]
    cases hbuffer : bufferAppend "String literal is too long." buffer c with
    | error e => rfl
    | ok buffer' => exact ih buffer'

/-! ## One turn of the tokenizer -/

theorem fixedToken_upper {type : TokenType} {value : Bytes} (sql : Bytes)
    (h : value.map toupper = value) :
    fixedToken type value (upperOutside false sql) = (fixedToken type value sql).map upperStep := by
  unfold fixedToken tokenizerAppendToken
  cases hvalue : utilsSafeStrcpy MAX_TOKEN_VALUE value with
  | none => rfl
  | some v =>
    have hv : v.text = value := utilsSafeStrcpy_eq_some.mp hvalue
    have hupper : upperStr v = v := CStr.ext (by rw [text_upperStr, hv, h])
    have htoken : Token.upper ⟨type, v⟩ = ⟨type, v⟩ := by
      unfold Token.upper
      rw [hupper]
      split <;> rfl
    show Except.ok (some (⟨type, v⟩ : Token), _) = Except.ok (some (Token.upper ⟨type, v⟩), _)
    rw [htoken]

theorem tokenOf_map {type : TokenType} {read read' : Sql (CStr MAX_TOKEN_VALUE × Bytes)}
    (h : read' = read.map fun read => (read.1, upperOutside false read.2))
    (htype : type ≠ .identifier) : tokenOf type read' = (tokenOf type read).map upperStep := by
  subst h
  cases read with
  | error e => rfl
  | ok r =>
    have htoken : Token.upper ⟨type, r.1⟩ = ⟨type, r.1⟩ := if_neg htype
    have hcopy : tokenizerAppendToken type r.1.text = .ok ⟨type, r.1⟩ := by
      rw [tokenizerAppendToken, utilsSafeStrcpy_text]
      rfl
    show (tokenizerAppendToken type r.1.text >>= fun t => _) =
      (tokenizerAppendToken type r.1.text >>= fun t => _).map upperStep
    rw [hcopy]
    show Except.ok (some (⟨type, r.1⟩ : Token), _) = Except.ok (some (Token.upper ⟨type, r.1⟩), _)
    rw [htoken]

theorem utilsIsSqlKeyword_upper (word : Bytes) :
    utilsIsSqlKeyword (word.map toupper) = utilsIsSqlKeyword word := by
  unfold utilsIsSqlKeyword
  congr 1
  funext keyword
  rw [Bool.eq_iff_iff, utilsEqualsIgnoreCase_iff, utilsEqualsIgnoreCase_iff,
    map_toupper_toupper]

theorem tokenizerReadWord_upper (sql : Bytes) :
    tokenizerReadWord (upperOutside false sql) = (tokenizerReadWord sql).map upperRead := by
  have hempty : upperStr (.empty : CStr MAX_TOKEN_VALUE) = .empty := rfl
  have hword := readWhile_upper isWordByte_toupper (by decide) "Identifier is too long." sql .empty
  rw [hempty] at hword
  exact hword

theorem wordToken_upper (sql : Bytes) :
    wordToken (upperOutside false sql) = (wordToken sql).map upperStep := by
  unfold wordToken
  rw [tokenizerReadWord_upper]
  cases tokenizerReadWord sql with
  | error e => rfl
  | ok r =>
    obtain ⟨word, rest⟩ := r
    simp only [Except.map, upperRead, bind, Except.bind, text_upperStr, utilsIsSqlKeyword_upper,
      utilsToUpperCopy, map_toupper_toupper]
    split
    · cases hupper : utilsSafeStrcpy MAX_TOKEN_VALUE (word.text.map toupper) with
      | none => rfl
      | some upper =>
        simp only [orError, tokenizerAppendToken, utilsSafeStrcpy_text, bind, Except.bind]
        rfl
    · have hcopy := utilsSafeStrcpy_text (upperStr word)
      rw [text_upperStr] at hcopy
      simp only [orError, tokenizerAppendToken, hcopy, utilsSafeStrcpy_text, bind, Except.bind]
      rfl

theorem readDigits_upper (sql : Bytes) {tooLong : String} {buffer : CStr MAX_TOKEN_VALUE}
    (hbuffer : upperStr buffer = buffer) :
    readWhile isdigit tooLong buffer (upperOutside false sql) =
      (readWhile isdigit tooLong buffer sql).map fun read => (read.1, upperOutside false read.2) := by
  have hread := readWhile_upper isdigit_toupper (by decide) tooLong sql buffer
  rw [hbuffer] at hread
  rw [hread]
  cases hdigits : readWhile isdigit tooLong buffer sql with
  | error e => rfl
  | ok r =>
    obtain ⟨value, rest⟩ := r
    have hvalue := (readWhile_ok hdigits).1
    have hkeep : upperStr value = value := by
      apply CStr.ext
      rw [text_upperStr, hvalue, List.map_append, ← text_upperStr, hbuffer]
      congr 1
      have hall : ∀ c ∈ sql.takeWhile isdigit, toupper c = c := by
        intro c hc
        have hdigit := List.all_eq_true.mp List.all_takeWhile c hc
        exact toupper_eq_self (isalpha_eq_false_of_isdigit hdigit)
      exact (List.map_congr_left hall).trans (List.map_id _)
    show Except.ok (upperStr value, _) = Except.ok (value, _)
    rw [hkeep]

theorem tokenizerIsNumericStart_upper (c : UInt8) (sql : Bytes) :
    tokenizerIsNumericStart (toupper c :: upperOutside false sql) =
      tokenizerIsNumericStart (c :: sql) := by
  have hsign : (toupper c == ch '-' || toupper c == ch '+') = (c == ch '-' || c == ch '+') :=
    @apply_toupper _ (fun c => c == ch '-' || c == ch '+') (by decide) c
  have hnext : (upperOutside false sql).head?.any isdigit = sql.head?.any isdigit := by
    cases sql with
    | nil => rfl
    | cons d sql => exact isdigit_toupper d
  rw [tokenizerIsNumericStart, isdigit_toupper, hsign, hnext]
  rfl

theorem tokenizerReadNumber_upper {c : UInt8} (hc : c ≠ ch '\'') (sql : Bytes) :
    tokenizerReadNumber (toupper c :: upperOutside false sql) =
      (tokenizerReadNumber (c :: sql)).map fun read => (read.1, upperOutside false read.2) := by
  have hiff : (toupper c = ch '-' ∨ toupper c = ch '+') ↔ c = ch '-' ∨ c = ch '+' :=
    or_congr (toupper_eq_iff (by decide) c) (toupper_eq_iff (by decide) c)
  unfold tokenizerReadNumber
  simp only [hiff]
  split
  · rename_i hsign
    have hkeep : toupper c = c := by rcases hsign with rfl | rfl <;> rfl
    rw [hkeep]
    cases hpush : bufferAppend "Integer literal is too long." .empty c with
    | error e => rfl
    | ok buffer =>
      have hbuffer : upperStr buffer = buffer := by
        have hupper := bufferAppend_upper "Integer literal is too long." .empty c
        rw [hkeep, hpush] at hupper
        exact (Except.ok.inj (hpush.symm.trans hupper)).symm
      exact readDigits_upper sql hbuffer
  · have hempty : upperStr (.empty : CStr MAX_TOKEN_VALUE) = .empty := rfl
    rw [← upperOutside_cons hc]
    exact readDigits_upper (c :: sql) hempty

/-- A token of bytes that are no letters. -/
theorem fixedToken_plain {type : TokenType} {c : UInt8} (h : isalpha c = false) (sql : Bytes) :
    fixedToken type [toupper c] (upperOutside false sql) =
      (fixedToken type [c] sql).map upperStep := by
  have hkeep : [c].map toupper = [c] := congrArg (fun d => [d]) (toupper_eq_self h)
  rw [toupper_eq_self h]
  exact fixedToken_upper sql hkeep

theorem operator_upper {c : UInt8} (h : isalpha c = false) (sql : Bytes) :
    (if (c = ch '!' ∨ c = ch '<' ∨ c = ch '>') ∧ (upperOutside false sql).head? = some (ch '=') then
      fixedToken .operator [toupper c, ch '='] ((upperOutside false sql).drop 1)
    else fixedToken .operator [toupper c] (upperOutside false sql)) =
      Except.map upperStep (if (c = ch '!' ∨ c = ch '<' ∨ c = ch '>') ∧ sql.head? = some (ch '=') then
        fixedToken .operator [c, ch '='] (sql.drop 1)
      else fixedToken .operator [c] sql) := by
  have hhead : (upperOutside false sql).head? = some (ch '=') ↔ sql.head? = some (ch '=') := by
    cases sql with
    | nil => exact Iff.rfl
    | cons d sql =>
      show some (toupper d) = some (ch '=') ↔ some d = some (ch '=')
      rw [Option.some.injEq, Option.some.injEq]
      exact toupper_eq_iff (by decide) d
  simp only [hhead]
  split
  · rename_i hboth
    obtain ⟨rest, rfl⟩ := List.head?_eq_some_iff.mp hboth.2
    have hkeep : [c, ch '='].map toupper = [c, ch '='] :=
      congrArg (fun d => [d, ch '=']) (toupper_eq_self h)
    rw [toupper_eq_self h]
    exact fixedToken_upper rest hkeep
  · exact fixedToken_plain h sql

/-- One turn of the tokenizer. -/
theorem tokenizeStep_upper (c : UInt8) (sql : Bytes) :
    tokenizeStep (toupper c) (upperOutside (if c = ch '\'' then true else false) sql) =
      (tokenizeStep c sql).map upperStep := by
  by_cases hquote : c = ch '\''
  · subst hquote
    exact tokenOf_map (readStringBody_upper sql .empty) (by decide)
  have hpunct : ∀ d : UInt8, isalpha d = false → (toupper c = d ↔ c = d) :=
    fun d hd => toupper_eq_iff hd c
  have hplain : ∀ d : UInt8, isalpha d = false → c = d → isalpha c = false :=
    fun d hd heq => heq ▸ hd
  have hunderscore : (toupper c == ch '_') = (c == ch '_') :=
    @apply_toupper _ (fun c => c == ch '_') (by decide) c
  rw [if_neg hquote]
  unfold tokenizeStep
  simp only [isspace_toupper, hpunct (ch '(') (by decide), hpunct (ch ')') (by decide),
    hpunct (ch ',') (by decide), hpunct (ch ';') (by decide), hpunct (ch '*') (by decide),
    hpunct (ch '\'') (by decide), hpunct (ch '!') (by decide), hpunct (ch '<') (by decide),
    hpunct (ch '>') (by decide), hpunct (ch '=') (by decide), hquote, if_false, isalpha_toupper,
    hunderscore, tokenizerIsNumericStart_upper, apply_ite (Except.map upperStep)]
  refine ite_congr rfl (fun _ => rfl) fun _ => ?_
  refine ite_congr rfl (fun h => fixedToken_plain (hplain _ (by decide) h) sql) fun _ => ?_
  refine ite_congr rfl (fun h => fixedToken_plain (hplain _ (by decide) h) sql) fun _ => ?_
  refine ite_congr rfl (fun h => fixedToken_plain (hplain _ (by decide) h) sql) fun _ => ?_
  refine ite_congr rfl (fun h => fixedToken_plain (hplain _ (by decide) h) sql) fun _ => ?_
  refine ite_congr rfl (fun h => fixedToken_plain (hplain _ (by decide) h) sql) fun _ => ?_
  refine ite_congr rfl (fun h => ?_) fun _ => ?_
  · have hop : isalpha c = false := by rcases h with rfl | rfl | rfl | rfl <;> rfl
    have hall := operator_upper hop sql
    rw [apply_ite (Except.map upperStep)] at hall
    exact hall
  refine ite_congr rfl (fun _ => ?_) fun _ => ?_
  · exact tokenOf_map (tokenizerReadNumber_upper hquote sql) (by decide)
  refine ite_congr rfl (fun _ => ?_) fun hword => ?_
  · rw [← upperOutside_cons hquote]
    exact wordToken_upper (c :: sql)
  · rw [Bool.not_eq_true, Bool.or_eq_false_iff] at hword
    exact fixedToken_plain hword.1 sql

/-- The tokenizer commutes with upper case outside literals. -/
theorem tokenizerTokenizeSql_upper (sql : Bytes) :
    tokenizerTokenizeSql (upperOutside false sql) =
      (tokenizerTokenizeSql sql).map (List.map Token.upper) := by
  induction hlen : sql.length using Nat.strong_induction_on generalizing sql with
  | _ len ih =>
    subst hlen
    cases sql with
    | nil =>
      rw [upperOutside, tokenizerTokenizeSql]
      rfl
    | cons c sql =>
      have htext : upperOutside false (c :: sql) =
          toupper c :: upperOutside (if c = ch '\'' then true else false) sql := rfl
      rw [htext, tokenizerTokenizeSql_cons, tokenizeStep_upper, tokenizerTokenizeSql_cons]
      cases hstep : tokenizeStep c sql with
      | error e => rfl
      | ok step =>
        obtain ⟨token, rest⟩ := step
        have hrest := ih rest.length (Nat.lt_succ_of_le (tokenizeStep_length hstep)) rest rfl
        show (tokenizerTokenizeSql (upperOutside false rest)).map _ =
          Except.map _ ((tokenizerTokenizeSql rest).map _)
        rw [hrest]
        cases tokenizerTokenizeSql rest with
        | error e => rfl
        | ok tokens =>
          show Except.ok ((token.map Token.upper).toList ++ tokens.map Token.upper) =
            Except.ok ((token.toList ++ tokens).map Token.upper)
          rw [List.map_append]
          cases token <;> rfl

theorem tokenizerTokenize_upper (sql : Bytes) :
    tokenizerTokenize (upperOutside false sql) =
      (tokenizerTokenize sql).map (List.map Token.upper) := by
  unfold tokenizerTokenize
  simp only [utilsTrim_upperOutside, upperOutside_eq_nil, tokenizerTokenizeSql_upper]
  split <;> rfl

/-! ## Statements -/

def InsertItem.upper (item : InsertItem) : InsertItem := { item with column := upperStr item.column }

/-- The elements of an array, one by one. -/
def Columns.map {α β : Type} (f : α → β) (as : Columns α) : Columns β :=
  ⟨as.1.map f, by rw [List.length_map]; exact as.2⟩

def WhereClause.upper (clause : WhereClause) : WhereClause :=
  { clause with column := upperStr clause.column }

/-- The statement with its names in upper case. -/
def SqlStatement.upper : SqlStatement → SqlStatement
  | .insert stmt => .insert ⟨upperStr stmt.tableName, stmt.items.map InsertItem.upper⟩
  | .select stmt => .select
      ⟨upperStr stmt.tableName, stmt.columns.map upperStr, stmt.where.map WhereClause.upper⟩
  | .delete stmt => .delete ⟨upperStr stmt.tableName, stmt.where.map WhereClause.upper⟩

/-! ## The parser -/

theorem Token.type_upper (t : Token) : t.upper.type = t.type := by
  unfold Token.upper
  split <;> rfl

/-- The upper case of a text without letters. -/
theorem map_toupper_eq_iff {text : Bytes} (h : ∀ d ∈ text, isalpha d = false) (value : Bytes) :
    value.map toupper = text ↔ value = text := by
  induction text generalizing value with
  | nil => rw [List.map_eq_nil_iff]
  | cons d text ih =>
    cases value with
    | nil => exact iff_of_false nofun nofun
    | cons c value =>
      rw [List.map_cons, List.cons.injEq, List.cons.injEq,
        toupper_eq_iff (h d List.mem_cons_self),
        ih fun d' hd' => h d' (List.mem_cons_of_mem d hd')]

theorem Token.is_upper (t : Token) {type : TokenType} {value : String}
    (h : type ≠ .identifier ∨ value = "*") : t.upper.is type value = t.is type value := by
  unfold Token.is
  rw [t.type_upper]
  by_cases htype : t.type = .identifier
  · rcases h with hne | rfl
    · have hfalse : (t.type == type) = false := by
        rw [htype]
        exact beq_eq_false_iff_ne.mpr (Ne.symm hne)
      rw [hfalse, Bool.false_and, Bool.false_and]
    · have htext : t.upper.value.text = t.value.text.map toupper := by
        rw [Token.upper, if_pos htype]
        rfl
      rw [htext, Bool.eq_iff_iff, Bool.and_eq_true, Bool.and_eq_true, beq_iff_eq, beq_iff_eq,
        beq_iff_eq, map_toupper_eq_iff (by decide +kernel)]
  · have hkeep : t.upper = t := if_neg htype
    rw [hkeep]

/-- Tokens in upper case. -/
def upperTokens (tokens : Tokens) : Tokens := tokens.map Token.upper

theorem parserIsToken_upper (tokens : Tokens) {type : TokenType} {value : String}
    (h : type ≠ .identifier ∨ value = "*") :
    parserIsToken (upperTokens tokens) type value = parserIsToken tokens type value := by
  cases tokens with
  | nil => rfl
  | cons t tokens => exact t.is_upper h

theorem parserExpectToken_upper {type : TokenType} {value error : String}
    (h : type ≠ .identifier) (tokens : Tokens) :
    parserExpectToken type value error (upperTokens tokens) =
      (parserExpectToken type value error tokens).map upperTokens := by
  unfold parserExpectToken
  rw [parserIsToken_upper tokens (.inl h)]
  split
  · show Except.ok ((tokens.map Token.upper).drop 1) = Except.ok ((tokens.drop 1).map Token.upper)
    rw [List.map_drop]
  · rfl

theorem identifierOf_upper (t : Token) :
    identifierOf t.upper = (identifierOf t).map upperStr := by
  unfold identifierOf
  rw [t.type_upper]
  split
  · rename_i htype
    have htext : t.upper.value.text = t.value.text.map toupper := by
      rw [Token.upper, if_pos htype]
      rfl
    rw [htext, utilsSafeStrcpy, utilsSafeStrcpy]
    simp only [List.length_map]
    split <;> rfl
  · rfl

theorem literalOf_upper (t : Token) : literalOf t.upper = literalOf t := by
  by_cases htype : t.type = .identifier
  · have hnone : ∀ t : Token, t.type = .identifier →
        literalOf t = .error (message "Expected literal value.") := by
      intro t ht
      rw [literalOf, if_pos (by rw [ht]; decide)]
    rw [hnone t htype, hnone t.upper (t.type_upper.trans htype)]
  · have hkeep : t.upper = t := if_neg htype
    rw [hkeep]

/-- What a function of the parser reads, in upper case. -/
def upperRest {α β : Type} (f : α → β) (read : α × Tokens) : β × Tokens :=
  (f read.1, upperTokens read.2)

/-- Two operations after each other. -/
theorem Sql.bind_map {α β γ δ : Type} {x : Sql α} {x' : Sql β} {f : α → β} {g : α → Sql γ}
    {g' : β → Sql δ} {f' : γ → δ} (hx : x' = x.map f) (hg : ∀ a, g' (f a) = (g a).map f') :
    (x' >>= g') = (x >>= g).map f' := by
  subst hx
  cases x with
  | error e => rfl
  | ok a => exact hg a

theorem parserExpectIdentifier_upper (tokens : Tokens) :
    parserExpectIdentifier (upperTokens tokens) =
      (parserExpectIdentifier tokens).map (upperRest upperStr) := by
  cases tokens with
  | nil => rfl
  | cons t tokens =>
    show (identifierOf t.upper >>= fun name => _) =
      Except.map _ (identifierOf t >>= fun name => _)
    rw [identifierOf_upper]
    cases identifierOf t <;> rfl

theorem parserExpectLiteral_upper (tokens : Tokens) :
    parserExpectLiteral (upperTokens tokens) =
      (parserExpectLiteral tokens).map (upperRest id) := by
  cases tokens with
  | nil => rfl
  | cons t tokens =>
    show (literalOf t.upper >>= fun value => _) = Except.map _ (literalOf t >>= fun value => _)
    rw [literalOf_upper]
    cases literalOf t <;> rfl

theorem parserConsumeOptionalSemicolon_upper (tokens : Tokens) :
    parserConsumeOptionalSemicolon (upperTokens tokens) =
      parserConsumeOptionalSemicolon tokens := by
  have hrest : (if parserIsToken tokens .semicolon ";" then (upperTokens tokens).drop 1
      else upperTokens tokens) =
      upperTokens (if parserIsToken tokens .semicolon ";" then tokens.drop 1 else tokens) := by
    split
    · exact List.map_drop.symm
    · rfl
  unfold parserConsumeOptionalSemicolon
  simp only [parserIsToken_upper tokens (.inl (by decide) : TokenType.semicolon ≠ .identifier ∨ _),
    hrest]
  rw [upperTokens]
  simp only [List.map_eq_nil_iff]

/-- The loop over a list of elements, whose reader commutes with upper case. -/
theorem parserListLoop_upper {α : Type} {element : Token → Sql α} {f : α → α}
    (h : ∀ t, element t.upper = (element t).map f) (tooMany : String) (tokens : Tokens)
    (read : Columns α) :
    parserListLoop element tooMany (read.map f) (upperTokens tokens) =
      (parserListLoop element tooMany read tokens).map (upperRest (Columns.map f)) := by
  fun_induction parserListLoop element tooMany read tokens with
  | case1 read => rfl
  | case2 read t tokens hfull =>
    have hfull' : MAX_COLUMNS ≤ (read.map f).1.length := by
      rw [Columns.map, List.length_map]
      exact hfull
    show parserListLoop element tooMany (read.map f) (t.upper :: upperTokens tokens) = _
    rw [parserListLoop.eq_def]
    simp only [dif_pos hfull']
    rfl
  | case3 read t tokens hfull ih =>
    have hfull' : ¬ MAX_COLUMNS ≤ (read.map f).1.length := by
      rw [Columns.map, List.length_map]
      exact hfull
    show parserListLoop element tooMany (read.map f) (t.upper :: upperTokens tokens) = _
    rw [parserListLoop.eq_def]
    simp only [dif_neg hfull', h]
    cases element t with
    | error e => rfl
    | ok a =>
      have hread : ∀ hlen hlen', (⟨(read.map f).1 ++ [f a], hlen⟩ : Columns α) =
          Columns.map f ⟨read.1 ++ [a], hlen'⟩ := by
        intro hlen hlen'
        apply Subtype.ext
        show read.1.map f ++ [f a] = (read.1 ++ [a]).map f
        rw [List.map_append]
        rfl
      have hfits : (read.1 ++ [a]).length ≤ MAX_COLUMNS := by
        rw [List.length_append, List.length_singleton]
        exact Nat.lt_of_not_le hfull
      simp only [Except.map, bind, Except.bind]
      cases tokens with
      | nil => exact congrArg (fun read => Except.ok (read, [])) (hread _ hfits)
      | cons comma rest =>
        show (if comma.upper.is .comma "," = true then _ else _) =
          Except.map (upperRest (Columns.map f)) (if comma.is .comma "," = true then _ else _)
        rw [comma.is_upper (.inl (by decide))]
        split
        · rw [hread _ hfits]
          exact ih a
        · exact congrArg (fun read => Except.ok (read, upperTokens (comma :: rest))) (hread _ hfits)

theorem parserParseWhere_upper (tokens : Tokens) :
    parserParseWhere (upperTokens tokens) =
      (parserParseWhere tokens).map (upperRest WhereClause.upper) := by
  unfold parserParseWhere
  rw [parserExpectIdentifier_upper]
  cases parserExpectIdentifier tokens with
  | error e => rfl
  | ok read =>
    obtain ⟨column, rest⟩ := read
    cases rest with
    | nil => rfl
    | cons t rest =>
      simp only [Except.map, bind, Except.bind, upperRest, upperTokens, List.map_cons,
        t.type_upper]
      by_cases htype : t.type = .operator
      · have hkeep : t.upper = t := if_neg (by rw [htype]; decide)
        have hliteral := parserExpectLiteral_upper rest
        unfold upperTokens at hliteral
        rw [hkeep, hliteral, if_neg (not_not.mpr htype), if_neg (not_not.mpr htype)]
        cases utilsSafeStrcpy 4 t.value.text with
        | none => rfl
        | some op =>
          cases parserExpectLiteral rest <;> rfl
      · rw [if_pos htype, if_pos htype]

theorem parserOptionalWhere_upper (tokens : Tokens) :
    parserOptionalWhere (upperTokens tokens) =
      (parserOptionalWhere tokens).map (upperRest (Option.map WhereClause.upper)) := by
  unfold parserOptionalWhere
  rw [parserIsToken_upper tokens (.inl (by decide))]
  split
  · have hdrop : (upperTokens tokens).drop 1 = upperTokens (tokens.drop 1) := List.map_drop.symm
    rw [hdrop, parserParseWhere_upper]
    cases parserParseWhere (tokens.drop 1) <;> rfl
  · rfl

theorem parserParseSelectColumns_upper (tokens : Tokens) :
    parserParseSelectColumns (upperTokens tokens) =
      (parserParseSelectColumns tokens).map (upperRest (Columns.map upperStr)) := by
  unfold parserParseSelectColumns
  rw [parserIsToken_upper tokens (.inr rfl)]
  split
  · exact congrArg (fun rest => Except.ok (Columns.none, rest)) List.map_drop.symm
  · exact parserListLoop_upper identifierOf_upper _ tokens .none

/-- The end of a statement. -/
theorem parserEnd_upper (tokens : Tokens) (stmt : SqlStatement) :
    (parserConsumeOptionalSemicolon (upperTokens tokens) >>= fun _ => Except.ok stmt.upper) =
      (parserConsumeOptionalSemicolon tokens >>= fun _ => Except.ok stmt).map
        SqlStatement.upper := by
  rw [parserConsumeOptionalSemicolon_upper]
  cases parserConsumeOptionalSemicolon tokens <;> rfl

theorem parserParseSelect_upper (tokens : Tokens) :
    parserParseSelect (upperTokens tokens) = (parserParseSelect tokens).map SqlStatement.upper := by
  refine Sql.bind_map (parserExpectToken_upper (by decide) tokens) fun tokens => ?_
  refine Sql.bind_map (parserParseSelectColumns_upper tokens) fun columns => ?_
  refine Sql.bind_map (parserExpectToken_upper (by decide) columns.2) fun tokens => ?_
  refine Sql.bind_map (parserExpectIdentifier_upper tokens) fun name => ?_
  refine Sql.bind_map (parserOptionalWhere_upper name.2) fun clause => ?_
  exact parserEnd_upper clause.2 (.select ⟨name.1, columns.1, clause.1⟩)

theorem parserParseDelete_upper (tokens : Tokens) :
    parserParseDelete (upperTokens tokens) = (parserParseDelete tokens).map SqlStatement.upper := by
  refine Sql.bind_map (parserExpectToken_upper (by decide) tokens) fun tokens => ?_
  refine Sql.bind_map (parserExpectToken_upper (by decide) tokens) fun tokens => ?_
  refine Sql.bind_map (parserExpectIdentifier_upper tokens) fun name => ?_
  refine Sql.bind_map (parserOptionalWhere_upper name.2) fun clause => ?_
  exact parserEnd_upper clause.2 (.delete ⟨name.1, clause.1⟩)

/-- The items of an INSERT. -/
theorem zipWith_upper (columns : List Identifier) (values : List (Literal × ValueKind)) :
    (columns.map upperStr).zipWith (fun c v => (⟨c, v.1, v.2⟩ : InsertItem)) values =
      (columns.zipWith (fun c v => (⟨c, v.1, v.2⟩ : InsertItem)) values).map InsertItem.upper := by
  rw [List.map_zipWith, List.zipWith_map_left]
  rfl

theorem parserParseInsert_upper (tokens : Tokens) :
    parserParseInsert (upperTokens tokens) = (parserParseInsert tokens).map SqlStatement.upper := by
  have hliterals : ∀ tokens, parserListLoop literalOf "Too many values in INSERT statement." .none
      (upperTokens tokens) = (parserListLoop literalOf "Too many values in INSERT statement." .none
        tokens).map (upperRest (Columns.map id)) := fun tokens =>
    parserListLoop_upper (fun t => (literalOf_upper t).trans (by cases literalOf t <;> rfl)) _
      tokens .none
  refine Sql.bind_map (parserExpectToken_upper (by decide) tokens) fun tokens => ?_
  refine Sql.bind_map (parserExpectToken_upper (by decide) tokens) fun tokens => ?_
  refine Sql.bind_map (parserExpectIdentifier_upper tokens) fun name => ?_
  refine Sql.bind_map (parserExpectToken_upper (by decide) name.2) fun tokens => ?_
  refine Sql.bind_map (parserListLoop_upper identifierOf_upper _ tokens .none) fun columns => ?_
  refine Sql.bind_map (parserExpectToken_upper (by decide) columns.2) fun tokens => ?_
  refine Sql.bind_map (parserExpectToken_upper (by decide) tokens) fun tokens => ?_
  refine Sql.bind_map (parserExpectToken_upper (by decide) tokens) fun tokens => ?_
  refine Sql.bind_map (hliterals tokens) fun values => ?_
  refine Sql.bind_map (parserExpectToken_upper (by decide) values.2) fun tokens => ?_
  have hlengths : (columns.1.map upperStr).1.length ≠ (values.1.map id).1.length ↔
      columns.1.1.length ≠ values.1.1.length := by
    rw [Columns.map, Columns.map, List.length_map, List.length_map]
  by_cases hlen : columns.1.1.length ≠ values.1.1.length
  · show (if (columns.1.map upperStr).1.length ≠ (values.1.map id).1.length then _ else _) =
      Except.map _ (if columns.1.1.length ≠ values.1.1.length then _ else _)
    rw [if_pos hlen, if_pos (hlengths.mpr hlen)]
    rfl
  · show (if (columns.1.map upperStr).1.length ≠ (values.1.map id).1.length then _ else _) =
      Except.map _ (if columns.1.1.length ≠ values.1.1.length then _ else _)
    rw [if_neg hlen, if_neg (fun h => hlen (hlengths.mp h)), parserConsumeOptionalSemicolon_upper]
    cases parserConsumeOptionalSemicolon tokens with
    | error e => rfl
    | ok _ =>
      refine congrArg (fun items => Except.ok (SqlStatement.insert ⟨upperStr name.1, items⟩)) ?_
      apply Subtype.ext
      have hvalues : (values.1.map id).1 = values.1.1 := List.map_id _
      show List.zipWith _ (columns.1.map upperStr).1 (values.1.map id).1 = _
      rw [hvalues]
      exact zipWith_upper columns.1.1 values.1.1

/-- The parser commutes with upper case. -/
theorem parserParse_upper (tokens : Tokens) :
    parserParse (upperTokens tokens) = (parserParse tokens).map SqlStatement.upper := by
  have hnil : upperTokens tokens = [] ↔ tokens = [] := List.map_eq_nil_iff
  unfold parserParse
  simp only [hnil, parserIsToken_upper tokens (.inl (by decide : TokenType.keyword ≠ .identifier)),
    apply_ite (Except.map SqlStatement.upper), parserParseInsert_upper, parserParseSelect_upper,
    parserParseDelete_upper]
  rfl

end JungleDb
