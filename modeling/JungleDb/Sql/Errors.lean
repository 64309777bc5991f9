import JungleDb.Sql.Parser

/-!
# The errors of the tokenizer and the parser

Their texts are fixed: no error says anything of the client's names or literals.
-/

namespace JungleDb

open CString

/-- Every error of the call is one of the texts. -/
def Sql.Errs (texts : List String) {α : Type} (x : Sql α) : Prop :=
  ∀ e, x = .error e → ∃ text ∈ texts, e = message text

namespace Sql.Errs

variable {α β : Type} {texts : List String}

theorem ok (a : α) : Sql.Errs texts (.ok a : Sql α) := nofun

theorem error {text : String} (h : text ∈ texts) : Sql.Errs texts (.error (message text) : Sql α) := by
  intro e he
  exact ⟨text, h, (Except.error.inj he).symm⟩

theorem orError {text : String} (h : text ∈ texts) (o : Option α) :
    Sql.Errs texts (orError text o) := by
  intro e he
  exact ⟨text, h, orError_error he⟩

/-- A call after another one. -/
theorem bind {x : Sql α} {f : α → Sql β} (hx : Sql.Errs texts x) (hf : ∀ a, Sql.Errs texts (f a)) :
    Sql.Errs texts (x >>= f) := by
  intro e he
  rcases Sql.bind_error.mp he with he | ⟨a, -, he⟩
  · exact hx e he
  · exact hf a e he

theorem ite {p : Prop} [Decidable p] {x y : Sql α} (hx : p → Sql.Errs texts x)
    (hy : ¬ p → Sql.Errs texts y) : Sql.Errs texts (if p then x else y) :=
  iteInduction hx hy

end Sql.Errs

/-! ## The tokenizer -/

/-- The errors of `tokenizer_tokenize`. -/
def tokenizerTexts : List String :=
  ["SQL is empty.", "Failed to tokenize SQL.", "Identifier is too long.",
    "String literal is too long.", "Unterminated string literal.", "Integer literal is too long.",
    "Token value is too long."]

theorem readWhile_errs {tooLong : String} (h : tooLong ∈ tokenizerTexts) (p : UInt8 → Bool)
    (buffer : CStr MAX_TOKEN_VALUE) (sql : Bytes) :
    Sql.Errs tokenizerTexts (readWhile p tooLong buffer sql) := by
  intro e he
  exact ⟨tooLong, h, readWhile_error he⟩

theorem readStringBody_errs (buffer : CStr MAX_TOKEN_VALUE) (sql : Bytes) :
    Sql.Errs tokenizerTexts (readStringBody buffer sql) := by
  have hlong : "String literal is too long." ∈ tokenizerTexts := by decide
  fun_induction readStringBody buffer sql with
  | case1 => exact .error (by decide)
  | case2 buffer sql ih => exact .bind (.orError hlong _) ih
  | case3 | case4 => exact .ok _
  | case5 buffer c sql hc ih => exact .bind (.orError hlong _) ih

theorem tokenizerReadNumber_errs (sql : Bytes) :
    Sql.Errs tokenizerTexts (tokenizerReadNumber sql) := by
  have hlong : "Integer literal is too long." ∈ tokenizerTexts := by decide
  unfold tokenizerReadNumber
  cases sql with
  | nil => exact .ok _
  | cons c rest =>
    refine .ite (fun _ => ?_) fun _ => readWhile_errs hlong _ _ _
    exact .bind (.orError hlong _) fun buffer => readWhile_errs hlong _ buffer rest

theorem tokenizerAppendToken_errs (type : TokenType) (value : Bytes) :
    Sql.Errs tokenizerTexts (tokenizerAppendToken type value) :=
  .bind (.orError (by decide) _) fun _ => .ok _

theorem fixedToken_errs (type : TokenType) (value rest : Bytes) :
    Sql.Errs tokenizerTexts (fixedToken type value rest) :=
  .bind (tokenizerAppendToken_errs type value) fun _ => .ok _

theorem tokenOf_errs {type : TokenType} {read : Sql (CStr MAX_TOKEN_VALUE × Bytes)}
    (h : Sql.Errs tokenizerTexts read) : Sql.Errs tokenizerTexts (tokenOf type read) :=
  .bind h fun _ => .bind (tokenizerAppendToken_errs type _) fun _ => .ok _

theorem wordToken_errs (sql : Bytes) : Sql.Errs tokenizerTexts (wordToken sql) := by
  refine .bind (readWhile_errs (by decide) _ _ _) ?_
  rintro ⟨word, rest⟩
  refine .ite (fun _ => ?_) fun _ => .bind (tokenizerAppendToken_errs _ _) fun _ => .ok _
  exact .bind (.orError (by decide) _) fun upper =>
    .bind (tokenizerAppendToken_errs _ _) fun _ => .ok _

theorem tokenizeStep_errs (c : UInt8) (sql : Bytes) :
    Sql.Errs tokenizerTexts (tokenizeStep c sql) := by
  apply tokenizeStep_cases (motive := Sql.Errs tokenizerTexts)
  case space => exact fun _ => .ok _
  case bracket => exact fun _ _ => fixedToken_errs _ _ _
  case asterisk => exact fun _ => fixedToken_errs _ _ _
  case string => exact fun _ => tokenOf_errs (readStringBody_errs _ _)
  case twoBytes => exact fun _ _ => fixedToken_errs _ _ _
  case oneByte => exact fun _ => fixedToken_errs _ _ _
  case number => exact fun _ => tokenOf_errs (tokenizerReadNumber_errs _)
  case word => exact fun _ => wordToken_errs _
  case unknown => exact fun _ _ _ _ => fixedToken_errs _ _ _

theorem tokenizerTokenizeSql_errs (sql : Bytes) :
    Sql.Errs tokenizerTexts (tokenizerTokenizeSql sql) := by
  intro e he
  induction hlen : sql.length using Nat.strong_induction_on generalizing sql with
  | _ length ih =>
    cases sql with
    | nil =>
      rw [tokenizerTokenizeSql] at he
      cases he
    | cons c sql =>
      rw [tokenizerTokenizeSql] at he
      split at he
      · rename_i e' hstep
        exact tokenizeStep_errs c sql e (hstep.trans (congrArg _ (Except.error.inj he)))
      · rename_i token rest hstep
        have hless := tokenizeStep_length hstep
        rw [List.length_cons] at hlen
        split at he
        · rename_i e' hrest
          exact ih rest.length (by omega) rest
            (hrest.trans (congrArg _ (Except.error.inj he))) rfl
        · cases he

/-- The tokenizer fails with one of its texts. -/
theorem tokenizerTokenize_errs (sql : Bytes) : Sql.Errs tokenizerTexts (tokenizerTokenize sql) := by
  unfold tokenizerTokenize
  exact .ite (fun _ => .error (by decide)) fun _ => tokenizerTokenizeSql_errs _

/-! ## The parser -/

/-- The errors of `parser_parse`. -/
def parserTexts : List String :=
  ["Empty SQL statement.", "Unsupported SQL statement.", "Unexpected SQL syntax.",
    "Expected identifier.", "Identifier is too long.", "Expected literal value.",
    "Literal value is too long.", "Expected '(' after table name.",
    "Too many columns in INSERT statement.", "Expected ')' after column list.",
    "Expected '(' before VALUES list.", "Too many values in INSERT statement.",
    "Expected ')' after VALUES list.", "Column count doesn't match value count.",
    "Too many columns in SELECT statement.", "Expected operator in WHERE clause.",
    "WHERE operator is invalid.", "Unexpected trailing tokens."]

theorem parserExpectToken_errs {error : String} (h : error ∈ parserTexts) (type : TokenType)
    (value : String) (tokens : Tokens) :
    Sql.Errs parserTexts (parserExpectToken type value error tokens) :=
  .ite (fun _ => .ok _) fun _ => .error h

theorem parserExpectKeyword_errs (keyword : String) (tokens : Tokens) :
    Sql.Errs parserTexts (parserExpectKeyword keyword tokens) :=
  parserExpectToken_errs (by decide) _ _ _

theorem identifierOf_errs (t : Token) : Sql.Errs parserTexts (identifierOf t) :=
  .ite (fun _ => .orError (by decide) _) fun _ => .error (by decide)

theorem parserExpectIdentifier_errs (tokens : Tokens) :
    Sql.Errs parserTexts (parserExpectIdentifier tokens) := by
  cases tokens with
  | nil => exact .error (by decide)
  | cons t tokens => exact .bind (identifierOf_errs t) fun _ => .ok _

theorem literalOf_errs (t : Token) : Sql.Errs parserTexts (literalOf t) :=
  .ite (fun _ => .error (by decide)) fun _ => .bind (.orError (by decide) _) fun _ => .ok _

theorem parserExpectLiteral_errs (tokens : Tokens) :
    Sql.Errs parserTexts (parserExpectLiteral tokens) := by
  cases tokens with
  | nil => exact .error (by decide)
  | cons t tokens => exact .bind (literalOf_errs t) fun _ => .ok _

theorem parserConsumeOptionalSemicolon_errs (tokens : Tokens) :
    Sql.Errs parserTexts (parserConsumeOptionalSemicolon tokens) :=
  .ite (fun _ => .ok _) fun _ => .error (by decide)

theorem parserListLoop_errs {α : Type} {element : Token → Sql α} {tooMany : String}
    (helement : ∀ t, Sql.Errs parserTexts (element t)) (h : tooMany ∈ parserTexts)
    (read : Columns α) (tokens : Tokens) :
    Sql.Errs parserTexts (parserListLoop element tooMany read tokens) := by
  fun_induction parserListLoop element tooMany read tokens with
  | case1 => exact .ok _
  | case2 => exact .error h
  | case3 read t tokens hroom ih =>
    refine .bind (helement t) fun a => ?_
    cases tokens with
    | nil => exact .ok _
    | cons comma rest => exact .ite (fun _ => ih a) fun _ => .ok _

theorem parserParseInsert_errs (tokens : Tokens) :
    Sql.Errs parserTexts (parserParseInsert tokens) := by
  refine .bind (parserExpectKeyword_errs _ _) fun tokens => ?_
  refine .bind (parserExpectKeyword_errs _ _) fun tokens => ?_
  refine .bind (parserExpectIdentifier_errs _) fun (tableName, tokens) => ?_
  refine .bind (parserExpectToken_errs (by decide) _ _ _) fun tokens => ?_
  refine .bind (parserListLoop_errs identifierOf_errs (by decide) _ _) fun (columns, tokens) => ?_
  refine .bind (parserExpectToken_errs (by decide) _ _ _) fun tokens => ?_
  refine .bind (parserExpectKeyword_errs _ _) fun tokens => ?_
  refine .bind (parserExpectToken_errs (by decide) _ _ _) fun tokens => ?_
  refine .bind (parserListLoop_errs literalOf_errs (by decide) _ _) fun (values, tokens) => ?_
  refine .bind (parserExpectToken_errs (by decide) _ _ _) fun tokens => ?_
  refine .ite (fun _ => .error (by decide)) fun _ => ?_
  exact .bind (parserConsumeOptionalSemicolon_errs tokens) fun _ => .ok _

theorem parserParseSelectColumns_errs (tokens : Tokens) :
    Sql.Errs parserTexts (parserParseSelectColumns tokens) :=
  .ite (fun _ => .ok _) fun _ => parserListLoop_errs identifierOf_errs (by decide) _ _

theorem parserParseWhere_errs (tokens : Tokens) :
    Sql.Errs parserTexts (parserParseWhere tokens) := by
  refine .bind (parserExpectIdentifier_errs _) fun (column, tokens) => ?_
  cases tokens with
  | nil => exact .error (by decide)
  | cons t tokens =>
    refine .ite (fun _ => .error (by decide)) fun _ => ?_
    refine .bind (.orError (by decide) _) fun op => ?_
    exact .bind (parserExpectLiteral_errs tokens) fun _ => .ok _

theorem parserOptionalWhere_errs (tokens : Tokens) :
    Sql.Errs parserTexts (parserOptionalWhere tokens) :=
  .ite (fun _ => .bind (parserParseWhere_errs _) fun _ => .ok _) fun _ => .ok _

theorem parserParseSelect_errs (tokens : Tokens) :
    Sql.Errs parserTexts (parserParseSelect tokens) := by
  refine .bind (parserExpectKeyword_errs _ _) fun tokens => ?_
  refine .bind (parserParseSelectColumns_errs _) fun (columns, tokens) => ?_
  refine .bind (parserExpectKeyword_errs _ _) fun tokens => ?_
  refine .bind (parserExpectIdentifier_errs _) fun (tableName, tokens) => ?_
  refine .bind (parserOptionalWhere_errs _) fun (clause, tokens) => ?_
  exact .bind (parserConsumeOptionalSemicolon_errs tokens) fun _ => .ok _

theorem parserParseDelete_errs (tokens : Tokens) :
    Sql.Errs parserTexts (parserParseDelete tokens) := by
  refine .bind (parserExpectKeyword_errs _ _) fun tokens => ?_
  refine .bind (parserExpectKeyword_errs _ _) fun tokens => ?_
  refine .bind (parserExpectIdentifier_errs _) fun (tableName, tokens) => ?_
  refine .bind (parserOptionalWhere_errs _) fun (clause, tokens) => ?_
  exact .bind (parserConsumeOptionalSemicolon_errs tokens) fun _ => .ok _

/-- The parser fails with one of its texts. -/
theorem parserParse_errs (tokens : Tokens) : Sql.Errs parserTexts (parserParse tokens) := by
  unfold parserParse
  refine .ite (fun _ => .error (by decide)) fun _ => ?_
  refine .ite (fun _ => parserParseInsert_errs tokens) fun _ => ?_
  refine .ite (fun _ => parserParseSelect_errs tokens) fun _ => ?_
  exact .ite (fun _ => parserParseDelete_errs tokens) fun _ => .error (by decide)

end JungleDb
