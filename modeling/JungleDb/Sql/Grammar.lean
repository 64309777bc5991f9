import JungleDb.Sql.Parser

/-!
# The tokens of a statement

A statement is written as one list of tokens. The parser accepts exactly these lists, each with at
most one semicolon after it, and returns the statement that is written; only what a name or an
operator may be is left to the tokenizer.
-/

namespace JungleDb

open CString

/-! ## Names and operators -/

/-- `[A-Za-z_][A-Za-z0-9_]*` -/
def IsWord (text : Bytes) : Prop :=
  (text.head?.any fun c => isalpha c || c == ch '_') = true ∧ text.all isWordByte = true

/-- A word that is no keyword. -/
def IsName (text : Bytes) : Prop := IsWord text ∧ utilsIsSqlKeyword text = false

theorem tokenizerReadWord_isWord {c : UInt8} {sql rest : Bytes} {word : CStr MAX_TOKEN_VALUE}
    (hstart : (isalpha c || c == ch '_') = true)
    (h : tokenizerReadWord (c :: sql) = .ok (word, rest)) : IsWord word.text := by
  have hword : isWordByte c = true := by
    simp only [isWordByte, isalnum, Bool.or_eq_true] at hstart ⊢
    exact hstart.imp_left .inl
  have htext := (readWhile_ok h).1
  rw [CStr.text_empty, List.nil_append, List.takeWhile_cons_of_pos hword] at htext
  rw [htext]
  constructor
  · exact hstart
  · rw [List.all_cons, hword, Bool.true_and]
    exact List.all_takeWhile

/-- The six operators. -/
def operators : List Bytes := ["=", "!=", "<", "<=", ">", ">="].map bytes

/-! ## Writing a statement -/

/-- A token of one fixed text. -/
def fixed (type : TokenType) (text : String) : Token := ⟨type, lit _ text⟩

/-- A keyword. -/
def keyword (text : String) : Token := fixed .keyword text

def comma : Token := fixed .comma ","

def semicolon : Token := fixed .semicolon ";"

def lparen : Token := fixed .lparen "("

def rparen : Token := fixed .rparen ")"

/-- The `*` of a SELECT, which the tokenizer calls an identifier. -/
def asterisk : Token := fixed .identifier "*"

/-- The token of a name. -/
def nameToken (name : Identifier) : Token :=
  ⟨.identifier, name.text, name.fits.trans (by decide)⟩

/-- The token of an operator. -/
def operatorToken (op : CStr 4) : Token := ⟨.operator, op.text, op.fits.trans (by decide)⟩

/-- The type of the token of a literal. -/
def ValueKind.tokenType : ValueKind → TokenType
  | .int => .intLiteral
  | .string => .strLiteral

/-- The token of a literal. -/
def literalToken (value : Literal × ValueKind) : Token := ⟨value.2.tokenType, value.1⟩

/-- Tokens with commas between them. -/
def commaSeparated (tokens : Tokens) : Tokens := tokens.intersperse comma

/-- The tokens of a WHERE clause. -/
def WhereClause.tokens (clause : WhereClause) : Tokens :=
  [keyword "WHERE", nameToken clause.column, operatorToken clause.op,
    literalToken (clause.value, clause.valueKind)]

/-- The tokens of an optional WHERE clause. -/
def whereTokens : Option WhereClause → Tokens
  | none => []
  | some clause => clause.tokens

/-- The column names of an INSERT. -/
def InsertStatement.names (stmt : InsertStatement) : List Identifier :=
  stmt.items.1.map InsertItem.column

/-- The values of an INSERT with their kinds. -/
def InsertStatement.literals (stmt : InsertStatement) : List (Literal × ValueKind) :=
  stmt.items.1.map fun item => (item.value, item.valueKind)

/-- The tokens of the columns of a SELECT. -/
def SelectStatement.columnTokens (stmt : SelectStatement) : Tokens :=
  if stmt.columns.1 = [] then [asterisk] else commaSeparated (stmt.columns.1.map nameToken)

/-- The tokens of a statement. -/
def SqlStatement.tokens : SqlStatement → Tokens
  | .insert stmt =>
    [keyword "INSERT", keyword "INTO", nameToken stmt.tableName, lparen] ++
      (commaSeparated (stmt.names.map nameToken) ++ ([rparen, keyword "VALUES", lparen] ++
        (commaSeparated (stmt.literals.map literalToken) ++ [rparen])))
  | .select stmt =>
    keyword "SELECT" :: (stmt.columnTokens ++
      (keyword "FROM" :: nameToken stmt.tableName :: whereTokens stmt.where))
  | .delete stmt =>
    keyword "DELETE" :: keyword "FROM" :: nameToken stmt.tableName :: whereTokens stmt.where

/-- The names in a statement: its table, its columns and the column of its WHERE clause. -/
def SqlStatement.identifiers : SqlStatement → List Identifier
  | .insert stmt => stmt.tableName :: stmt.names
  | .select stmt => stmt.tableName :: (stmt.columns.1 ++ stmt.where.toList.map WhereClause.column)
  | .delete stmt => stmt.tableName :: stmt.where.toList.map WhereClause.column

/-- Its WHERE clause. -/
def SqlStatement.clause : SqlStatement → Option WhereClause
  | .insert _ => none
  | .select stmt => stmt.where
  | .delete stmt => stmt.where

/-- Its literals. -/
def SqlStatement.literals : SqlStatement → List (Literal × ValueKind)
  | .insert stmt => stmt.literals
  | .select stmt => stmt.where.toList.map fun clause => (clause.value, clause.valueKind)
  | .delete stmt => stmt.where.toList.map fun clause => (clause.value, clause.valueKind)

/-- The statement is written in one way: an INSERT has columns, and the first column of a SELECT is
not written like `*`. -/
def SqlStatement.Writable : SqlStatement → Prop
  | .insert stmt => stmt.items.1 ≠ []
  | .select stmt => ∀ name ∈ stmt.columns.1.head?, nameToken name ≠ asterisk
  | .delete _ => True

/-! ## Single tokens -/

theorem Token.is_iff {t : Token} {type : TokenType} {text : String}
    (htext : (bytes text).length < MAX_TOKEN_VALUE) :
    t.is type text = true ↔ t = fixed type text := by
  have hlit : (lit MAX_TOKEN_VALUE text).text = bytes text :=
    List.take_of_length_le (Nat.le_sub_one_of_lt htext)
  obtain ⟨type', value⟩ := t
  rw [Token.is, Bool.and_eq_true, beq_iff_eq, beq_iff_eq, fixed, Token.mk.injEq, CStr.ext_iff,
    hlit]

theorem parserIsToken_iff {tokens : Tokens} {type : TokenType} {text : String}
    (htext : (bytes text).length < MAX_TOKEN_VALUE) :
    parserIsToken tokens type text = true ↔ ∃ rest, tokens = fixed type text :: rest := by
  unfold parserIsToken
  cases tokens with
  | nil => simp
  | cons t tokens =>
    rw [List.head?_cons, Option.any_some, Token.is_iff htext]
    simp

theorem parserExpectToken_ok {type : TokenType} {text error : String} {tokens rest : Tokens}
    (htext : (bytes text).length < MAX_TOKEN_VALUE) :
    parserExpectToken type text error tokens = .ok rest ↔ tokens = fixed type text :: rest := by
  unfold parserExpectToken
  split
  · rename_i his
    obtain ⟨rest', rfl⟩ := (parserIsToken_iff htext).mp his
    simp
  · rename_i his
    refine ⟨nofun, fun htokens => absurd ?_ his⟩
    exact (parserIsToken_iff htext).mpr ⟨rest, htokens⟩

theorem parserExpectKeyword_ok {text : String} {tokens rest : Tokens}
    (htext : (bytes text).length < MAX_TOKEN_VALUE) :
    parserExpectKeyword text tokens = .ok rest ↔ tokens = keyword text :: rest :=
  parserExpectToken_ok htext

theorem identifierOf_ok {t : Token} {name : Identifier} :
    identifierOf t = .ok name ↔ t = nameToken name := by
  unfold identifierOf
  obtain ⟨type, value⟩ := t
  split
  · rename_i htype
    have htype' : type = .identifier := htype
    subst htype'
    rw [orError_ok, utilsSafeStrcpy_eq_some, nameToken, Token.mk.injEq, CStr.ext_iff]
    exact ⟨fun h => ⟨rfl, h.symm⟩, fun h => h.2.symm⟩
  · rename_i htype
    refine ⟨nofun, fun h => absurd (congrArg Token.type h) htype⟩

theorem literalOf_ok {t : Token} {value : Literal × ValueKind} :
    literalOf t = .ok value ↔ t = literalToken value := by
  unfold literalOf
  obtain ⟨type, text⟩ := t
  obtain ⟨v, kind⟩ := value
  split
  · rename_i htype
    refine ⟨nofun, fun h => absurd htype ?_⟩
    obtain ⟨htype', -⟩ := Token.mk.inj h
    cases kind <;> simp [htype', ValueKind.tokenType]
  · rename_i htype
    rw [Sql.bind_ok]
    simp only [orError_ok, utilsSafeStrcpy_eq_some]
    constructor
    · rintro ⟨v', hv', hok⟩
      obtain ⟨rfl, rfl⟩ := Prod.mk.inj (Except.ok.inj hok)
      rw [literalToken, Token.mk.injEq]
      refine ⟨?_, CStr.ext hv'.symm⟩
      split
      · rename_i hint
        exact hint
      · rename_i hint
        have hboth := not_and_or.mp htype
        rw [not_not, not_not] at hboth
        exact hboth.resolve_left hint
    · intro h
      obtain ⟨htype', rfl⟩ := Token.mk.inj h
      refine ⟨text, rfl, ?_⟩
      cases kind with
      | int =>
        have hint : type = .intLiteral := htype'
        rw [hint]
        rfl
      | string =>
        have hstr : type = .strLiteral := htype'
        rw [hstr]
        rfl

theorem parserExpectIdentifier_ok {tokens rest : Tokens} {name : Identifier} :
    parserExpectIdentifier tokens = .ok (name, rest) ↔ tokens = nameToken name :: rest := by
  cases tokens with
  | nil => exact ⟨nofun, nofun⟩
  | cons t tokens =>
    rw [parserExpectIdentifier, Sql.bind_ok, List.cons.injEq, ← identifierOf_ok]
    constructor
    · rintro ⟨name', hname, hok⟩
      obtain ⟨rfl, rfl⟩ := Prod.mk.inj (Except.ok.inj hok)
      exact ⟨hname, rfl⟩
    · rintro ⟨hname, rfl⟩
      exact ⟨name, hname, rfl⟩

theorem parserExpectLiteral_ok {tokens rest : Tokens} {value : Literal × ValueKind} :
    parserExpectLiteral tokens = .ok (value, rest) ↔ tokens = literalToken value :: rest := by
  cases tokens with
  | nil => exact ⟨nofun, nofun⟩
  | cons t tokens =>
    rw [parserExpectLiteral, Sql.bind_ok, List.cons.injEq, ← literalOf_ok]
    constructor
    · rintro ⟨value', hvalue, hok⟩
      obtain ⟨rfl, rfl⟩ := Prod.mk.inj (Except.ok.inj hok)
      exact ⟨hvalue, rfl⟩
    · rintro ⟨hvalue, rfl⟩
      exact ⟨value, hvalue, rfl⟩

/-! ## Lists -/

section lists

variable {α : Type} {element : Token → Sql α} {write : α → Token} {tooMany : String}

theorem commaSeparated_cons_cons (t u : Token) (tokens : Tokens) :
    commaSeparated (t :: u :: tokens) = t :: comma :: commaSeparated (u :: tokens) := rfl

/-- The tokens between the commas. -/
theorem mem_commaSeparated {t : Token} {tokens : Tokens} (h : t ∈ commaSeparated tokens) :
    t = comma ∨ t ∈ tokens := by
  induction tokens with
  | nil => cases h
  | cons u tokens ih =>
    cases tokens with
    | nil => exact .inr h
    | cons v tokens =>
      rw [commaSeparated_cons_cons, List.mem_cons, List.mem_cons] at h
      rcases h with rfl | rfl | h
      · exact .inr List.mem_cons_self
      · exact .inl rfl
      · exact (ih h).imp_right (List.mem_cons_of_mem u)

/-- The elements that are read before other tokens are those that are written, with commas. -/
theorem parserListLoop_written (helement : ∀ {t a}, element t = .ok a ↔ t = write a)
    {read read' : Columns α} {tokens rest : Tokens} (hrest : rest ≠ [])
    (h : parserListLoop element tooMany read tokens = .ok (read', rest)) :
    ∃ as, as ≠ [] ∧ read'.1 = read.1 ++ as ∧ tokens = commaSeparated (as.map write) ++ rest := by
  fun_induction parserListLoop element tooMany read tokens with
  | case1 read =>
    obtain ⟨-, rfl⟩ := Prod.mk.inj (Except.ok.inj h)
    exact absurd rfl hrest
  | case2 => cases h
  | case3 read t tokens hfull ih =>
    obtain ⟨a, ha, hrun⟩ := Sql.bind_ok.mp h
    obtain rfl := helement.mp ha
    cases tokens with
    | nil =>
      obtain ⟨-, rfl⟩ := Prod.mk.inj (Except.ok.inj hrun)
      exact absurd rfl hrest
    | cons c tokens =>
      simp only at hrun
      split at hrun
      · rename_i hcomma
        obtain rfl := (Token.is_iff (by decide)).mp hcomma
        obtain ⟨as, hne, hread, rfl⟩ := ih a hrun
        refine ⟨a :: as, List.cons_ne_nil _ _, ?_, ?_⟩
        · rw [hread, List.append_assoc]
          rfl
        · cases as with
          | nil => exact absurd rfl hne
          | cons b as => rfl
      · obtain ⟨rfl, rfl⟩ := Prod.mk.inj (Except.ok.inj hrun)
        exact ⟨[a], List.cons_ne_nil _ _, rfl, rfl⟩

/-- Elements that are written with commas, before a token that is no comma, are read. -/
theorem parserListLoop_read (helement : ∀ {t a}, element t = .ok a ↔ t = write a)
    {as : List α} (hne : as ≠ []) {read read' : Columns α} (hread : read'.1 = read.1 ++ as)
    {t : Token} {rest : Tokens} (ht : t ≠ comma) :
    parserListLoop element tooMany read (commaSeparated (as.map write) ++ t :: rest) =
      .ok (read', t :: rest) := by
  induction as generalizing read with
  | nil => exact absurd rfl hne
  | cons a as ih =>
    have hlen : read.1.length + (a :: as).length ≤ MAX_COLUMNS := by
      rw [← List.length_append, ← hread]
      exact read'.2
    rw [List.length_cons] at hlen
    have hroom : ¬ MAX_COLUMNS ≤ read.1.length := by omega
    have ha : element (write a) = .ok a := helement.mpr rfl
    cases as with
    | nil =>
      have hend : t.is .comma "," = false := by
        rw [← Bool.not_eq_true, Token.is_iff (by decide)]
        exact ht
      show parserListLoop element tooMany read (write a :: t :: rest) = _
      rw [parserListLoop, dif_neg hroom, ha]
      simp only [bind, Except.bind, hend, Bool.false_eq_true, if_false]
      congr 2
      exact Subtype.ext hread.symm
    | cons b as =>
      have hcomma : comma.is .comma "," = true := by decide
      show parserListLoop element tooMany read
        (write a :: comma :: (commaSeparated ((b :: as).map write) ++ t :: rest)) = _
      rw [parserListLoop, dif_neg hroom, ha]
      simp only [bind, Except.bind, hcomma, if_true]
      apply ih (List.cons_ne_nil _ _)
      rw [hread, List.append_assoc]
      rfl

end lists

/-! ## Clauses -/

/-- What may come after a statement. -/
def Final (tokens : Tokens) : Prop := tokens = [] ∨ tokens = [semicolon]

theorem parserConsumeOptionalSemicolon_ok {tokens : Tokens} :
    parserConsumeOptionalSemicolon tokens = .ok () ↔ Final tokens := by
  unfold parserConsumeOptionalSemicolon
  simp only
  by_cases hsemi : parserIsToken tokens .semicolon ";" = true
  · obtain ⟨rest, rfl⟩ := (parserIsToken_iff (by decide)).mp hsemi
    rw [if_pos hsemi, List.drop_one, List.tail_cons]
    cases rest with
    | nil => exact ⟨fun _ => .inr rfl, fun _ => rfl⟩
    | cons t rest =>
      rw [if_neg (List.cons_ne_nil _ _)]
      refine ⟨nofun, ?_⟩
      rintro (h | h)
      · cases h
      · cases h
  · rw [if_neg hsemi]
    by_cases hnil : tokens = []
    · rw [if_pos hnil]
      exact ⟨fun _ => .inl hnil, fun _ => rfl⟩
    · rw [if_neg hnil]
      refine ⟨nofun, ?_⟩
      rintro (h | h)
      · exact absurd h hnil
      · exact absurd ((parserIsToken_iff (by decide)).mpr ⟨[], h⟩) hsemi

theorem parserParseWhere_ok {tokens rest : Tokens} {clause : WhereClause} :
    parserParseWhere tokens = .ok (clause, rest) ↔
      keyword "WHERE" :: tokens = clause.tokens ++ rest := by
  unfold parserParseWhere
  constructor
  · intro h
    obtain ⟨⟨column, tokens₁⟩, h₁, hrun⟩ := Sql.bind_ok.mp h
    obtain rfl := parserExpectIdentifier_ok.mp h₁
    cases tokens₁ with
    | nil => cases hrun
    | cons t tokens₁ =>
      simp only at hrun
      split at hrun
      · cases hrun
      · rename_i htype
        obtain ⟨op, hop, hliteral⟩ := Sql.bind_ok.mp hrun
        obtain ⟨⟨⟨value, kind⟩, tokens₂⟩, h₂, hok⟩ := Sql.bind_ok.mp hliteral
        obtain rfl := parserExpectLiteral_ok.mp h₂
        obtain ⟨rfl, rfl⟩ := Prod.mk.inj (Except.ok.inj hok)
        have ht : t = operatorToken op := by
          obtain ⟨type, text⟩ := t
          rw [operatorToken, Token.mk.injEq, CStr.ext_iff]
          exact ⟨not_not.mp htype, (utilsSafeStrcpy_eq_some.mp (orError_ok.mp hop)).symm⟩
        rw [ht]
        rfl
  · intro h
    obtain ⟨-, rfl⟩ := List.cons.inj h
    rw [List.append_eq, List.cons_append, parserExpectIdentifier_ok.mpr rfl]
    have hop : orError "WHERE operator is invalid."
        (utilsSafeStrcpy 4 clause.op.text) = .ok clause.op :=
      orError_ok.mpr (utilsSafeStrcpy_text clause.op)
    simp only [bind, Except.bind, List.cons_append, List.nil_append,
      parserExpectLiteral_ok.mpr rfl, hop, not_true_eq_false, ne_eq, if_false, operatorToken]

theorem parserOptionalWhere_ok {tokens rest : Tokens} {clause : Option WhereClause}
    (hrest : Final rest) :
    parserOptionalWhere tokens = .ok (clause, rest) ↔ tokens = whereTokens clause ++ rest := by
  have hno : parserIsToken rest .keyword "WHERE" = false := by
    rcases hrest with rfl | rfl
    · rfl
    · decide
  unfold parserOptionalWhere
  constructor
  · intro h
    split at h
    · rename_i hwhere
      obtain ⟨tokens', rfl⟩ := (parserIsToken_iff (by decide)).mp hwhere
      obtain ⟨⟨clause', rest'⟩, hclause, h⟩ := Sql.bind_ok.mp h
      obtain ⟨rfl, rfl⟩ := Prod.mk.inj (Except.ok.inj h)
      exact parserParseWhere_ok.mp hclause
    · obtain ⟨rfl, rfl⟩ := Prod.mk.inj (Except.ok.inj h)
      rfl
  · rintro rfl
    cases clause with
    | none =>
      rw [whereTokens, List.nil_append, hno]
      rfl
    | some clause =>
      have hwhere : parserIsToken (clause.tokens ++ rest) .keyword "WHERE" = true :=
        (parserIsToken_iff (by decide)).mpr ⟨_, rfl⟩
      rw [whereTokens, if_pos hwhere, Sql.bind_ok]
      exact ⟨(clause, rest), parserParseWhere_ok.mpr rfl, rfl⟩

/-- The columns that are read before other tokens are those that are written. -/
theorem parserParseSelectColumns_written {tokens rest : Tokens} (hrest : rest ≠ [])
    {columns : Columns Identifier} (h : parserParseSelectColumns tokens = .ok (columns, rest)) :
    (∀ name ∈ columns.1.head?, nameToken name ≠ asterisk) ∧
      tokens = (if columns.1 = [] then [asterisk]
        else commaSeparated (columns.1.map nameToken)) ++ rest := by
  unfold parserParseSelectColumns at h
  split at h
  · rename_i hall
    obtain ⟨rest', rfl⟩ := (parserIsToken_iff (by decide)).mp hall
    obtain ⟨rfl, rfl⟩ := Prod.mk.inj (Except.ok.inj h)
    exact ⟨nofun, rfl⟩
  · rename_i hall
    obtain ⟨names, hne, hnames, rfl⟩ := parserListLoop_written identifierOf_ok hrest h
    have hcolumns : columns.1 = names := hnames
    rw [hcolumns, if_neg hne]
    refine ⟨?_, rfl⟩
    intro name hname hasterisk
    apply hall
    cases names with
    | nil => exact absurd rfl hne
    | cons name' names =>
      obtain rfl := Option.some.inj hname
      rw [parserIsToken_iff (by decide)]
      cases names with
      | nil => exact ⟨rest, by rw [List.map_cons, hasterisk]; rfl⟩
      | cons _ _ => exact ⟨_, by rw [List.map_cons, hasterisk]; rfl⟩

/-- Columns that are written before another keyword are read. -/
theorem parserParseSelectColumns_read {columns : Columns Identifier}
    (hfirst : ∀ name ∈ columns.1.head?, nameToken name ≠ asterisk) (t : Token) (rest : Tokens)
    (ht : t ≠ comma) :
    parserParseSelectColumns ((if columns.1 = [] then [asterisk]
        else commaSeparated (columns.1.map nameToken)) ++ t :: rest) =
      .ok (columns, t :: rest) := by
  unfold parserParseSelectColumns
  by_cases hnil : columns.1 = []
  · have hall : parserIsToken ([asterisk] ++ t :: rest) .identifier "*" = true :=
      (parserIsToken_iff (by decide)).mpr ⟨t :: rest, rfl⟩
    rw [if_pos hnil, if_pos hall]
    congr 2
    exact Subtype.ext hnil.symm
  · rw [if_neg hnil, if_neg, parserListLoop_read identifierOf_ok hnil rfl ht]
    rw [parserIsToken_iff (by decide)]
    rintro ⟨rest', hrest'⟩
    obtain ⟨names, hlen⟩ := columns
    cases names with
    | nil => exact hnil rfl
    | cons name names =>
      refine hfirst name rfl ?_
      cases names with
      | nil => exact (List.cons.inj hrest').1
      | cons _ _ => exact (List.cons.inj hrest').1

/-! ## Statements -/

theorem parserParseSelect_ok {tokens : Tokens} {stmt : SqlStatement} :
    parserParseSelect tokens = .ok stmt ↔ ∃ select rest, stmt = .select select ∧
      stmt.Writable ∧ Final rest ∧ tokens = stmt.tokens ++ rest := by
  constructor
  · intro h
    obtain ⟨tokens₁, h₁, hrun₁⟩ := Sql.bind_ok.mp h
    obtain ⟨⟨columns, tokens₂⟩, h₂, hrun₂⟩ := Sql.bind_ok.mp hrun₁
    obtain ⟨tokens₃, h₃, hrun₃⟩ := Sql.bind_ok.mp hrun₂
    obtain ⟨⟨table, tokens₄⟩, h₄, hrun₄⟩ := Sql.bind_ok.mp hrun₃
    obtain ⟨⟨clause, rest⟩, h₅, hrun₅⟩ := Sql.bind_ok.mp hrun₄
    obtain ⟨_, h₆, hok⟩ := Sql.bind_ok.mp hrun₅
    have hrest : Final rest := parserConsumeOptionalSemicolon_ok.mp h₆
    obtain rfl := Except.ok.inj hok
    obtain rfl := (parserExpectKeyword_ok (by decide)).mp h₁
    obtain rfl := (parserExpectKeyword_ok (by decide)).mp h₃
    obtain ⟨hfirst, rfl⟩ := parserParseSelectColumns_written (List.cons_ne_nil _ _) h₂
    obtain rfl := parserExpectIdentifier_ok.mp h₄
    obtain rfl := (parserOptionalWhere_ok hrest).mp h₅
    refine ⟨_, rest, rfl, hfirst, hrest, ?_⟩
    rw [SqlStatement.tokens, SelectStatement.columnTokens, List.cons_append, List.append_assoc]
    rfl
  · rintro ⟨select, rest, rfl, hfirst, hrest, rfl⟩
    refine Sql.bind_ok.mpr ⟨_, (parserExpectKeyword_ok (by decide)).mpr rfl, ?_⟩
    rw [List.append_eq, List.append_assoc]
    refine Sql.bind_ok.mpr ⟨_, parserParseSelectColumns_read hfirst _ _ (by decide), ?_⟩
    refine Sql.bind_ok.mpr ⟨_, (parserExpectKeyword_ok (by decide)).mpr rfl, ?_⟩
    refine Sql.bind_ok.mpr ⟨_, parserExpectIdentifier_ok.mpr rfl, ?_⟩
    refine Sql.bind_ok.mpr ⟨_, (parserOptionalWhere_ok hrest).mpr rfl, ?_⟩
    exact Sql.bind_ok.mpr ⟨(), parserConsumeOptionalSemicolon_ok.mpr hrest, rfl⟩

theorem parserParseDelete_ok {tokens : Tokens} {stmt : SqlStatement} :
    parserParseDelete tokens = .ok stmt ↔ ∃ delete rest, stmt = .delete delete ∧
      Final rest ∧ tokens = stmt.tokens ++ rest := by
  constructor
  · intro h
    obtain ⟨tokens₁, h₁, hrun₁⟩ := Sql.bind_ok.mp h
    obtain ⟨tokens₂, h₂, hrun₂⟩ := Sql.bind_ok.mp hrun₁
    obtain ⟨⟨table, tokens₃⟩, h₃, hrun₃⟩ := Sql.bind_ok.mp hrun₂
    obtain ⟨⟨clause, rest⟩, h₄, hrun₄⟩ := Sql.bind_ok.mp hrun₃
    obtain ⟨_, h₅, hok⟩ := Sql.bind_ok.mp hrun₄
    have hrest : Final rest := parserConsumeOptionalSemicolon_ok.mp h₅
    obtain rfl := Except.ok.inj hok
    obtain rfl := (parserExpectKeyword_ok (by decide)).mp h₁
    obtain rfl := (parserExpectKeyword_ok (by decide)).mp h₂
    obtain rfl := parserExpectIdentifier_ok.mp h₃
    obtain rfl := (parserOptionalWhere_ok hrest).mp h₄
    exact ⟨_, rest, rfl, hrest, rfl⟩
  · rintro ⟨delete, rest, rfl, hrest, rfl⟩
    refine Sql.bind_ok.mpr ⟨_, (parserExpectKeyword_ok (by decide)).mpr rfl, ?_⟩
    refine Sql.bind_ok.mpr ⟨_, (parserExpectKeyword_ok (by decide)).mpr rfl, ?_⟩
    refine Sql.bind_ok.mpr ⟨_, parserExpectIdentifier_ok.mpr rfl, ?_⟩
    refine Sql.bind_ok.mpr ⟨_, (parserOptionalWhere_ok hrest).mpr rfl, ?_⟩
    exact Sql.bind_ok.mpr ⟨(), parserConsumeOptionalSemicolon_ok.mpr hrest, rfl⟩

/-- The columns and the values of one statement. -/
theorem zipWith_names_literals (items : List InsertItem) :
    List.zipWith (fun c v => InsertItem.mk c v.1 v.2) (items.map InsertItem.column)
      (items.map fun item => (item.value, item.valueKind)) = items := by
  rw [List.zipWith_map, List.zipWith_self]
  exact List.map_id items

theorem map_column_zipWith : ∀ {names : List Identifier} {literals : List (Literal × ValueKind)},
    names.length = literals.length →
    (List.zipWith (fun c v => InsertItem.mk c v.1 v.2) names literals).map InsertItem.column =
      names
  | [], [], _ => rfl
  | name :: names, _ :: literals, h => by
    rw [List.zipWith_cons_cons, List.map_cons, map_column_zipWith (Nat.succ.inj h)]

theorem map_literal_zipWith : ∀ {names : List Identifier} {literals : List (Literal × ValueKind)},
    names.length = literals.length →
    (List.zipWith (fun c v => InsertItem.mk c v.1 v.2) names literals).map
      (fun item => (item.value, item.valueKind)) = literals
  | [], [], _ => rfl
  | _ :: names, literal :: literals, h => by
    rw [List.zipWith_cons_cons, List.map_cons, map_literal_zipWith (Nat.succ.inj h)]

theorem parserParseInsert_ok {tokens : Tokens} {stmt : SqlStatement} :
    parserParseInsert tokens = .ok stmt ↔ ∃ insert rest, stmt = .insert insert ∧
      stmt.Writable ∧ Final rest ∧ tokens = stmt.tokens ++ rest := by
  constructor
  · intro h
    obtain ⟨tokens₁, h₁, hrun₁⟩ := Sql.bind_ok.mp h
    obtain ⟨tokens₂, h₂, hrun₂⟩ := Sql.bind_ok.mp hrun₁
    obtain ⟨⟨table, tokens₃⟩, h₃, hrun₃⟩ := Sql.bind_ok.mp hrun₂
    obtain ⟨tokens₄, h₄, hrun₄⟩ := Sql.bind_ok.mp hrun₃
    obtain ⟨⟨columns, tokens₅⟩, h₅, hrun₅⟩ := Sql.bind_ok.mp hrun₄
    obtain ⟨tokens₆, h₆, hrun₆⟩ := Sql.bind_ok.mp hrun₅
    obtain ⟨tokens₇, h₇, hrun₇⟩ := Sql.bind_ok.mp hrun₆
    obtain ⟨tokens₈, h₈, hrun₈⟩ := Sql.bind_ok.mp hrun₇
    obtain ⟨⟨values, tokens₉⟩, h₉, hrun₉⟩ := Sql.bind_ok.mp hrun₈
    obtain ⟨rest, h₁₀, hrun₁₀⟩ := Sql.bind_ok.mp hrun₉
    split at hrun₁₀
    · cases hrun₁₀
    · rename_i hcount
      obtain ⟨_, h₁₁, hok⟩ := Sql.bind_ok.mp hrun₁₀
      have hlen : columns.1.length = values.1.length := not_not.mp hcount
      have hrest : Final rest := parserConsumeOptionalSemicolon_ok.mp h₁₁
      obtain rfl := Except.ok.inj hok
      obtain rfl := (parserExpectKeyword_ok (by decide)).mp h₁
      obtain rfl := (parserExpectKeyword_ok (by decide)).mp h₂
      obtain rfl := parserExpectIdentifier_ok.mp h₃
      obtain rfl := (parserExpectToken_ok (by decide)).mp h₄
      obtain rfl := (parserExpectToken_ok (by decide)).mp h₆
      obtain rfl := (parserExpectKeyword_ok (by decide)).mp h₇
      obtain rfl := (parserExpectToken_ok (by decide)).mp h₈
      obtain rfl := (parserExpectToken_ok (by decide)).mp h₁₀
      obtain ⟨names, hne, hnames, rfl⟩ :=
        parserListLoop_written identifierOf_ok (List.cons_ne_nil _ _) h₅
      obtain ⟨literals, -, hliterals, rfl⟩ :=
        parserListLoop_written literalOf_ok (List.cons_ne_nil _ _) h₉
      have hnames' : columns.1 = names := hnames
      have hliterals' : values.1 = literals := hliterals
      rw [hnames', hliterals'] at hlen
      refine ⟨_, rest, rfl, ?_, hrest, ?_⟩
      · show List.zipWith _ columns.1 values.1 ≠ []
        intro hnil
        have hzero := congrArg List.length hnil
        rw [List.length_zipWith, hnames', hliterals', ← hlen, Nat.min_self] at hzero
        exact hne (List.length_eq_zero_iff.mp hzero)
      · simp only [SqlStatement.tokens, InsertStatement.names, InsertStatement.literals, hnames',
          hliterals', map_column_zipWith hlen, map_literal_zipWith hlen, List.append_assoc,
          List.cons_append, List.nil_append, keyword, lparen, rparen]
  · rintro ⟨insert, rest, rfl, hne, hrest, rfl⟩
    have hnames : insert.names ≠ [] := fun h => hne (List.map_eq_nil_iff.mp h)
    have hliterals : insert.literals ≠ [] := fun h => hne (List.map_eq_nil_iff.mp h)
    have hlen : insert.names.length = insert.literals.length := by
      rw [InsertStatement.names, InsertStatement.literals, List.length_map, List.length_map]
    have hroom : insert.names.length ≤ MAX_COLUMNS := by
      rw [InsertStatement.names, List.length_map]
      exact insert.items.2
    simp only [SqlStatement.tokens, List.append_assoc]
    refine Sql.bind_ok.mpr ⟨_, (parserExpectKeyword_ok (by decide)).mpr rfl, ?_⟩
    refine Sql.bind_ok.mpr ⟨_, (parserExpectKeyword_ok (by decide)).mpr rfl, ?_⟩
    refine Sql.bind_ok.mpr ⟨_, parserExpectIdentifier_ok.mpr rfl, ?_⟩
    refine Sql.bind_ok.mpr ⟨_, (parserExpectToken_ok (by decide)).mpr rfl, ?_⟩
    refine Sql.bind_ok.mpr ⟨(⟨insert.names, hroom⟩, _),
      parserListLoop_read identifierOf_ok hnames rfl (by decide), ?_⟩
    refine Sql.bind_ok.mpr ⟨_, (parserExpectToken_ok (by decide)).mpr rfl, ?_⟩
    refine Sql.bind_ok.mpr ⟨_, (parserExpectKeyword_ok (by decide)).mpr rfl, ?_⟩
    refine Sql.bind_ok.mpr ⟨_, (parserExpectToken_ok (by decide)).mpr rfl, ?_⟩
    refine Sql.bind_ok.mpr ⟨(⟨insert.literals, hlen ▸ hroom⟩, _),
      parserListLoop_read literalOf_ok hliterals rfl (by decide), ?_⟩
    refine Sql.bind_ok.mpr ⟨_, (parserExpectToken_ok (by decide)).mpr rfl, ?_⟩
    rw [if_neg (not_not.mpr hlen)]
    refine Sql.bind_ok.mpr ⟨(), parserConsumeOptionalSemicolon_ok.mpr hrest, ?_⟩
    have hitems : List.zipWith (fun c v => InsertItem.mk c v.1 v.2) insert.names insert.literals =
        insert.items.1 := zipWith_names_literals insert.items.1
    simp only [hitems]

/-- The parser accepts exactly the tokens of a statement, with at most one semicolon after them, and
returns this statement. -/
theorem parserParse_ok {tokens : Tokens} {stmt : SqlStatement} :
    parserParse tokens = .ok stmt ↔
      stmt.Writable ∧ ∃ rest, Final rest ∧ tokens = stmt.tokens ++ rest := by
  unfold parserParse
  constructor
  · intro h
    split at h
    · cases h
    split at h
    · obtain ⟨_, rest, rfl, hwritable, hrest, rfl⟩ := parserParseInsert_ok.mp h
      exact ⟨hwritable, rest, hrest, rfl⟩
    split at h
    · obtain ⟨_, rest, rfl, hwritable, hrest, rfl⟩ := parserParseSelect_ok.mp h
      exact ⟨hwritable, rest, hrest, rfl⟩
    split at h
    · obtain ⟨_, rest, rfl, hrest, rfl⟩ := parserParseDelete_ok.mp h
      exact ⟨trivial, rest, hrest, rfl⟩
    · cases h
  · rintro ⟨hwritable, rest, hrest, rfl⟩
    cases stmt with
    | insert stmt =>
      exact parserParseInsert_ok.mpr ⟨stmt, rest, rfl, hwritable, hrest, rfl⟩
    | select stmt =>
      exact parserParseSelect_ok.mpr ⟨stmt, rest, rfl, hwritable, hrest, rfl⟩
    | delete stmt =>
      exact parserParseDelete_ok.mpr ⟨stmt, rest, rfl, hrest, rfl⟩

end JungleDb
