import JungleDb.Sql.Tokenizer

/-!
# The parser of `parser.c`

Every function takes the tokens from the current index on and returns those after the part it has
read. The lists of a statement carry the bound `MAX_COLUMNS` of the arrays that hold them.
-/

namespace JungleDb

open CString

/-- A name kept in a `char[MAX_IDENTIFIER_LEN]`. -/
abbrev Identifier := CStr MAX_IDENTIFIER_LEN

/-- A literal kept in a `char[MAX_VALUE_LEN]`. -/
abbrev Literal := CStr MAX_VALUE_LEN

inductive ValueKind
  | int
  | string
  deriving DecidableEq, Repr, Inhabited

/-- The used part of an array of `MAX_COLUMNS` elements. -/
abbrev Columns (α : Type) := {as : List α // as.length ≤ MAX_COLUMNS}

/-- A column of an INSERT and the value for it. -/
structure InsertItem where
  column : Identifier
  value : Literal
  valueKind : ValueKind
  deriving DecidableEq

/-- `InsertStatement`, its three arrays as one. -/
structure InsertStatement where
  tableName : Identifier
  items : Columns InsertItem
  deriving DecidableEq

structure WhereClause where
  column : Identifier
  op : CStr 4
  value : Literal
  valueKind : ValueKind
  deriving DecidableEq

/-- The size of `op`. -/
instance instNeZeroOp : NeZero 4 := ⟨by decide⟩

/-- `SelectStatement`; no columns stand for `*`. -/
structure SelectStatement where
  tableName : Identifier
  columns : Columns Identifier
  «where» : Option WhereClause
  deriving DecidableEq

structure DeleteStatement where
  tableName : Identifier
  «where» : Option WhereClause
  deriving DecidableEq

inductive SqlStatement
  | insert (stmt : InsertStatement)
  | select (stmt : SelectStatement)
  | delete (stmt : DeleteStatement)
  deriving DecidableEq

/-- A rest of the token array. -/
abbrev Tokens := List Token

/-- The token has the type and the text. -/
def Token.is (t : Token) (type : TokenType) (value : String) : Bool :=
  t.type == type && t.value.text == bytes value

/-- `parser_is_token` at the head. -/
def parserIsToken (tokens : Tokens) (type : TokenType) (value : String) : Bool :=
  tokens.head?.any fun t => t.is type value

/-- `if (!parser_is_token(..)) { parser_print_error(error); return FAILURE; } index++;` -/
def parserExpectToken (type : TokenType) (value error : String) (tokens : Tokens) : Sql Tokens :=
  if parserIsToken tokens type value then .ok (tokens.drop 1) else .error (message error)

/-- `parser_expect_keyword`. -/
def parserExpectKeyword (keyword : String) (tokens : Tokens) : Sql Tokens :=
  parserExpectToken .keyword keyword "Unexpected SQL syntax." tokens

/-- The token as an identifier. -/
def identifierOf (t : Token) : Sql Identifier :=
  if t.type = .identifier then
    orError "Identifier is too long." (utilsSafeStrcpy MAX_IDENTIFIER_LEN t.value.text)
  else .error (message "Expected identifier.")

/-- `parser_expect_identifier`. -/
def parserExpectIdentifier : Tokens → Sql (Identifier × Tokens)
  | [] => .error (message "Expected identifier.")
  | t :: tokens => do
    let name ← identifierOf t
    .ok (name, tokens)

/-- The token as a literal. -/
def literalOf (t : Token) : Sql (Literal × ValueKind) :=
  if t.type ≠ .intLiteral ∧ t.type ≠ .strLiteral then .error (message "Expected literal value.")
  else do
    let value ← orError "Literal value is too long." (utilsSafeStrcpy MAX_VALUE_LEN t.value.text)
    .ok (value, if t.type = .intLiteral then .int else .string)

/-- `parser_expect_literal`. -/
def parserExpectLiteral : Tokens → Sql ((Literal × ValueKind) × Tokens)
  | [] => .error (message "Expected literal value.")
  | t :: tokens => do
    let value ← literalOf t
    .ok (value, tokens)

/-- `parser_consume_optional_semicolon`. -/
def parserConsumeOptionalSemicolon (tokens : Tokens) : Sql Unit :=
  let tokens := if parserIsToken tokens .semicolon ";" then tokens.drop 1 else tokens
  if tokens = [] then .ok () else .error (message "Unexpected trailing tokens.")

/-- The loop over a list of elements with commas between them; `tooMany` is the error where the
array is full. -/
def parserListLoop {α : Type} (element : Token → Sql α) (tooMany : String) (read : Columns α) :
    Tokens → Sql (Columns α × Tokens)
  | [] => .ok (read, [])
  | t :: tokens =>
    if h : MAX_COLUMNS ≤ read.1.length then .error (message tooMany)
    else do
      let a ← element t
      let read : Columns α := ⟨read.1 ++ [a], by
        rw [List.length_append, List.length_singleton]
        exact Nat.lt_of_not_le h⟩
      match tokens with
      | comma :: rest =>
        if comma.is .comma "," then parserListLoop element tooMany read rest
        else .ok (read, comma :: rest)
      | [] => .ok (read, [])

/-- No elements yet. -/
def Columns.none {α : Type} : Columns α := ⟨[], Nat.zero_le _⟩

/-- `parser_parse_insert`. -/
def parserParseInsert (tokens : Tokens) : Sql SqlStatement := do
  let tokens ← parserExpectKeyword "INSERT" tokens
  let tokens ← parserExpectKeyword "INTO" tokens
  let (tableName, tokens) ← parserExpectIdentifier tokens
  let tokens ← parserExpectToken .lparen "(" "Expected '(' after table name." tokens
  let (columns, tokens) ←
    parserListLoop identifierOf "Too many columns in INSERT statement." .none tokens
  let tokens ← parserExpectToken .rparen ")" "Expected ')' after column list." tokens
  let tokens ← parserExpectKeyword "VALUES" tokens
  let tokens ← parserExpectToken .lparen "(" "Expected '(' before VALUES list." tokens
  let (values, tokens) ←
    parserListLoop literalOf "Too many values in INSERT statement." .none tokens
  let tokens ← parserExpectToken .rparen ")" "Expected ')' after VALUES list." tokens
  if columns.1.length ≠ values.1.length then
    .error (message "Column count doesn't match value count.")
  else
    parserConsumeOptionalSemicolon tokens
    let items : Columns InsertItem :=
      ⟨columns.1.zipWith (fun c v => ⟨c, v.1, v.2⟩) values.1, by
        rw [List.length_zipWith]
        exact (Nat.min_le_left _ _).trans columns.2⟩
    .ok (.insert ⟨tableName, items⟩)

/-- `parser_parse_select_columns`. -/
def parserParseSelectColumns (tokens : Tokens) : Sql (Columns Identifier × Tokens) :=
  if parserIsToken tokens .identifier "*" then .ok (.none, tokens.drop 1)
  else parserListLoop identifierOf "Too many columns in SELECT statement." .none tokens

/-- `parser_parse_where`. -/
def parserParseWhere (tokens : Tokens) : Sql (WhereClause × Tokens) := do
  let (column, tokens) ← parserExpectIdentifier tokens
  match tokens with
  | [] => .error (message "Expected operator in WHERE clause.")
  | t :: tokens =>
    if t.type ≠ .operator then .error (message "Expected operator in WHERE clause.")
    else
      let op ← orError "WHERE operator is invalid." (utilsSafeStrcpy 4 t.value.text)
      let ((value, kind), tokens) ← parserExpectLiteral tokens
      .ok (⟨column, op, value, kind⟩, tokens)

/-- The optional WHERE clause. -/
def parserOptionalWhere (tokens : Tokens) : Sql (Option WhereClause × Tokens) :=
  if parserIsToken tokens .keyword "WHERE" then do
    let (clause, tokens) ← parserParseWhere (tokens.drop 1)
    .ok (some clause, tokens)
  else .ok (none, tokens)

/-- `parser_parse_select`. -/
def parserParseSelect (tokens : Tokens) : Sql SqlStatement := do
  let tokens ← parserExpectKeyword "SELECT" tokens
  let (columns, tokens) ← parserParseSelectColumns tokens
  let tokens ← parserExpectKeyword "FROM" tokens
  let (tableName, tokens) ← parserExpectIdentifier tokens
  let (clause, tokens) ← parserOptionalWhere tokens
  parserConsumeOptionalSemicolon tokens
  .ok (.select ⟨tableName, columns, clause⟩)

/-- `parser_parse_delete`. -/
def parserParseDelete (tokens : Tokens) : Sql SqlStatement := do
  let tokens ← parserExpectKeyword "DELETE" tokens
  let tokens ← parserExpectKeyword "FROM" tokens
  let (tableName, tokens) ← parserExpectIdentifier tokens
  let (clause, tokens) ← parserOptionalWhere tokens
  parserConsumeOptionalSemicolon tokens
  .ok (.delete ⟨tableName, clause⟩)

/-- `parser_parse`. -/
def parserParse (tokens : Tokens) : Sql SqlStatement :=
  if tokens = [] then .error (message "Empty SQL statement.")
  else if parserIsToken tokens .keyword "INSERT" then parserParseInsert tokens
  else if parserIsToken tokens .keyword "SELECT" then parserParseSelect tokens
  else if parserIsToken tokens .keyword "DELETE" then parserParseDelete tokens
  else .error (message "Unsupported SQL statement.")

/-! ## The values of an INSERT -/

/-- A value of kind INT is an integer text. -/
def InsertItem.Sound (item : InsertItem) : Prop :=
  item.valueKind = .int → utilsIsInteger item.value.text = true

theorem literalOf_sound {t : Token} {value : Literal} {kind : ValueKind} (ht : t.Sound)
    (h : literalOf t = .ok (value, kind)) (hkind : kind = .int) :
    utilsIsInteger value.text = true := by
  unfold literalOf at h
  split at h
  · cases h
  · obtain ⟨v, hv, h⟩ := Sql.bind_ok.mp h
    obtain ⟨rfl, rfl⟩ := Prod.mk.inj (Except.ok.inj h)
    split at hkind
    · rename_i htype
      rw [utilsSafeStrcpy_eq_some.mp (orError_ok.mp hv)]
      exact ht htype
    · cases hkind

/-- What holds of every element read holds of the list. -/
theorem parserListLoop_all {α : Type} {element : Token → Sql α} {tooMany : String}
    {P : α → Prop} {tokens : Tokens}
    (hP : ∀ t ∈ tokens, ∀ a, element t = .ok a → P a) {read read' : Columns α} {rest : Tokens}
    (hread : ∀ a ∈ read.1, P a)
    (h : parserListLoop element tooMany read tokens = .ok (read', rest)) :
    (∀ a ∈ read'.1, P a) ∧ rest ⊆ tokens := by
  fun_induction parserListLoop element tooMany read tokens with
  | case1 read =>
    obtain ⟨rfl, rfl⟩ := Prod.mk.inj (Except.ok.inj h)
    exact ⟨hread, fun _ h => h⟩
  | case2 => cases h
  | case3 read t tokens hfull ih =>
    obtain ⟨a, ha, h⟩ := Sql.bind_ok.mp h
    have hread' : ∀ b ∈ read.1 ++ [a], P b := by
      intro b hb
      rcases List.mem_append.mp hb with hb | hb
      · exact hread b hb
      · rw [List.mem_singleton.mp hb]
        exact hP t List.mem_cons_self a ha
    cases tokens with
    | nil =>
      obtain ⟨rfl, rfl⟩ := Prod.mk.inj (Except.ok.inj h)
      exact ⟨hread', by simp⟩
    | cons comma tokens =>
      simp only at h
      split at h
      · obtain ⟨hall, hsub⟩ := ih a
          (fun t' ht' => hP t' (List.mem_cons_of_mem _ (List.mem_cons_of_mem _ ht'))) hread' h
        exact ⟨hall, fun t' ht' => List.mem_cons_of_mem _ (List.mem_cons_of_mem _ (hsub ht'))⟩
      · obtain ⟨rfl, rfl⟩ := Prod.mk.inj (Except.ok.inj h)
        exact ⟨hread', fun t' ht' => List.mem_cons_of_mem _ ht'⟩

theorem parserExpectToken_subset {type : TokenType} {value error : String} {tokens rest : Tokens}
    (h : parserExpectToken type value error tokens = .ok rest) : rest ⊆ tokens := by
  unfold parserExpectToken at h
  split at h
  · rw [← Except.ok.inj h]
    exact List.drop_subset 1 tokens
  · cases h

theorem parserExpectIdentifier_subset {tokens rest : Tokens} {name : Identifier}
    (h : parserExpectIdentifier tokens = .ok (name, rest)) : rest ⊆ tokens := by
  cases tokens with
  | nil => cases h
  | cons t tokens =>
    obtain ⟨_, -, h⟩ := Sql.bind_ok.mp h
    obtain ⟨-, rfl⟩ := Prod.mk.inj (Except.ok.inj h)
    exact List.subset_cons_self t tokens

theorem mem_zipWith_right {α β γ : Type} {f : α → β → γ} {c : γ} : ∀ {as : List α} {bs : List β},
    c ∈ List.zipWith f as bs → ∃ a, ∃ b ∈ bs, c = f a b
  | a :: as, b :: bs, h => by
    rw [List.zipWith_cons_cons, List.mem_cons] at h
    rcases h with rfl | h
    · exact ⟨a, b, List.mem_cons_self, rfl⟩
    · obtain ⟨a', b', hb, rfl⟩ := mem_zipWith_right h
      exact ⟨a', b', List.mem_cons_of_mem b hb, rfl⟩

theorem parserParseInsert_sound {tokens : Tokens} {stmt : SqlStatement}
    (hsound : ∀ t ∈ tokens, t.Sound) (h : parserParseInsert tokens = .ok stmt) :
    ∃ insert : InsertStatement, stmt = .insert insert ∧ ∀ item ∈ insert.items.1, item.Sound := by
  obtain ⟨tokens₁, h₁, h⟩ := Sql.bind_ok.mp h
  obtain ⟨tokens₂, h₂, h⟩ := Sql.bind_ok.mp h
  obtain ⟨⟨tableName, tokens₃⟩, h₃, h⟩ := Sql.bind_ok.mp h
  obtain ⟨tokens₄, h₄, h⟩ := Sql.bind_ok.mp h
  obtain ⟨⟨columns, tokens₅⟩, h₅, h⟩ := Sql.bind_ok.mp h
  obtain ⟨tokens₆, h₆, h⟩ := Sql.bind_ok.mp h
  obtain ⟨tokens₇, h₇, h⟩ := Sql.bind_ok.mp h
  obtain ⟨tokens₈, h₈, h⟩ := Sql.bind_ok.mp h
  obtain ⟨⟨values, tokens₉⟩, h₉, h⟩ := Sql.bind_ok.mp h
  obtain ⟨tokens₁₀, -, h⟩ := Sql.bind_ok.mp h
  split at h
  · cases h
  · obtain ⟨-, -, h⟩ := Sql.bind_ok.mp h
    refine ⟨_, (Except.ok.inj h).symm, ?_⟩
    have hsub : tokens₈ ⊆ tokens := by
      have hcolumns := (parserListLoop_all (P := fun _ => True) (fun _ _ _ _ => trivial)
        (fun _ _ => trivial) h₅).2
      exact List.Subset.trans (parserExpectToken_subset h₈) <|
        List.Subset.trans (parserExpectToken_subset h₇) <|
        List.Subset.trans (parserExpectToken_subset h₆) <| List.Subset.trans hcolumns <|
        List.Subset.trans (parserExpectToken_subset h₄) <|
        List.Subset.trans (parserExpectIdentifier_subset h₃) <|
        List.Subset.trans (parserExpectToken_subset h₂) (parserExpectToken_subset h₁)
    obtain ⟨hvalues, -⟩ := parserListLoop_all
      (P := fun v : Literal × ValueKind => v.2 = .int → utilsIsInteger v.1.text = true)
      (fun t ht v hv => literalOf_sound (hsound t (hsub ht)) hv) (by nofun) h₉
    intro item hitem
    obtain ⟨column, v, hv, rfl⟩ := mem_zipWith_right hitem
    exact hvalues v hv

/-- An INSERT that parses has integer texts for its INT values. -/
theorem parserParse_sound {tokens : Tokens} {insert : InsertStatement}
    (hsound : ∀ t ∈ tokens, t.Sound) (h : parserParse tokens = .ok (.insert insert)) :
    ∀ item ∈ insert.items.1, item.Sound := by
  unfold parserParse at h
  split at h
  · cases h
  split at h
  · obtain ⟨insert', hinsert, hitems⟩ := parserParseInsert_sound hsound h
    obtain rfl := SqlStatement.insert.inj hinsert
    exact hitems
  split at h
  · obtain ⟨_, -, h⟩ := Sql.bind_ok.mp h
    obtain ⟨_, -, h⟩ := Sql.bind_ok.mp h
    obtain ⟨_, -, h⟩ := Sql.bind_ok.mp h
    obtain ⟨_, -, h⟩ := Sql.bind_ok.mp h
    obtain ⟨_, -, h⟩ := Sql.bind_ok.mp h
    obtain ⟨_, -, h⟩ := Sql.bind_ok.mp h
    cases h
  split at h
  · obtain ⟨_, -, h⟩ := Sql.bind_ok.mp h
    obtain ⟨_, -, h⟩ := Sql.bind_ok.mp h
    obtain ⟨_, -, h⟩ := Sql.bind_ok.mp h
    obtain ⟨_, -, h⟩ := Sql.bind_ok.mp h
    obtain ⟨_, -, h⟩ := Sql.bind_ok.mp h
    cases h
  · cases h

end JungleDb
