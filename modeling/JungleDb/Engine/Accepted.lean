import JungleDb.Runtime.Table
import JungleDb.Sql.Lexeme

/-!
# What the parser lets through

The intended grammar has names and six operators. The tokenizer gives the asterisk the type of a
name and a lone exclamation mark the type of an operator, and the parser looks at the types only; a
text that is accepted is a sentence of the grammar exactly when neither stands where a name or an
operator is read.
-/

namespace JungleDb

open CString

/-! ## The intended grammar -/

def Token.IsName (t : Token) : Prop := t.type = .identifier ∧ JungleDb.IsName t.value.text

def Token.IsOperator (t : Token) : Prop := t.type = .operator ∧ t.value.text ∈ operators

def Token.IsLiteral (t : Token) : Prop :=
  t.type = .strLiteral ∨ t.type = .intLiteral ∧ utilsIsInteger t.value.text = true

/-- An optional WHERE clause. -/
inductive Condition : Tokens → Prop
  | none : Condition []
  | where {column op value : Token} : column.IsName → op.IsOperator → value.IsLiteral →
      Condition [keyword "WHERE", column, op, value]

/-- The sentences of the grammar. -/
inductive Sentence : Tokens → Prop
  | insert {table : Token} {columns values final : Tokens} : table.IsName → columns ≠ [] →
      (∀ t ∈ columns, t.IsName) → (∀ t ∈ values, t.IsLiteral) →
      columns.length = values.length → Final final →
      Sentence ([keyword "INSERT", keyword "INTO", table, lparen] ++ (commaSeparated columns ++
        ([rparen, keyword "VALUES", lparen] ++ (commaSeparated values ++ (rparen :: final)))))
  | selectAll {table : Token} {clause final : Tokens} : table.IsName → Condition clause →
      Final final →
      Sentence (keyword "SELECT" :: asterisk :: keyword "FROM" :: table :: (clause ++ final))
  | select {table : Token} {columns clause final : Tokens} : table.IsName → columns ≠ [] →
      (∀ t ∈ columns, t.IsName) → Condition clause → Final final →
      Sentence (keyword "SELECT" :: (commaSeparated columns ++
        (keyword "FROM" :: table :: (clause ++ final))))
  | delete {table : Token} {clause final : Tokens} : table.IsName → Condition clause →
      Final final → Sentence (keyword "DELETE" :: keyword "FROM" :: table :: (clause ++ final))

/-! ## The two tokens that are no sentence's -/

/-- A lone `!`, which the tokenizer calls an operator. -/
def bang : Token := fixed .operator "!"

/-- The token is neither `*` nor `!`. -/
def Token.Plain (t : Token) : Prop := t ≠ asterisk ∧ t ≠ bang

instance (t : Token) : Decidable t.Plain := inferInstanceAs (Decidable (_ ∧ _))

theorem Token.IsName.plain {t : Token} (h : t.IsName) : t.Plain := by
  obtain ⟨htype, ⟨-, hword⟩, -⟩ := h
  constructor
  · rintro rfl
    exact absurd hword (by decide)
  · rintro rfl
    exact absurd htype (by decide)

theorem Token.IsOperator.plain {t : Token} (h : t.IsOperator) : t.Plain := by
  obtain ⟨htype, hop⟩ := h
  constructor
  · rintro rfl
    exact absurd htype (by decide)
  · rintro rfl
    exact absurd hop (by decide)

theorem Token.IsLiteral.plain {t : Token} (h : t.IsLiteral) : t.Plain := by
  constructor
  · rintro rfl
    rcases h with h | h
    · exact absurd h (by decide)
    · exact absurd h.1 (by decide)
  · rintro rfl
    rcases h with h | h
    · exact absurd h (by decide)
    · exact absurd h.1 (by decide)

theorem commaSeparated_plain {tokens : Tokens} (h : ∀ t ∈ tokens, t.Plain) :
    ∀ t ∈ commaSeparated tokens, t.Plain := by
  intro t ht
  rcases mem_commaSeparated ht with rfl | ht
  · decide
  · exact h t ht

theorem Final.plain {tokens : Tokens} (h : Final tokens) : ∀ t ∈ tokens, t.Plain := by
  rcases h with rfl | rfl
  · nofun
  · decide

theorem Condition.plain {tokens : Tokens} (h : Condition tokens) : ∀ t ∈ tokens, t.Plain := by
  cases h with
  | none => nofun
  | «where» hcolumn hop hvalue =>
    simp only [List.forall_mem_cons]
    exact ⟨by decide, hcolumn.plain, hop.plain, hvalue.plain, nofun⟩

/-- A sentence has neither of them after its second token. -/
theorem Sentence.plain {tokens : Tokens} (h : Sentence tokens) :
    ∀ t ∈ tokens.drop 2, t.Plain := by
  cases h with
  | insert htable _ hcolumns hvalues _ hfinal =>
    simp only [List.cons_append, List.nil_append, List.drop_succ_cons, List.drop_zero,
      List.forall_mem_cons, List.forall_mem_append]
    exact ⟨htable.plain, by decide, commaSeparated_plain fun t ht => (hcolumns t ht).plain,
      by decide, by decide, by decide, commaSeparated_plain fun t ht => (hvalues t ht).plain,
      by decide, hfinal.plain⟩
  | selectAll htable hclause hfinal =>
    simp only [List.drop_succ_cons, List.drop_zero, List.forall_mem_cons, List.forall_mem_append]
    exact ⟨by decide, htable.plain, hclause.plain, hfinal.plain⟩
  | @select table columns clause final htable _ hcolumns hclause hfinal =>
    have hall : ∀ t ∈ commaSeparated columns ++ (keyword "FROM" :: table :: (clause ++ final)),
        t.Plain := by
      simp only [List.forall_mem_cons, List.forall_mem_append]
      exact ⟨commaSeparated_plain fun t ht => (hcolumns t ht).plain, by decide, htable.plain,
        hclause.plain, hfinal.plain⟩
    exact fun t ht => hall t (List.mem_of_mem_drop (i := 1) ht)
  | delete htable hclause hfinal =>
    simp only [List.drop_succ_cons, List.drop_zero, List.forall_mem_cons, List.forall_mem_append]
    exact ⟨htable.plain, hclause.plain, hfinal.plain⟩

/-! ## The tokens of the tokenizer -/

/-- What the tokenizer can deliver under the type. -/
def Token.Lexed (t : Token) : Prop :=
  (t.type = .identifier → t.IsName ∨ t = asterisk) ∧
    (t.type = .operator → t.IsOperator ∨ t = bang) ∧
    (t.type = .intLiteral → utilsIsInteger t.value.text = true)

theorem Token.Scanned.lexed {t : Token} (h : t.Scanned) : t.Lexed := by
  obtain ⟨type, value⟩ := t
  rcases h with h | ⟨htype, hvalue⟩ | ⟨htype, -⟩
  · cases type with
    | identifier =>
      refine ⟨fun _ => ?_, nofun, nofun⟩
      rcases h with h | h
      · exact .inl ⟨rfl, h⟩
      · exact .inr h
    | operator => exact ⟨nofun, fun _ => .inl ⟨rfl, h⟩, nofun⟩
    | intLiteral => exact ⟨nofun, nofun, fun _ => h⟩
    | _ => exact ⟨nofun, nofun, nofun⟩
  · obtain rfl : type = .operator := htype
    exact ⟨nofun, fun _ => .inr (congrArg (Token.mk .operator) (CStr.ext hvalue)), nofun⟩
  · obtain rfl : type = .unknown := htype
    exact ⟨nofun, nofun, nofun⟩

theorem tokenizerTokenize_lexed {sql : Bytes} {tokens : Tokens}
    (h : tokenizerTokenize sql = .ok tokens) : ∀ t ∈ tokens, t.Lexed := by
  unfold tokenizerTokenize at h
  simp only at h
  split at h
  · cases h
  · exact fun t ht => ((tokenizerTokenizeSql_interleaved h).2 t ht).lexed

/-! ## What reaches the executor -/

/-- Every name is one, and the operator is one that `table_where_matches` knows: it is satisfied by
some comparison. -/
structure SqlStatement.Understood (stmt : SqlStatement) : Prop where
  names : ∀ name ∈ stmt.identifiers, IsName name.text
  operator : ∀ clause ∈ stmt.clause, ∃ comparison, tableWhereMatches comparison clause.op.text

theorem tableWhereMatches_operator {op : Bytes} :
    (∃ comparison, tableWhereMatches comparison op = true) ↔ op ∈ operators := by
  constructor
  · rintro ⟨comparison, h⟩
    by_contra hop
    have hne : ∀ s : String, bytes s ∈ operators → op ≠ bytes s := fun s hs heq => hop (heq ▸ hs)
    rw [tableWhereMatches, if_neg (hne "=" (by decide)), if_neg (hne "!=" (by decide)),
      if_neg (hne ">" (by decide)), if_neg (hne ">=" (by decide)), if_neg (hne "<" (by decide)),
      if_neg (hne "<=" (by decide))] at h
    cases h
  · intro h
    simp only [operators, List.map_cons, List.map_nil, List.mem_cons, List.not_mem_nil,
      or_false] at h
    rcases h with rfl | rfl | rfl | rfl | rfl | rfl
    · exact ⟨0, by decide⟩
    · exact ⟨1, by decide⟩
    · exact ⟨-1, by decide⟩
    · exact ⟨0, by decide⟩
    · exact ⟨1, by decide⟩
    · exact ⟨0, by decide⟩

theorem mem_commaSeparated_of_mem {t : Token} {tokens : Tokens} (h : t ∈ tokens) :
    t ∈ commaSeparated tokens := by
  induction tokens with
  | nil => cases h
  | cons u tokens ih =>
    cases tokens with
    | nil => exact h
    | cons v tokens =>
      rw [commaSeparated_cons_cons, List.mem_cons, List.mem_cons]
      rcases List.mem_cons.mp h with rfl | h
      · exact .inl rfl
      · exact .inr (.inr (ih h))

theorem mem_drop_commaSeparated {t u : Token} {tokens : Tokens} (h : t ∈ tokens) :
    t ∈ (commaSeparated (u :: tokens)).drop 1 := by
  cases tokens with
  | nil => cases h
  | cons v tokens => exact List.mem_cons_of_mem _ (mem_commaSeparated_of_mem h)

theorem columnTokens_drop (stmt : SelectStatement) :
    (SqlStatement.select stmt).tokens.drop 2 = stmt.columnTokens.drop 1 ++
      (keyword "FROM" :: nameToken stmt.tableName :: whereTokens stmt.where) := by
  have hlen : 1 ≤ stmt.columnTokens.length := by
    unfold SelectStatement.columnTokens
    split
    · exact le_rfl
    · rename_i hne
      rw [commaSeparated, List.length_intersperse, List.length_map]
      have := List.length_pos_of_ne_nil hne
      omega
  rw [SqlStatement.tokens, List.drop_succ_cons, List.drop_append_of_le_length hlen]

theorem clause_column_mem {clause : Option WhereClause} {name : Identifier}
    (h : name ∈ clause.toList.map WhereClause.column) : nameToken name ∈ whereTokens clause := by
  obtain ⟨c, hc, rfl⟩ := List.mem_map.mp h
  obtain rfl := Option.mem_toList.mp hc
  exact List.mem_cons_of_mem _ List.mem_cons_self

/-- Every name of a statement is a token of it: one after the second, or no `*`. -/
theorem nameToken_mem {stmt : SqlStatement} (hwritable : stmt.Writable) {name : Identifier}
    (h : name ∈ stmt.identifiers) :
    nameToken name ∈ stmt.tokens.drop 2 ∨
      nameToken name ∈ stmt.tokens ∧ nameToken name ≠ asterisk := by
  cases stmt with
  | insert stmt =>
    left
    rcases List.mem_cons.mp h with rfl | h
    · exact List.mem_cons_self
    · have hmem := mem_commaSeparated_of_mem (List.mem_map_of_mem (f := nameToken) h)
      exact List.mem_cons_of_mem _ (List.mem_cons_of_mem _
        (List.mem_append_right _ (List.mem_append_left _ hmem)))
  | select stmt =>
    rw [columnTokens_drop]
    rcases List.mem_cons.mp h with rfl | h
    · left
      apply List.mem_append_right
      exact List.mem_cons_of_mem _ List.mem_cons_self
    rcases List.mem_append.mp h with h | h
    · have hne : stmt.columns.1 ≠ [] := List.ne_nil_of_mem h
      obtain ⟨table, ⟨names, hlen⟩, clause⟩ := stmt
      cases names with
      | nil => exact absurd rfl hne
      | cons first names =>
        rcases List.mem_cons.mp h with rfl | h
        · right
          refine ⟨?_, hwritable _ rfl⟩
          apply List.mem_cons_of_mem
          apply List.mem_append_left
          exact mem_commaSeparated_of_mem List.mem_cons_self
        · left
          apply List.mem_append_left
          exact mem_drop_commaSeparated (List.mem_map_of_mem h)
    · left
      apply List.mem_append_right
      exact List.mem_cons_of_mem _ (List.mem_cons_of_mem _ (clause_column_mem h))
  | delete stmt =>
    left
    rcases List.mem_cons.mp h with rfl | h
    · exact List.mem_cons_self
    · exact List.mem_cons_of_mem _ (clause_column_mem h)

theorem operatorToken_mem {stmt : SqlStatement} {clause : WhereClause}
    (h : clause ∈ stmt.clause) : operatorToken clause.op ∈ stmt.tokens.drop 2 := by
  have hwhere : ∀ {o : Option WhereClause}, clause ∈ o → operatorToken clause.op ∈ whereTokens o :=
    fun {o} ho => by
      obtain rfl := Option.mem_def.mp ho
      exact List.mem_cons_of_mem _ (List.mem_cons_of_mem _ List.mem_cons_self)
  cases stmt with
  | insert stmt => cases h
  | select stmt =>
    rw [columnTokens_drop]
    apply List.mem_append_right
    exact List.mem_cons_of_mem _ (List.mem_cons_of_mem _ (hwhere h))
  | delete stmt => exact List.mem_cons_of_mem _ (hwhere h)

theorem mem_drop_append {tokens rest : Tokens} {t : Token} (h : t ∈ tokens.drop 2) :
    t ∈ (tokens ++ rest).drop 2 := by
  rw [List.drop_append]
  exact List.mem_append_left _ h

/-- Tokens of the tokenizer that are plain make a statement that is understood. -/
theorem understood_of_plain {stmt : SqlStatement} (hwritable : stmt.Writable)
    (hlexed : ∀ t ∈ stmt.tokens, t.Lexed) (hplain : ∀ t ∈ stmt.tokens.drop 2, t.Plain) :
    stmt.Understood := by
  constructor
  · intro name hname
    have hmem : nameToken name ∈ stmt.tokens ∧ nameToken name ≠ asterisk := by
      rcases nameToken_mem hwritable hname with h | h
      · exact ⟨List.mem_of_mem_drop h, (hplain _ h).1⟩
      · exact h
    have hident := ((hlexed _ hmem.1).1 rfl).resolve_right hmem.2
    exact hident.2
  · intro clause hclause
    have hmem := operatorToken_mem hclause
    have hop := ((hlexed _ (List.mem_of_mem_drop hmem)).2.1 rfl).resolve_right (hplain _ hmem).2
    exact tableWhereMatches_operator.mpr hop.2

theorem literalToken_isLiteral {value : Literal × ValueKind} (h : (literalToken value).Lexed) :
    (literalToken value).IsLiteral := by
  obtain ⟨v, kind⟩ := value
  cases kind with
  | int => exact .inr ⟨rfl, h.2.2 rfl⟩
  | string => exact .inl rfl

theorem whereTokens_condition {clause : Option WhereClause}
    (hnames : ∀ name ∈ clause.toList.map WhereClause.column, IsName name.text)
    (hop : ∀ c ∈ clause, c.op.text ∈ operators) (hlexed : ∀ t ∈ whereTokens clause, t.Lexed) :
    Condition (whereTokens clause) := by
  cases clause with
  | none => exact .none
  | some c =>
    refine .where ⟨rfl, hnames _ List.mem_cons_self⟩ ⟨rfl, hop c rfl⟩ ?_
    apply literalToken_isLiteral
    apply hlexed
    simp only [whereTokens, WhereClause.tokens, List.mem_cons, true_or, or_true]

/-- The tokens of a statement that is understood are a sentence. -/
theorem SqlStatement.Understood.sentence {stmt : SqlStatement} (h : stmt.Understood)
    (hwritable : stmt.Writable) (hlexed : ∀ t ∈ stmt.tokens, t.Lexed) {rest : Tokens}
    (hrest : Final rest) : Sentence (stmt.tokens ++ rest) := by
  have hop : ∀ c ∈ stmt.clause, c.op.text ∈ operators := fun c hc =>
    tableWhereMatches_operator.mp (h.operator c hc)
  have hname : ∀ name ∈ stmt.identifiers, (nameToken name).IsName := fun name hmem =>
    ⟨rfl, h.names name hmem⟩
  cases stmt with
  | insert stmt =>
    have hcolumns : ∀ t ∈ stmt.names.map nameToken, t.IsName := by
      intro t ht
      obtain ⟨name, hmem, rfl⟩ := List.mem_map.mp ht
      exact hname name (List.mem_cons_of_mem _ hmem)
    have hvalues : ∀ t ∈ stmt.literals.map literalToken, t.IsLiteral := by
      intro t ht
      obtain ⟨value, -, rfl⟩ := List.mem_map.mp ht
      apply literalToken_isLiteral
      apply hlexed
      have hmem := mem_commaSeparated_of_mem ht
      simp only [SqlStatement.tokens, List.mem_append, hmem, true_or, or_true]
    have hne : stmt.names.map nameToken ≠ [] := fun hnil =>
      hwritable (List.map_eq_nil_iff.mp (List.map_eq_nil_iff.mp hnil))
    have hlen : (stmt.names.map nameToken).length = (stmt.literals.map literalToken).length := by
      rw [InsertStatement.names, InsertStatement.literals]
      simp only [List.length_map]
    have hsentence := Sentence.insert (hname _ List.mem_cons_self) hne hcolumns hvalues hlen hrest
    simp only [SqlStatement.tokens, List.append_assoc, List.singleton_append]
    exact hsentence
  | select stmt =>
    have htable := hname _ List.mem_cons_self
    have hnames := fun name hmem => h.names name (List.mem_cons_of_mem _ hmem)
    have hcondition : Condition (whereTokens stmt.where) := by
      apply whereTokens_condition
      · exact fun name hmem => hnames name (List.mem_append_right _ hmem)
      · exact hop
      · intro t ht
        apply hlexed
        simp only [SqlStatement.tokens, List.mem_cons, List.mem_append, ht, or_true]
    by_cases hnil : stmt.columns.1 = []
    · rw [SqlStatement.tokens, SelectStatement.columnTokens, if_pos hnil]
      exact .selectAll htable hcondition hrest
    · have hne : stmt.columns.1.map nameToken ≠ [] := fun h => hnil (List.map_eq_nil_iff.mp h)
      have hcolumns : ∀ t ∈ stmt.columns.1.map nameToken, t.IsName := by
        intro t ht
        obtain ⟨name, hmem, rfl⟩ := List.mem_map.mp ht
        exact ⟨rfl, hnames name (List.mem_append_left _ hmem)⟩
      have hsentence := Sentence.select htable hne hcolumns hcondition hrest
      rw [SqlStatement.tokens, SelectStatement.columnTokens, if_neg hnil]
      simpa only [List.append_assoc, List.cons_append] using hsentence
  | delete stmt =>
    refine .delete (hname _ List.mem_cons_self) ?_ hrest
    apply whereTokens_condition
    · exact fun name hmem => h.names name (List.mem_cons_of_mem _ hmem)
    · exact hop
    · intro t ht
      exact hlexed t (List.mem_cons_of_mem _ (List.mem_cons_of_mem _ (List.mem_cons_of_mem _ ht)))

/-- A text is tokenized and parsed. Its tokens are a sentence of the grammar, and the statement has
names and an operator that the executor implements, exactly when no token after the second is the
`*` or the lone `!`. -/
theorem parserParse_sentence {sql : Bytes} {tokens : Tokens} {stmt : SqlStatement}
    (htokens : tokenizerTokenize sql = .ok tokens) (hparse : parserParse tokens = .ok stmt) :
    Sentence tokens ∧ stmt.Understood ↔ ∀ t ∈ tokens.drop 2, t.Plain := by
  obtain ⟨hwritable, rest, hrest, rfl⟩ := parserParse_ok.mp hparse
  have hlexed : ∀ t ∈ stmt.tokens, t.Lexed := fun t ht =>
    tokenizerTokenize_lexed htokens t (List.mem_append_left _ ht)
  constructor
  · exact fun h => h.1.plain
  · intro hplain
    have hunderstood := understood_of_plain hwritable hlexed fun t ht =>
      hplain t (mem_drop_append ht)
    exact ⟨hunderstood.sentence hwritable hlexed hrest, hunderstood⟩

/-- Both succeed on a text, and its tokens pass a test. -/
theorem exists_of_parsed (sql : Bytes) (test : Tokens → Bool)
    (h : ((tokenizerTokenize sql).toOption.any fun tokens =>
      test tokens && (parserParse tokens).toOption.isSome) = true) :
    ∃ tokens stmt, tokenizerTokenize sql = .ok tokens ∧ parserParse tokens = .ok stmt ∧
      test tokens = true := by
  cases htokens : tokenizerTokenize sql with
  | error e =>
    rw [htokens] at h
    cases h
  | ok tokens =>
    rw [htokens, Except.toOption, Option.any_some, Bool.and_eq_true] at h
    obtain ⟨htest, hsome⟩ := h
    cases hparse : parserParse tokens with
    | error e =>
      rw [hparse] at hsome
      cases hsome
    | ok stmt => exact ⟨tokens, stmt, rfl, hparse, htest⟩

/-- A text in the grammar. -/
theorem parserParse_sentence_lessThan :
    ∃ tokens stmt, tokenizerTokenize (bytes "SELECT * FROM t WHERE a < 5;") = .ok tokens ∧
      parserParse tokens = .ok stmt ∧ Sentence tokens ∧ stmt.Understood := by
  obtain ⟨tokens, stmt, htokens, hparse, hplain⟩ :=
    exists_of_parsed (bytes "SELECT * FROM t WHERE a < 5;")
      (fun tokens => decide (∀ t ∈ tokens.drop 2, t.Plain)) (by decide +kernel)
  exact ⟨tokens, stmt, htokens, hparse,
    (parserParse_sentence htokens hparse).mpr (of_decide_eq_true hplain)⟩

/-- A table called `*` and an operator `!` are accepted; the operator is never satisfied. -/
theorem parserParse_beyond_sentence :
    (∃ tokens stmt, tokenizerTokenize (bytes "INSERT INTO * (a) VALUES (1)") = .ok tokens ∧
      parserParse tokens = .ok stmt ∧ ¬ Sentence tokens) ∧
    (∃ tokens stmt, tokenizerTokenize (bytes "SELECT * FROM t WHERE a ! 5") = .ok tokens ∧
      parserParse tokens = .ok stmt ∧ ¬ Sentence tokens) ∧
    ∀ comparison, tableWhereMatches comparison (bytes "!") = false := by
  refine ⟨?_, ?_, ?_⟩
  · obtain ⟨tokens, stmt, htokens, hparse, hplain⟩ :=
      exists_of_parsed (bytes "INSERT INTO * (a) VALUES (1)")
        (fun tokens => !decide (∀ t ∈ tokens.drop 2, t.Plain)) (by decide +kernel)
    refine ⟨tokens, stmt, htokens, hparse, fun h => ?_⟩
    exact of_decide_eq_false (Bool.not_eq_true' _ |>.mp hplain) h.plain
  · obtain ⟨tokens, stmt, htokens, hparse, hplain⟩ :=
      exists_of_parsed (bytes "SELECT * FROM t WHERE a ! 5")
        (fun tokens => !decide (∀ t ∈ tokens.drop 2, t.Plain)) (by decide +kernel)
    refine ⟨tokens, stmt, htokens, hparse, fun h => ?_⟩
    exact of_decide_eq_false (Bool.not_eq_true' _ |>.mp hplain) h.plain
  · intro comparison
    rw [← Bool.not_eq_true]
    intro h
    exact absurd (tableWhereMatches_operator.mp ⟨comparison, h⟩) (by decide)

end JungleDb
