import JungleDb.Engine.Answer
import JungleDb.Sql.Case

/-!
# The case of names in the engine

A statement does the same as the statement with its names in upper case: it succeeds or fails, it
answers with the same rows, and the tables after it differ at most in the spelling of their columns.
Such tables answer every SELECT with the same rows.
-/

namespace JungleDb

open CString

/-! ## What the case of names does not change -/

/-- A column without the case of its name. -/
def Column.key (c : Column) : Bytes × ValueKind := (nameKey c.name.text, c.kind)

/-- A relation without the case of its names. -/
def Relation.shape (R : Relation) : List (Bytes × ValueKind) × List Row :=
  (R.columns.map Column.key, R.tuples)

/-- A database without the case of the names of its columns. -/
def Database.shape (db : Database) : Bytes → Option (List (Bytes × ValueKind) × List Row) :=
  fun k => (db k).map Relation.shape

/-- What a reply says besides its texts and the names of its columns. -/
def observe (reply : Reply) : Status × List Row := (reply.1, reply.2.rows)

theorem nameKey_nameKey (name : Bytes) : nameKey (nameKey name) = nameKey name :=
  map_toupper_toupper name

theorem sameName_upper (a : Bytes) (name : Identifier) :
    SameName a (upperStr name).text ↔ SameName a name.text := by
  rw [sameName_iff, sameName_iff, text_upperStr]
  exact Eq.congr_right (nameKey_nameKey name.text)

variable {R R' : Relation}

theorem Relation.header_of_shape (h : R.shape = R'.shape) :
    R.header.map Column.key = R'.header.map Column.key :=
  congrArg (idColumn.key :: ·) (Prod.mk.inj h).1

theorem Relation.rows_of_shape (h : R.shape = R'.shape) : R.rows = R'.rows := by
  have htuples : R.tuples = R'.tuples := (Prod.mk.inj h).2
  rw [Relation.rows, htuples]
  rfl

theorem Relation.columnIndex_of_shape (h : R.shape = R'.shape) (name : Bytes) :
    R.columnIndex name = R'.columnIndex name := by
  have hkeys : ∀ R : Relation, R.columnIndex name =
      (R.header.map Column.key).findIdx? fun key => key.1 = nameKey name := by
    intro R
    rw [List.findIdx?_map]
    rfl
  rw [hkeys R, hkeys R', Relation.header_of_shape h]

theorem Relation.kind_of_shape (h : R.shape = R'.shape) (i : Nat) :
    (R.column i).kind = (R'.column i).kind := by
  have hkeys : ∀ R : Relation,
      (R.column i).kind = ((R.header.map Column.key)[i]?.getD idColumn.key).2 := by
    intro R
    rw [List.getElem?_map, Relation.column]
    cases R.header[i]? <;> rfl
  rw [hkeys R, hkeys R', Relation.header_of_shape h]

/-! ## SELECT -/

theorem Relation.projection_of_shape (h : R.shape = R'.shape) (stmt : SelectStatement) :
    R.projection stmt = R'.projection stmt := by
  have hlen : R.header.length = R'.header.length := by
    have hlengths := congrArg List.length (Relation.header_of_shape h)
    rw [List.length_map, List.length_map] at hlengths
    exact hlengths
  unfold Relation.projection
  rw [hlen]
  simp only [Relation.columnIndex_of_shape h]

theorem Relation.comparable_of_shape (h : R.shape = R'.shape) (clause : WhereClause) (i : Nat) :
    R.Comparable clause i ↔ R'.Comparable clause i := by
  unfold Relation.Comparable
  rw [Relation.kind_of_shape h, Relation.rows_of_shape h]

theorem Relation.selectable_of_shape (h : R.shape = R'.shape) (stmt : SelectStatement) :
    R.Selectable stmt ↔ R'.Selectable stmt := by
  unfold Relation.Selectable
  simp only [Relation.columnIndex_of_shape h, Relation.comparable_of_shape h]

theorem Relation.filtered_of_shape (h : R.shape = R'.shape) (clause : Option WhereClause) :
    R.filtered clause = R'.filtered clause := by
  unfold Relation.filtered
  cases clause with
  | none => exact Relation.rows_of_shape h
  | some clause =>
    simp only [Relation.columnIndex_of_shape h, Relation.rows_of_shape h, Relation.kind_of_shape h]

/-- A SELECT that is not answered. -/
theorem observe_failure {stmt : SelectStatement} (h : ¬ R.Selectable stmt) :
    observe (R.reply stmt) = (.failure, []) := by
  have hstatus : (R.reply stmt).1 ≠ .success := fun heq => h (Relation.reply_success.mp heq)
  revert hstatus
  unfold Relation.reply observe
  simp only
  split
  · exact fun _ => rfl
  split
  · exact fun _ => rfl
  · exact fun hne => absurd rfl hne

/-- Relations of one shape answer with the same rows. -/
theorem Relation.observe_of_shape (h : R.shape = R'.shape) (stmt : SelectStatement) :
    observe (R.reply stmt) = observe (R'.reply stmt) := by
  by_cases hsel : R.Selectable stmt
  · obtain ⟨indices, hproj, hreply⟩ := Relation.reply_of_selectable hsel
    obtain ⟨indices', hproj', hreply'⟩ :=
      Relation.reply_of_selectable ((Relation.selectable_of_shape h stmt).mp hsel)
    rw [Relation.projection_of_shape h, hproj', Option.some.injEq] at hproj
    rw [hreply, hreply', hproj, Relation.filtered_of_shape h]
    rfl
  · have hsel' : ¬ R'.Selectable stmt := fun hsel' =>
      hsel ((Relation.selectable_of_shape h stmt).mpr hsel')
    rw [observe_failure hsel, observe_failure hsel']

/-- The names of a SELECT are found whatever their case. -/
theorem Relation.columnIndex_upper (R : Relation) (name : Identifier) :
    R.columnIndex (upperStr name).text = R.columnIndex name.text := by
  unfold Relation.columnIndex
  simp only [sameName_upper]

/-- The SELECT with its names in upper case. -/
def SelectStatement.upper (stmt : SelectStatement) : SelectStatement :=
  ⟨upperStr stmt.tableName, stmt.columns.map upperStr, stmt.where.map WhereClause.upper⟩

theorem Relation.projection_upper (R : Relation) (stmt : SelectStatement) :
    R.projection stmt.upper = R.projection stmt := by
  have hcolumns : stmt.upper.columns.1 = stmt.columns.1.map upperStr := rfl
  unfold Relation.projection
  simp only [hcolumns, List.map_eq_nil_iff, List.mapM_map]
  split
  · rfl
  · exact congrArg (List.mapM · stmt.columns.1) (funext fun name => R.columnIndex_upper name)

theorem Relation.selectable_upper (R : Relation) (stmt : SelectStatement) :
    R.Selectable stmt.upper ↔ R.Selectable stmt := by
  have hcolumns : stmt.upper.columns.1 = stmt.columns.1.map upperStr := rfl
  have hwhere : stmt.upper.where = stmt.where.map WhereClause.upper := rfl
  unfold Relation.Selectable
  rw [hcolumns, hwhere, List.forall_mem_map]
  simp only [R.columnIndex_upper]
  refine and_congr_right fun _ => ?_
  cases stmt.where with
  | none => exact iff_of_true nofun nofun
  | some clause =>
    simp only [Option.map_some, Option.mem_def, Option.some.injEq, forall_eq', WhereClause.upper,
      R.columnIndex_upper]
    rfl

theorem Relation.filtered_upper (R : Relation) (clause : Option WhereClause) :
    R.filtered (clause.map WhereClause.upper) = R.filtered clause := by
  cases clause with
  | none => rfl
  | some clause =>
    simp only [Option.map_some, Relation.filtered, WhereClause.upper, R.columnIndex_upper]
    rfl

/-- A relation answers both alike, and with the same result where it does answer. -/
theorem Relation.reply_upper (R : Relation) (stmt : SelectStatement) :
    observe (R.reply stmt.upper) = observe (R.reply stmt) ∧
      ((R.reply stmt).1 = .success → R.reply stmt.upper = R.reply stmt) := by
  by_cases hsel : R.Selectable stmt
  · obtain ⟨indices, hproj, hreply⟩ := Relation.reply_of_selectable hsel
    obtain ⟨indices', hproj', hreply'⟩ :=
      Relation.reply_of_selectable ((R.selectable_upper stmt).mpr hsel)
    rw [R.projection_upper, hproj, Option.some.injEq] at hproj'
    have hboth : R.reply stmt.upper = R.reply stmt := by
      rw [hreply, hreply', ← hproj']
      show (Status.success, _) = _
      rw [← R.filtered_upper stmt.where]
      rfl
    exact ⟨congrArg observe hboth, fun _ => hboth⟩
  · have hsel' : ¬ R.Selectable stmt.upper := fun h => hsel ((R.selectable_upper stmt).mp h)
    refine ⟨by rw [observe_failure hsel, observe_failure hsel'], fun hsucc => ?_⟩
    exact absurd (Relation.reply_success.mp hsucc) hsel

/-! ## INSERT -/

/-- The INSERT with its names in upper case. -/
def InsertStatement.upper (stmt : InsertStatement) : InsertStatement :=
  ⟨upperStr stmt.tableName, stmt.items.map InsertItem.upper⟩

theorem utilsEqualsIgnoreCase_upper (name : Identifier) (other : Bytes) :
    utilsEqualsIgnoreCase (upperStr name).text other = utilsEqualsIgnoreCase name.text other := by
  rw [Bool.eq_iff_iff, utilsEqualsIgnoreCase_iff, utilsEqualsIgnoreCase_iff, text_upperStr,
    map_toupper_toupper]

theorem executorInsertMentionsId_upper (stmt : InsertStatement) :
    executorInsertMentionsId stmt.upper = executorInsertMentionsId stmt := by
  show List.any (stmt.items.1.map InsertItem.upper) _ = List.any stmt.items.1 _
  rw [List.any_map]
  congr 1
  funext item
  exact utilsEqualsIgnoreCase_upper item.column (bytes "id")

theorem values_upper (items : List InsertItem) :
    values (items.map InsertItem.upper) = values items := by
  rw [values, List.map_map]
  rfl

/-- Columns match items whatever the case of the names of both. -/
theorem mismatch_key {columns columns' : List Column}
    (h : columns.map Column.key = columns'.map Column.key) (items : List InsertItem) :
    mismatch columns (items.map InsertItem.upper) = mismatch columns' items := by
  induction columns generalizing columns' items with
  | nil =>
    rw [List.map_nil, eq_comm, List.map_eq_nil_iff] at h
    rw [h]
    rfl
  | cons c columns ih =>
    cases columns' with
    | nil => cases h
    | cons c' columns' =>
      obtain ⟨hkey, hrest⟩ := List.cons.inj h
      obtain ⟨hname, hkind⟩ := Prod.mk.inj hkey
      cases items with
      | nil => rfl
      | cons item items =>
        have hsame : SameName c.name.text item.upper.column.text ↔
            SameName c'.name.text item.column.text := by
          rw [show item.upper.column = upperStr item.column from rfl, sameName_upper, sameName_iff,
            sameName_iff, hname]
        have hvalue : item.upper.valueKind = item.valueKind := rfl
        rw [List.map_cons, mismatch, mismatch, ih hrest items]
        simp only [hsame, hvalue, show c.kind = c'.kind from hkind]

theorem Relation.insert_shape (R : Relation) (items : List InsertItem) :
    (R.insert items).map Relation.shape =
      if items.length ≠ R.columns.length then .error .schema
      else match mismatch R.columns items with
        | some e => .error e
        | none =>
          if R.tuples.length = MAX_ROWS then .error .full
          else .ok (R.columns.map Column.key, R.tuples ++ [values items]) := by
  unfold Relation.insert
  split
  · rfl
  · cases mismatch R.columns items with
    | some e => rfl
    | none =>
      simp only
      split <;> rfl

theorem Relation.create_shape (items : List InsertItem) :
    (Relation.create items).map Relation.shape =
      if items = [] ∨ MAX_COLUMNS ≤ items.length then .error .columnCount
      else if items.any fun item => SameName item.column.text idName.text then .error .explicitId
      else .ok ((items.map InsertItem.toColumn).map Column.key, [values items]) := by
  unfold Relation.create
  split
  · rfl
  split <;> rfl

/-- An INSERT does the same to tables of one shape, whatever the case of its names. -/
theorem insertInto_shape {table table' : Option Relation}
    (h : table.map Relation.shape = table'.map Relation.shape) (items : List InsertItem) :
    (insertInto table (items.map InsertItem.upper)).map Relation.shape =
      (insertInto table' items).map Relation.shape := by
  cases table with
  | none =>
    obtain rfl := Option.map_eq_none_iff.mp h.symm
    have hany : (items.map InsertItem.upper).any
        (fun item => SameName item.column.text idName.text) =
        items.any fun item => SameName item.column.text idName.text := by
      rw [List.any_map]
      congr 1
      funext item
      have hcomm : SameName item.upper.column.text idName.text ↔
          SameName item.column.text idName.text := by
        show nameKey (nameKey item.column.text) = _ ↔ _
        rw [nameKey_nameKey]
        rfl
      exact decide_eq_decide.mpr hcomm
    have hkeys : ((items.map InsertItem.upper).map InsertItem.toColumn).map Column.key =
        (items.map InsertItem.toColumn).map Column.key := by
      simp only [List.map_map]
      refine List.map_congr_left fun item _ => ?_
      exact congrArg (·, item.valueKind) (nameKey_nameKey item.column.text)
    show (Relation.create _).map _ = (Relation.create _).map _
    simp only [Relation.create_shape, hany, hkeys, values_upper, List.map_eq_nil_iff,
      List.length_map]
  | some R =>
    obtain ⟨R', rfl, hshape⟩ := Option.map_eq_some_iff.mp h.symm
    obtain ⟨hkeys, htuples⟩ := Prod.mk.inj hshape.symm
    have hlen : R.columns.length = R'.columns.length := by
      have hlengths := congrArg List.length hkeys
      rw [List.length_map, List.length_map] at hlengths
      exact hlengths
    show (R.insert _).map _ = (R'.insert _).map _
    rw [Relation.insert_shape, Relation.insert_shape, mismatch_key hkeys, values_upper,
      List.length_map, hlen, hkeys, htuples]

/-! ## Statements on databases -/

variable {db db' : Database}

theorem table_shape (h : db.shape = db'.shape) (k : Bytes) :
    (db k).map Relation.shape = (db' k).map Relation.shape := congrFun h k

theorem text_upperStr_eq_nil (name : Identifier) : (upperStr name).text = [] ↔ name.text = [] :=
  List.map_eq_nil_iff

/-- A SELECT on databases of one shape, with its names as they are and in upper case. -/
theorem Database.select_upper (h : db.shape = db'.shape) (stmt : SelectStatement) :
    observe (db.select stmt.upper) = observe (db'.select stmt) := by
  have hname : nameKey stmt.upper.tableName.text = nameKey stmt.tableName.text :=
    nameKey_nameKey stmt.tableName.text
  have htable := table_shape h (nameKey stmt.tableName.text)
  have hnil : stmt.upper.tableName.text = [] ↔ stmt.tableName.text = [] :=
    text_upperStr_eq_nil stmt.tableName
  unfold Database.select
  rw [hname]
  by_cases hempty : stmt.tableName.text = []
  · rw [if_pos hempty, if_pos (hnil.mpr hempty)]
    rfl
  rw [if_neg hempty, if_neg (fun heq => hempty (hnil.mp heq))]
  cases hdb : db (nameKey stmt.tableName.text) with
  | none =>
    rw [hdb] at htable
    rw [Option.map_eq_none_iff.mp htable.symm]
    rfl
  | some R =>
    rw [hdb] at htable
    obtain ⟨R', hdb', hshape⟩ := Option.map_eq_some_iff.mp htable.symm
    rw [hdb']
    exact (R.reply_upper stmt).1.trans (Relation.observe_of_shape hshape.symm stmt)

/-- On one database it also has the same result, where it is answered. -/
theorem Database.select_upper_success {stmt : SelectStatement} (h : (db.select stmt).1 = .success) :
    db.select stmt.upper = db.select stmt := by
  have hname : nameKey stmt.upper.tableName.text = nameKey stmt.tableName.text :=
    nameKey_nameKey stmt.tableName.text
  have hnil : stmt.upper.tableName.text = [] ↔ stmt.tableName.text = [] :=
    text_upperStr_eq_nil stmt.tableName
  unfold Database.select at h ⊢
  rw [hname]
  by_cases hempty : stmt.tableName.text = []
  · rw [if_pos hempty] at h
    cases h
  rw [if_neg hempty] at h ⊢
  rw [if_neg (fun heq => hempty (hnil.mp heq))]
  cases hdb : db (nameKey stmt.tableName.text) with
  | none =>
    rw [hdb] at h
    cases h
  | some R =>
    rw [hdb] at h
    exact (R.reply_upper stmt).2 h

/-- An INSERT on databases of one shape. -/
theorem Database.insert_upper (h : db.shape = db'.shape) (stmt : InsertStatement) :
    observe (db.insert stmt.upper).1 = observe (db'.insert stmt).1 ∧
      (db.insert stmt.upper).2.shape = (db'.insert stmt).2.shape := by
  have hname : nameKey stmt.upper.tableName.text = nameKey stmt.tableName.text :=
    nameKey_nameKey stmt.tableName.text
  have hnil : stmt.upper.tableName.text = [] ↔ stmt.tableName.text = [] :=
    text_upperStr_eq_nil stmt.tableName
  have hitems := insertInto_shape (table_shape h (nameKey stmt.tableName.text)) stmt.items.1
  have hstored : stmt.upper.items.1 = stmt.items.1.map InsertItem.upper := rfl
  unfold Database.insert
  simp only [executorInsertMentionsId_upper, hname, hnil, hstored]
  split
  · exact ⟨rfl, h⟩
  split
  · exact ⟨rfl, h⟩
  cases hinsert : insertInto (db' (nameKey stmt.tableName.text)) stmt.items.1 with
  | error e =>
    rw [hinsert] at hitems
    rw [map_eq_error hitems]
    exact ⟨rfl, h⟩
  | ok R' =>
    rw [hinsert] at hitems
    obtain ⟨R, hR, hshape⟩ := map_eq_ok hitems
    rw [hR]
    refine ⟨rfl, funext fun k => ?_⟩
    show (Function.update db _ (some R) k).map Relation.shape =
      (Function.update db' _ (some R') k).map Relation.shape
    by_cases hk : k = nameKey stmt.tableName.text
    · subst hk
      rw [Function.update_self, Function.update_self]
      exact congrArg some hshape
    · rw [Function.update_of_ne hk, Function.update_of_ne hk]
      exact table_shape h k

/-- A statement does the same to databases of one shape as with its names in upper case. -/
theorem Database.exec_upper (h : db.shape = db'.shape) (stmt : SqlStatement) :
    observe (db.exec stmt.upper).1 = observe (db'.exec stmt).1 ∧
      (db.exec stmt.upper).2.shape = (db'.exec stmt).2.shape := by
  cases stmt with
  | insert stmt => exact Database.insert_upper h stmt
  | select stmt => exact ⟨Database.select_upper h stmt, h⟩
  | delete stmt => exact ⟨rfl, h⟩

/-- Statements that differ in the case of their names, on databases of one shape. -/
theorem Database.exec_shape (h : db.shape = db'.shape) {stmt stmt' : SqlStatement}
    (hstmt : stmt.upper = stmt'.upper) :
    observe (db.exec stmt).1 = observe (db'.exec stmt').1 ∧
      (db.exec stmt).2.shape = (db'.exec stmt').2.shape := by
  obtain ⟨hreply, hshape⟩ := Database.exec_upper (Eq.refl db.shape) stmt
  obtain ⟨hreply', hshape'⟩ := Database.exec_upper h stmt'
  rw [hstmt] at hreply hshape
  exact ⟨hreply.symm.trans hreply', hshape.symm.trans hshape'⟩

/-! ## Texts -/

theorem parsedStatement_upper (sql : Bytes) :
    parsedStatement (upperOutside false sql) = (parsedStatement sql).map SqlStatement.upper := by
  unfold parsedStatement
  rw [length_upperOutside, tokenizerTokenize_upper]
  split
  · rfl
  cases tokenizerTokenize sql with
  | error e => rfl
  | ok tokens =>
    show (parserParse (upperTokens tokens)).toOption = (parserParse tokens).toOption.map _
    rw [parserParse_upper]
    cases parserParse tokens <;> rfl

theorem SameOutsideLiterals.parsed {sql sql' : Bytes} (h : SameOutsideLiterals sql sql') :
    (parsedStatement sql).map SqlStatement.upper =
      (parsedStatement sql').map SqlStatement.upper := by
  rw [← parsedStatement_upper, ← parsedStatement_upper, h]

/-- Texts that differ in the case of letters outside literals, on databases of one shape. -/
theorem Database.execSql_shape (h : db.shape = db'.shape) {sql sql' : Bytes}
    (hsql : SameOutsideLiterals sql sql') :
    observe (db.execSql sql).1 = observe (db'.execSql sql').1 ∧
      (db.execSql sql).2.shape = (db'.execSql sql').2.shape := by
  have hparsed := hsql.parsed
  cases hstmt : parsedStatement sql with
  | none =>
    rw [hstmt] at hparsed
    have hstmt' := Option.map_eq_none_iff.mp hparsed.symm
    obtain ⟨error, -, hexec⟩ := Database.execSql_unparsed hstmt
    obtain ⟨error', -, hexec'⟩ := Database.execSql_unparsed hstmt'
    rw [hexec, hexec']
    exact ⟨rfl, h⟩
  | some stmt =>
    rw [hstmt] at hparsed
    obtain ⟨stmt', hstmt', hupper⟩ := Option.map_eq_some_iff.mp hparsed.symm
    rw [Database.execSql_parsed hstmt, Database.execSql_parsed hstmt']
    exact Database.exec_shape h hupper.symm

/-- Two texts that differ only in the case of letters outside string literals, in a registry that
the engine reaches. Both succeed or both fail; SELECTs that succeed have the same result; and every
later text has the same status and the same rows after either. -/
theorem engineExecuteSql_case {registry : Registry} (hreach : EngineReachable registry)
    {sql sql' : Bytes} (h : SameOutsideLiterals sql sql') :
    ∃ status result after status' result' after',
      engineExecuteSql registry sql = some ((status, result), after) ∧
      engineExecuteSql registry sql' = some ((status', result'), after') ∧
      (status = .success ↔ status' = .success) ∧
      (∀ stmt stmt', parsedStatement sql = some (.select stmt) →
        parsedStatement sql' = some (.select stmt') → status = .success → status' = .success →
        result = result') ∧
      ∀ later : List Bytes, ∃ replies last replies' last',
        Machine.run engineExecuteSql after later = some (replies, last) ∧
        Machine.run engineExecuteSql after' later = some (replies', last') ∧
        replies.map observe = replies'.map observe := by
  obtain ⟨db, hdb⟩ := hreach.holds
  obtain ⟨after, hrun, hafter⟩ := engine_simulates hdb sql
  obtain ⟨after', hrun', hafter'⟩ := engine_simulates hdb sql'
  obtain ⟨hreply, hshape⟩ := Database.execSql_shape (Eq.refl db.shape) h
  have hstatus : (db.execSql sql).1.1 = (db.execSql sql').1.1 := (Prod.mk.inj hreply).1
  refine ⟨_, _, after, _, _, after', hrun, hrun', by rw [hstatus], ?_, ?_⟩
  · intro stmt stmt' hstmt hstmt' hsucc hsucc'
    have hupper : stmt.upper = stmt'.upper := by
      have hparsed := h.parsed
      rw [hstmt, hstmt'] at hparsed
      exact SqlStatement.select.inj (Option.some.inj hparsed)
    rw [Database.execSql_parsed hstmt] at hsucc ⊢
    rw [Database.execSql_parsed hstmt'] at hsucc' ⊢
    have hboth : db.select stmt = db.select stmt' := by
      rw [← Database.select_upper_success hsucc, ← Database.select_upper_success hsucc', hupper]
    exact congrArg Prod.snd hboth
  · intro later
    obtain ⟨last, hlater, -⟩ := engine_simulates.run hafter later
    obtain ⟨last', hlater', -⟩ := engine_simulates.run hafter' later
    refine ⟨_, last, _, last', hlater, hlater', ?_⟩
    exact Machine.specRun_observed Database.execSql Database.shape observe
      (fun hview sql => Database.execSql_shape hview rfl) hshape later

/-- The same INSERT in other letters, after an INSERT; the literal keeps its case. -/
theorem engineExecuteSql_case_insert :
    let sql := bytes "INSERT INTO u (name) VALUES ('Kim')"
    let sql' := bytes "insert INTO U (Name) values ('Kim')"
    ∃ registry, registry ≠ [] ∧ ∃ status result after status' result' after',
      engineExecuteSql registry sql = some ((status, result), after) ∧
      engineExecuteSql registry sql' = some ((status', result'), after') ∧
      (status = .success ↔ status' = .success) ∧
      (∀ stmt stmt', parsedStatement sql = some (.select stmt) →
        parsedStatement sql' = some (.select stmt') → status = .success → status' = .success →
        result = result') ∧
      ∀ later : List Bytes, ∃ replies last replies' last',
        Machine.run engineExecuteSql after later = some (replies, last) ∧
        Machine.run engineExecuteSql after' later = some (replies', last') ∧
        replies.map observe = replies'.map observe := by
  have hlen : (engineExecuteSql [] insertFive).map (fun r => r.2.length) = some 1 := by
    decide +kernel
  intro sql sql'
  cases hfirst : engineExecuteSql [] insertFive with
  | none =>
    rw [hfirst] at hlen
    cases hlen
  | some r =>
    rw [hfirst] at hlen
    have hreach : EngineReachable r.2 := .step .start hfirst
    refine ⟨r.2, fun hnil => ?_, engineExecuteSql_case hreach (by decide +kernel)⟩
    rw [Option.map_some, hnil] at hlen
    cases hlen

end JungleDb
