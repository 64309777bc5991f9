import JungleDb.Runtime.Registry

/-!
# The executor of `executor.c`, `query_result.c` and `engine.c`

A statement is executed against the registry; allocations never fail. The part of a statement that
runs while it holds the lock of its table has its own definition (`executorInsertBody`,
`executorSelectBody`), so that the steps of concurrent requests are the same functions.
-/

namespace JungleDb

open CArray CString

inductive QueryResultKind
  | message
  | table
  deriving DecidableEq, Repr

/-- `QueryResult`; `columns` holds the names written so far. -/
structure QueryResult where
  success : Bool
  kind : QueryResultKind
  message : CStr MESSAGE_LEN
  error : CStr MESSAGE_LEN
  columns : List Identifier
  columnCount : Nat
  rows : List Row
  deriving DecidableEq

/-- `query_result_init`. -/
def queryResultInit : QueryResult :=
  ⟨false, .message, .empty, .empty, [], 0, []⟩

/-- `query_result_set_message`, of a text that fits. -/
def queryResultSetMessage (result : QueryResult) (message : CStr MESSAGE_LEN) : QueryResult :=
  { result with success := true, kind := .message, error := .empty, message := message }

/-- `query_result_set_error`, of a text that fits. -/
def queryResultSetError (result : QueryResult) (error : CStr MESSAGE_LEN) : QueryResult :=
  { result with success := false, kind := .message, message := .empty, error := error }

/-- What a function of the executor returns and the result it fills in. -/
abbrev Reply := Status × QueryResult

/-- `executor_fail`. -/
def executorFail (result : QueryResult) (text : Bytes) : Reply :=
  (.failure, queryResultSetError result (snprintf MESSAGE_LEN text))

/-- `executor_message`. -/
def executorMessage (result : QueryResult) (text : Bytes) : Reply :=
  (.success, queryResultSetMessage result (snprintf MESSAGE_LEN text))

/-- `executor_insert_mentions_id`. -/
def executorInsertMentionsId (stmt : InsertStatement) : Bool :=
  stmt.items.1.any fun item => utilsEqualsIgnoreCase item.column.text (bytes "id")

/-- `executor_find_column_index`. -/
def executorFindColumnIndex (table : TableRuntime) (target : Bytes) : Option Nat :=
  tableFindColumnIndex table target

/-- The loop of `executor_prepare_projection` over the requested columns: their indices and the
result with their names, or the result of the failure. -/
def prepareColumns (table : TableRuntime) :
    List Identifier → List Nat → QueryResult → Except Reply (List Nat × QueryResult)
  | [], selected, result => .ok (selected, result)
  | name :: names, selected, result =>
    match executorFindColumnIndex table name.text with
    | none =>
      .error (executorFail result (bytes "Column '" ++ name.text ++ bytes "' not found."))
    | some i =>
      match utilsSafeStrcpy MAX_IDENTIFIER_LEN (rd table.columns i).text with
      | none => .error (executorFail result (bytes "Column name is too long."))
      | some column => prepareColumns table names (selected ++ [i])
          { result with columns := result.columns ++ [column] }

/-- The loop of `executor_prepare_projection` over all columns. -/
def prepareAll (table : TableRuntime) :
    List Nat → List Nat → QueryResult → Except Reply (List Nat × QueryResult)
  | [], selected, result => .ok (selected, result)
  | i :: rest, selected, result =>
    match utilsSafeStrcpy MAX_IDENTIFIER_LEN (rd table.columns i).text with
    | none => .error (executorFail result (bytes "Column name is too long."))
    | some column => prepareAll table rest (selected ++ [i])
        { result with columns := result.columns ++ [column] }

/-- `executor_prepare_projection`. -/
def executorPrepareProjection (stmt : SelectStatement) (table : TableRuntime)
    (result : QueryResult) : Except Reply (List Nat × QueryResult) := do
  let result := { result with kind := .table, columnCount := 0 }
  if stmt.columns.1 = [] then
    let (selected, result) ← prepareAll table (List.range table.colCount) [] result
    .ok (selected, { result with columnCount := table.colCount })
  else
    let (selected, result) ← prepareColumns table stmt.columns.1 [] result
    .ok (selected, { result with columnCount := stmt.columns.1.length })

/-- `executor_copy_projected_row`. -/
def executorCopyProjectedRow (sourceRow : Row) (selected : List Nat) : Option Row :=
  selected.mapM fun i => sourceRow[i]?

/-- The loop of `executor_collect_rows_by_indices`: the copied rows, none of them where a slot has
no row. -/
def collectLoop (table : TableRuntime) (selected : List Nat) :
    List Int → Option (Option (List Row))
  | [] => some (some [])
  | rowIndex :: rowIndices =>
    match tableGetRowBySlot table rowIndex with
    | none => some none
    | some sourceRow => do
      let row ← executorCopyProjectedRow sourceRow selected
      let rows ← collectLoop table selected rowIndices
      some (rows.map (row :: ·))

/-- `executor_collect_rows_by_indices`. -/
def executorCollectRowsByIndices (table : TableRuntime) (selected : List Nat)
    (rowIndices : List Int) (result : QueryResult) : Option Reply := do
  match ← collectLoop table selected rowIndices with
  | none => some (executorFail result (bytes "Failed to copy result rows."))
  | some rows => some (.success, { result with
      success := true, kind := .table, rows := rows, message := .empty, error := .empty })

/-- A scan and the copy of the rows it finds. -/
def collectScanned (table : TableRuntime) (clause : Option WhereClause) (selected : List Nat)
    (result : QueryResult) : Option Reply := do
  match ← tableLinearScanByField table clause with
  | .error e => some (executorFail result e.text)
  | .ok found => executorCollectRowsByIndices table selected (found.map Int.ofNat) result

/-- `executor_collect_all_rows`. -/
def executorCollectAllRows (table : TableRuntime) (selected : List Nat) (result : QueryResult) :
    Option Reply :=
  collectScanned table none selected result

/-- `executor_collect_rows_by_scan`. -/
def executorCollectRowsByScan (table : TableRuntime) (clause : WhereClause) (selected : List Nat)
    (result : QueryResult) : Option Reply :=
  collectScanned table (some clause) selected result

/-- `executor_can_use_id_index`: the key, when the index can be used. -/
def executorCanUseIdIndex (table : TableRuntime) (clause : WhereClause) : Option Int :=
  if !table.loaded ∨ table.idIndex.root = none then none
  else if clause.op.text ≠ bytes "=" ∨ !utilsIsInteger clause.value.text then none
  else if !utilsEqualsIgnoreCase (rd table.columns table.idColumnIndex).text clause.column.text then
    none
  else match utilsTryParseInteger clause.value.text with
    | none => none
    | some parsedKey => if parsedKey < 0 ∨ INT_MAX < parsedKey then none else some parsedKey

/-- `executor_collect_rows_by_id`. -/
def executorCollectRowsById (table : TableRuntime) (searchKey : Int) (selected : List Nat)
    (result : QueryResult) : Option Reply := do
  match ← bptreeSearch table.idIndex searchKey with
  | none => executorCollectRowsByIndices table selected [] result
  | some rowIndex => executorCollectRowsByIndices table selected [rowIndex] result

/-- `executor_execute_select` while it holds the read lock of the table. -/
def executorSelectBody (stmt : SelectStatement) (table : TableRuntime) (result : QueryResult) :
    Option Reply :=
  if !table.loaded then
    some (executorFail result (bytes "Table '" ++ stmt.tableName.text ++ bytes "' not found."))
  else match executorPrepareProjection stmt table result with
    | .error failed => some failed
    | .ok (selected, result) =>
      match stmt.where with
      | none => executorCollectAllRows table selected result
      | some clause =>
        match executorCanUseIdIndex table clause with
        | some searchKey => executorCollectRowsById table searchKey selected result
        | none => executorCollectRowsByScan table clause selected result

/-- `executor_execute_select`. -/
def executorExecuteSelect (registry : Registry) (stmt : SelectStatement) (result : QueryResult) :
    Option (Reply × Registry) :=
  let notFound := executorFail result (bytes "Table '" ++ stmt.tableName.text ++ bytes "' not found.")
  match tableRuntimeAcquireRead registry stmt.tableName.text with
  | (none, registry) => some (notFound, registry)
  | (some entry, registry) =>
    match registry[entry]? with
    | none => some (notFound, registry)
    | some table => do
      let outcome ← executorSelectBody stmt table result
      some (outcome, registry)

/-- `executor_execute_insert` while it holds the write lock of the table. -/
def executorInsertBody (stmt : InsertStatement) (table : TableRuntime) :
    Option (Sql Nat × TableRuntime) :=
  tableInsertRow table stmt []

/-- `executor_execute_insert` after it has released the lock. -/
def executorInsertFinish (stmt : InsertStatement) (result : QueryResult) (status : Sql Nat) :
    Reply :=
  match status with
  | .error e => executorFail result e.text
  | .ok _ => executorMessage result (bytes "1 row inserted into " ++ stmt.tableName.text ++ bytes ".")

/-- `executor_execute_insert`. -/
def executorExecuteInsert (registry : Registry) (stmt : InsertStatement) (result : QueryResult) :
    Option (Reply × Registry) :=
  if executorInsertMentionsId stmt then
    some (executorFail result (bytes "Explicit id values are not allowed."), registry)
  else match tableRuntimeAcquireWrite registry stmt.tableName.text with
    | (none, registry) => some (executorFail result
        (bytes "Failed to open table '" ++ stmt.tableName.text ++ bytes "' for writing."), registry)
    | (some entry, registry) =>
      match registry[entry]? with
      | none => some (executorFail result
          (bytes "Failed to open table '" ++ stmt.tableName.text ++ bytes "'."), registry)
      | some table => do
        let (status, table) ← executorInsertBody stmt table
        some (executorInsertFinish stmt result status, registry.set entry table)

/-- `executor_execute_delete`. -/
def executorExecuteDelete (result : QueryResult) : Reply :=
  executorFail result (bytes "DELETE is not supported in memory runtime mode.")

/-- `executor_execute`. -/
def executorExecute (registry : Registry) (statement : SqlStatement) :
    Option (Reply × Registry) :=
  match statement with
  | .insert stmt => executorExecuteInsert registry stmt queryResultInit
  | .select stmt => executorExecuteSelect registry stmt queryResultInit
  | .delete _ => some (executorExecuteDelete queryResultInit, registry)

/-- `engine_execute_sql`. -/
def engineExecuteSql (registry : Registry) (sql : Bytes) : Option (Reply × Registry) :=
  let fail (error : CStr MESSAGE_LEN) : Option (Reply × Registry) :=
    some ((.failure, queryResultSetError queryResultInit error), registry)
  if MAX_SQL_LENGTH ≤ sql.length then fail (message "SQL is too long.")
  else match tokenizerTokenize sql with
    | .error e => fail e
    | .ok [] => fail (message "Failed to tokenize SQL.")
    | .ok tokens =>
      match parserParse tokens with
      | .error e => fail e
      | .ok statement => executorExecute registry statement

end JungleDb
