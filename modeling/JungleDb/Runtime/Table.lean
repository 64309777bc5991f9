import JungleDb.Bptree.Basic
import JungleDb.Sql.Parser

/-!
# The table of `table_runtime.c`

`rows` is the allocated array of row pointers: a slot is `none` where no row was stored. A read or
write outside the array, or of no row, is `none` in the outer `Option`, as in the B+ tree. A failing
function returns the text that `table_runtime_get_last_error` gives afterwards, next to the table it
leaves. `table_insert_row` reads the outcomes of its allocations from a list.
-/

namespace JungleDb

open CArray CString

abbrev INITIAL_ROW_CAPACITY : Nat := 16

abbrev INT_MAX : Int := 2 ^ 31 - 1

/-- The largest request that an allocator grants. -/
abbrev PTRDIFF_MAX : Nat := 2 ^ 63 - 1

/-- The cells of a stored row. -/
abbrev Row := List Bytes

/-- `TableRuntime`. -/
structure TableRuntime where
  tableName : Identifier
  colCount : Nat
  columns : Vector Identifier MAX_COLUMNS
  columnValueKinds : Vector ValueKind MAX_COLUMNS
  rows : List (Option Row)
  rowCount : Nat
  capacity : Nat
  idColumnIndex : Nat
  nextId : Int
  idIndex : Bptree
  loaded : Bool

/-- `table_init`. -/
def tableInit : TableRuntime where
  tableName := .empty
  colCount := 0
  columns := Vector.replicate _ default
  columnValueKinds := Vector.replicate _ default
  rows := []
  rowCount := 0
  capacity := 0
  idColumnIndex := 0
  nextId := 1
  idIndex := .empty
  loaded := false

/-- The name of the reserved column. -/
def idName : Identifier := lit MAX_IDENTIFIER_LEN "id"

/-- `table_find_column_index`, which is also `executor_find_column_index`. -/
def tableFindColumnIndex (table : TableRuntime) (target : Bytes) : Option Nat :=
  (List.range table.colCount).find? fun i => utilsEqualsIgnoreCase (rd table.columns i).text target

/-- The loop of `table_validate_insert_schema`. -/
def validateColumns (table : TableRuntime) : Nat → List InsertItem → Sql Unit
  | _, [] => .ok ()
  | i, item :: items =>
    if !utilsEqualsIgnoreCase (rd table.columns (i + 1)).text item.column.text then
      .error (message "INSERT columns do not match table schema.")
    else if rd table.columnValueKinds (i + 1) ≠ item.valueKind then
      .error (message "INSERT value types do not match table schema.")
    else validateColumns table (i + 1) items

/-- `table_validate_insert_schema`. -/
def tableValidateInsertSchema (table : TableRuntime) (stmt : InsertStatement) : Sql Unit :=
  if stmt.items.1.length = 0 ∨ stmt.items.1.length + 1 ≠ table.colCount then
    .error (message "INSERT columns do not match table schema.")
  else validateColumns table 0 stmt.items.1

/-- The loop of `table_initialize_schema`. -/
def initializeColumns : Nat → List InsertItem → TableRuntime → Sql Unit × TableRuntime
  | _, [], table => (.ok (), table)
  | i, item :: items, table =>
    if utilsEqualsIgnoreCase item.column.text idName.text then
      (.error (message "Explicit id values are not allowed."), table)
    else match utilsSafeStrcpy MAX_IDENTIFIER_LEN item.column.text with
      | none => (.error (message "Column name is too long."), table)
      | some name => initializeColumns (i + 1) items { table with
          columns := wr table.columns (i + 1) name
          columnValueKinds := wr table.columnValueKinds (i + 1) item.valueKind }

/-- `table_initialize_schema`. -/
def tableInitializeSchema (table : TableRuntime) (stmt : InsertStatement) :
    Sql Unit × TableRuntime :=
  if stmt.items.1.length = 0 ∨ MAX_COLUMNS < stmt.items.1.length + 1 then
    (.error (message "Invalid INSERT column count."), table)
  else
    let started := { table with
      colCount := stmt.items.1.length + 1
      columns := wr table.columns 0 idName
      columnValueKinds := wr table.columnValueKinds 0 .int }
    match initializeColumns 0 stmt.items.1 started with
    | (.error e, table) => (.error e, table)
    | (.ok (), table) => (.ok (), { table with idColumnIndex := 0, loaded := true })

/-- `realloc` to `n` row pointers, `n` an `int`; it also fails where the size in bytes, a `size_t`,
is larger than an object can be. -/
def reallocRows (n : Int) (allocs : List Bool) : Bool × List Bool :=
  if (n * 8) % 2 ^ 64 ≤ PTRDIFF_MAX then calloc allocs else (false, allocs)

/-- `table_reserve_if_needed`; the doubling is done in `int`. -/
def tableReserveIfNeeded (table : TableRuntime) (allocs : List Bool) :
    Sql Unit × TableRuntime × List Bool :=
  if table.rowCount < table.capacity then (.ok (), table, allocs)
  else
    let newCapacity : Int := if table.capacity = 0 then INITIAL_ROW_CAPACITY
      else Int.bmod (table.capacity * 2) (2 ^ 32)
    match reallocRows newCapacity allocs with
    | (false, allocs) => (.error (message "Failed to allocate memory."), table, allocs)
    | (true, allocs) => (.ok (), { table with
        rows := table.rows ++ List.replicate (newCapacity.toNat - table.rows.length) none
        capacity := newCapacity.toNat }, allocs)

/-- `n` allocations one after the other, up to the first that is refused. -/
def callocAll : Nat → List Bool → Bool × List Bool
  | 0, allocs => (true, allocs)
  | n + 1, allocs =>
    match calloc allocs with
    | (true, allocs) => callocAll n allocs
    | (false, allocs) => (false, allocs)

/-- `table_build_row`, for a statement of `col_count - 1` values: one allocation for the row and one
for each cell. -/
def tableBuildRow (stmt : InsertStatement) (nextId : Int) (allocs : List Bool) :
    Option Row × List Bool :=
  match callocAll (stmt.items.1.length + 2) allocs with
  | (true, allocs) => (some (lld nextId :: stmt.items.1.map fun item => item.value.text), allocs)
  | (false, allocs) => (none, allocs)

/-- `table_insert_row` from the row that was built: the id check, the slot and the index. -/
def tableStoreRow (table : TableRuntime) (row : Row) (allocs : List Bool) :
    Option (Sql Nat × TableRuntime) :=
  if INT_MAX < table.nextId then
    some (.error (message "Runtime id exceeds B+ tree key range."), table)
  else if table.rowCount < table.rows.length then do
    let (exit, idIndex) ← bptreeInsert table.idIndex allocs table.nextId table.rowCount
    match exit.status with
    | .failure => some (.error (message "Failed to insert row."), { table with
        rows := table.rows.set table.rowCount none
        idIndex := idIndex })
    | .success => some (.ok table.rowCount, { table with
        rows := table.rows.set table.rowCount (some row)
        idIndex := idIndex
        rowCount := table.rowCount + 1
        nextId := table.nextId + 1 })
  else none

/-- `table_insert_row` once the statement fits the schema. -/
def tableAppendRow (table : TableRuntime) (stmt : InsertStatement) (allocs : List Bool) :
    Option (Sql Nat × TableRuntime) :=
  match tableReserveIfNeeded table allocs with
  | (.error e, table, _) => some (.error e, table)
  | (.ok (), table, allocs) =>
    match tableBuildRow stmt table.nextId allocs with
    | (none, _) => some (.error (message "Failed to insert row."), table)
    | (some row, allocs) => tableStoreRow table row allocs

/-- `table_insert_row` once the statement is known to be for this table. -/
def tableInsertNamed (table : TableRuntime) (stmt : InsertStatement) (allocs : List Bool) :
    Option (Sql Nat × TableRuntime) :=
  let schema := if table.loaded then (tableValidateInsertSchema table stmt, table)
    else tableInitializeSchema table stmt
  match schema with
  | (.error e, table) => some (.error e, table)
  | (.ok (), table) => tableAppendRow table stmt allocs

/-- `table_insert_row`: the row index or the error, and the table after the call. -/
def tableInsertRow (table : TableRuntime) (stmt : InsertStatement) (allocs : List Bool) :
    Option (Sql Nat × TableRuntime) :=
  let named := if table.tableName.text = [] then
      (utilsSafeStrcpy MAX_IDENTIFIER_LEN stmt.tableName.text).map fun name =>
        { table with tableName := name }
    else some table
  match named with
  | none => some (.error (message "Table name is too long."), table)
  | some table =>
    if !utilsEqualsIgnoreCase table.tableName.text stmt.tableName.text then
      some (.error (message "Active runtime table does not match INSERT target."), table)
    else tableInsertNamed table stmt allocs

/-- `table_get_row_by_slot`. -/
def tableGetRowBySlot (table : TableRuntime) (rowIndex : Int) : Option Row :=
  if rowIndex < 0 ∨ table.rowCount ≤ rowIndex then none
  else table.rows[rowIndex.toNat]?.join

/-- `table_where_matches`. -/
def tableWhereMatches (comparison : Int) (op : Bytes) : Bool :=
  if op = bytes "=" then comparison = 0
  else if op = bytes "!=" then comparison ≠ 0
  else if op = bytes ">" then comparison > 0
  else if op = bytes ">=" then comparison ≥ 0
  else if op = bytes "<" then comparison < 0
  else if op = bytes "<=" then comparison ≤ 0
  else false

/-- `table_compare_field_value`. -/
def tableCompareFieldValue (table : TableRuntime) (columnIndex : Nat) (lhs : Bytes)
    (clause : WhereClause) : Sql Int :=
  if rd table.columnValueKinds columnIndex = .int then
    orError "Invalid integer literal for numeric column."
      (utilsCompareIntegerStrings lhs clause.value.text)
  else .ok (strcmp lhs clause.value.text)

/-- The loop of `table_linear_scan_by_field`. -/
def scanLoop (table : TableRuntime) (clause : WhereClause) (column : Nat) :
    Nat → Nat → List Nat → Option (Sql (List Nat))
  | 0, _, found => some (.ok found)
  | todo + 1, i, found => do
    let row ← table.rows[i]?.join
    let cell ← row[column]?
    match tableCompareFieldValue table column cell clause with
    | .error e => some (.error e)
    | .ok comparison =>
      scanLoop table clause column todo (i + 1)
        (if tableWhereMatches comparison clause.op.text then found ++ [i] else found)

/-- `table_linear_scan_by_field`: the indices of the matching rows. -/
def tableLinearScanByField (table : TableRuntime) (clause : Option WhereClause) :
    Option (Sql (List Nat)) :=
  if !table.loaded ∨ table.rowCount = 0 then some (.ok [])
  else match clause with
    | none => some (.ok (List.range table.rowCount))
    | some clause =>
      match tableFindColumnIndex table clause.column.text with
      | none => some (.error (message "Column not found."))
      | some column => scanLoop table clause column table.rowCount 0 []

end JungleDb
