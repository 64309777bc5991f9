import JungleDb.Engine.Requests
import JungleDb.Runtime.Intact

/-!
# The memory of `executor.c` and `query_result.c`

SELECT on the heap: the array of row indices that a scan fills, the rows that are copied into the
result, what is freed again when a request is refused in the middle, and `query_result_free`. The
registry is a list of entries, each a block with its table.
-/

namespace JungleDb

open CArray CString Heap

/-- A `QueryResult`: the pointer `rows`, `row_count`, and the other members in a result without rows. -/
structure ResultMemory where
  fields : QueryResult
  rows : Option Ptr
  rowCount : Nat

/-- What a function of the executor returns when it leaves no rows in the result. -/
def Reply.withoutRows (reply : Reply) : Status × ResultMemory := (reply.1, ⟨reply.2, none, 0⟩)

/-- Where row indices are read: a variable of the caller or an allocated array. -/
inductive RowIndices
  | variable (values : List Int)
  | array (p : Option Ptr)

namespace Mem

/-! ## Loads and stores -/

def deref : Option Ptr → Prog Block Ptr
  | none => undefined
  | some p => pure p

/-- `p[i]`, an `int`. -/
def loadInt (p : Ptr) (i : Nat) : Prog Block Int := do
  match ← read p with
  | .ints values =>
    match values[i]? with
    | some (some v) => pure v
    | _ => undefined
  | _ => undefined

/-- `p[i] = v`. -/
def storeInt (p : Ptr) (i : Nat) (v : Int) : Prog Block Unit := do
  match ← read p with
  | .ints values =>
    if i < values.length then write p (.ints (values.set i (some v))) else undefined
  | _ => undefined

/-- `row_indices[i]`. -/
def loadIndex (indices : RowIndices) (i : Nat) : Prog Block Int :=
  match indices with
  | .variable values =>
    match values[i]? with
    | some v => pure v
    | none => undefined
  | .array p => do loadInt (← deref p) i

/-! ## The rows of a result -/

/-- `executor_duplicate_cell`. -/
def executorDuplicateCell (value : Option Ptr) : Prog Block (Option Ptr) :=
  match value with
  | none => utilsStrdup []
  | some p => do utilsStrdup (← loadText p)

/-- The loop of `executor_free_rows` and of `query_result_free`. -/
def freeResultRows (rows : Ptr) (colCount : Nat) : Nat → Nat → Prog Block Unit
  | 0, _ => pure ()
  | todo + 1, i => do
    match ← loadSlot rows i with
    | none => freeResultRows rows colCount todo (i + 1)
    | some row => do
      freeCells row colCount 0
      free row
      storeSlot rows i none
      freeResultRows rows colCount todo (i + 1)

/-- `executor_free_rows`. -/
def executorFreeRows (rows : Option Ptr) (rowCount colCount : Nat) : Prog Block Unit :=
  match rows with
  | none => pure ()
  | some rows => do
    freeResultRows rows colCount rowCount 0
    free rows

/-- `executor_allocate_rows`: `*rows`, or no value where it fails. -/
def executorAllocateRows (rowCount : Nat) : Prog Block (Option (Option Ptr)) :=
  if rowCount = 0 then pure (some none)
  else do
    match ← alloc (.slots (List.replicate rowCount (some none))) with
    | none => pure none
    | some rows => pure (some (some rows))

/-- The loop of `executor_copy_projected_row`. -/
def copyCells (row sourceRow : Ptr) : List Nat → Nat → Prog Block Status
  | [], _ => pure .success
  | selected :: rest, i => do
    let copy ← executorDuplicateCell (← loadSlot sourceRow selected)
    storeSlot row i copy
    match copy with
    | none => pure .failure
    | some _ => copyCells row sourceRow rest (i + 1)

/-- `executor_copy_projected_row`. -/
def executorCopyProjectedRow (rows : Ptr) (resultIndex : Nat) (sourceRow : Ptr)
    (selected : List Nat) : Prog Block Status := do
  let row ← alloc (.slots (List.replicate selected.length (some none)))
  storeSlot rows resultIndex row
  match row with
  | none => pure .failure
  | some row => copyCells row sourceRow selected 0

/-- `table_get_row_by_slot`. -/
def tableGetRowBySlot (m : TableMemory) (rowIndex : Int) : Prog Block (Option Ptr) :=
  if rowIndex < 0 ∨ m.fields.rowCount ≤ rowIndex then pure none
  else do loadSlot (← deref m.rows) rowIndex.toNat

/-- The loop of `executor_collect_rows_by_indices`. -/
def collectLoop (m : TableMemory) (rows : Option Ptr) (selected : List Nat)
    (indices : RowIndices) : Nat → Nat → Prog Block Status
  | 0, _ => pure .success
  | todo + 1, i => do
    match ← tableGetRowBySlot m (← loadIndex indices i) with
    | none => pure .failure
    | some sourceRow =>
      match ← executorCopyProjectedRow (← deref rows) i sourceRow selected with
      | .failure => pure .failure
      | .success => collectLoop m rows selected indices todo (i + 1)

/-- `executor_collect_rows_by_indices`. -/
def executorCollectRowsByIndices (m : TableMemory) (selected : List Nat) (indices : RowIndices)
    (rowCount : Nat) (result : QueryResult) : Prog Block (Status × ResultMemory) := do
  match ← executorAllocateRows rowCount with
  | none => pure (executorFail result (bytes "Failed to allocate result rows.")).withoutRows
  | some rows =>
    match ← collectLoop m rows selected indices rowCount 0 with
    | .failure => do
      executorFreeRows rows rowCount selected.length
      pure (executorFail result (bytes "Failed to copy result rows.")).withoutRows
    | .success => pure (.success, ⟨{ result with
        success := true, kind := .table, message := .empty, error := .empty }, rows, rowCount⟩)

/-- `query_result_free`. -/
def queryResultFree (r : ResultMemory) : Prog Block ResultMemory := do
  executorFreeRows r.rows r.rowCount r.fields.columnCount
  pure ⟨queryResultInit, none, 0⟩

/-! ## The scan -/

/-- The loop of `table_linear_scan_by_field` without a WHERE clause. -/
def fillIndices (found : Ptr) : Nat → Nat → Prog Block Unit
  | 0, _ => pure ()
  | todo + 1, i => do
    storeInt found i i
    fillIndices found todo (i + 1)

/-- The loop of `table_linear_scan_by_field` with one, which frees the array where it fails. -/
def scanLoop (m : TableMemory) (clause : WhereClause) (column : Nat) (found : Ptr) :
    Nat → Nat → Nat → Prog Block (Sql Nat)
  | 0, _, count => pure (.ok count)
  | todo + 1, i, count => do
    let row ← deref (← loadSlot (← deref m.rows) i)
    let text ← loadText (← deref (← loadSlot row column))
    match tableCompareFieldValue m.fields column text clause with
    | .error e => do
      free found
      pure (.error e)
    | .ok comparison =>
      if tableWhereMatches comparison clause.op.text then do
        storeInt found count i
        scanLoop m clause column found todo (i + 1) (count + 1)
      else scanLoop m clause column found todo (i + 1) count

/-- `table_linear_scan_by_field`: the array and the number of the row indices. -/
def tableLinearScanByField (m : TableMemory) (clause : Option WhereClause) :
    Prog Block (Sql (Option Ptr × Nat)) :=
  if !m.fields.loaded ∨ m.fields.rowCount = 0 then pure (.ok (none, 0))
  else do
    match ← alloc (.ints (List.replicate m.fields.rowCount none)) with
    | none => pure (.error (message "Failed to allocate memory."))
    | some found =>
      match clause with
      | none => do
        fillIndices found m.fields.rowCount 0
        pure (.ok (some found, m.fields.rowCount))
      | some clause =>
        match tableFindColumnIndex m.fields clause.column.text with
        | none => do
          free found
          pure (.error (message "Column not found."))
        | some column =>
          match ← scanLoop m clause column found m.fields.rowCount 0 0 with
          | .error e => pure (.error e)
          | .ok 0 => do
            free found
            pure (.ok (none, 0))
          | .ok count => pure (.ok (some found, count))

/-- `executor_collect_all_rows` and `executor_collect_rows_by_scan`. -/
def collectScanned (m : TableMemory) (clause : Option WhereClause) (selected : List Nat)
    (result : QueryResult) : Prog Block (Status × ResultMemory) := do
  match ← tableLinearScanByField m clause with
  | .error e => pure (executorFail result e.text).withoutRows
  | .ok (indices, count) => do
    let reply ← executorCollectRowsByIndices m selected (.array indices) count result
    freeOpt indices
    pure reply

/-- `executor_collect_rows_by_id`. -/
def executorCollectRowsById (m : TableMemory) (searchKey : Int) (selected : List Nat)
    (result : QueryResult) : Prog Block (Status × ResultMemory) := do
  match ← bptreeSearch m.fields.idIndex m.nodes searchKey with
  | none => executorCollectRowsByIndices m selected (.array none) 0 result
  | some rowIndex =>
    executorCollectRowsByIndices m selected (.variable [rowIndex]) 1 result

/-- `executor_execute_select` from the projection on. -/
def executorSelectBody (stmt : SelectStatement) (m : TableMemory) (result : QueryResult) :
    Prog Block (Status × ResultMemory) :=
  if !m.fields.loaded then
    pure (executorFail result
      (bytes "Table '" ++ stmt.tableName.text ++ bytes "' not found.")).withoutRows
  else match executorPrepareProjection stmt m.fields result with
    | .error failed => pure failed.withoutRows
    | .ok (selected, result) =>
      match stmt.where with
      | none => collectScanned m none selected result
      | some clause =>
        match executorCanUseIdIndex m.fields clause with
        | some searchKey => executorCollectRowsById m searchKey selected result
        | none => collectScanned m (some clause) selected result

end Mem

end JungleDb
