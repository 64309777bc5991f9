import JungleDb.Engine.Executor
import JungleDb.Runtime.Insert
import JungleDb.Runtime.Scan

/-!
# SELECT on a table

What `executor_execute_select` does while it holds the lock of a table that represents a relation is
to answer the statement on the relation. The way over the id index and the linear scan give the same
answer wherever the first is taken.
-/

namespace JungleDb

open CArray CString

/-! ## The id index against the scan -/

/-- A table that calls of `table_insert_row` lead to, no allocation failing. -/
inductive InsertReachable : TableRuntime → Prop
  | init : InsertReachable tableInit
  | insert {t t' : TableRuntime} {stmt : InsertStatement} {result : Sql Nat} :
    InsertReachable t → tableInsertRow t stmt [] = some (result, t') → InsertReachable t'

theorem InsertReachable.represents {t : TableRuntime} (h : InsertReachable t) :
    ∃ o, Represents t o := by
  induction h with
  | init => exact ⟨none, represents_init⟩
  | insert _ hrun ih =>
    obtain ⟨o, hrep⟩ := ih
    obtain ⟨result, t', o', hrun', hrep', -⟩ := hrep.insertRow _
    obtain ⟨-, rfl⟩ := Prod.mk.inj (Option.some.inj (hrun.symm.trans hrun'))
    exact ⟨o', hrep'⟩

/-- What holds when the index is used. -/
theorem executorCanUseIdIndex_some {t : TableRuntime} {R : Relation} (hs : HasSchema t R.header)
    {clause : WhereClause} {key : Int} (h : executorCanUseIdIndex t clause = some key) :
    clause.op.text = bytes "=" ∧ SameName idName.text clause.column.text ∧
      IntegerText clause.value.text ∧ intValue clause.value.text = key := by
  unfold executorCanUseIdIndex at h
  split at h
  · cases h
  split at h
  · cases h
  rename_i hop
  split at h
  · cases h
  rename_i hcolumn
  rw [hs.idColumnIndex, (hs.column 0 idColumn rfl).1, utilsEqualsIgnoreCase_eq] at hcolumn
  rw [utilsTryParseInteger_eq] at h
  split at h
  · cases h
  rename_i parsedKey hparse
  split at hparse
  · rename_i hint
    obtain rfl := Option.some.inj hparse
    split at h
    · cases h
    · rw [not_or, not_not] at hop
      have hname : SameName idColumn.name.text clause.column.text := by simpa using hcolumn
      exact ⟨hop.1, hname, hint, Option.some.inj h⟩
  · cases hparse

/-- A name that is the id's finds the id. -/
theorem Relation.columnIndex_id {R : Relation} {name : Bytes} (h : SameName idName.text name) :
    R.columnIndex name = some 0 := by
  have hid : SameName idColumn.name.text name := h
  rw [Relation.columnIndex, Relation.header, List.findIdx?_cons]
  simp [hid]

theorem Relation.cellAt_id {R : Relation} {j : Nat} (hj : j < R.rows.length) :
    cellAt (R.rows[j]?.getD []) 0 = decimal (j + 1) := by
  rw [R.length_rows] at hj
  rw [Relation.getElem?_rows, List.getElem?_eq_getElem hj]
  rfl

/-- Every id can be compared with an integer literal. -/
theorem Relation.comparable_id {R : Relation} {clause : WhereClause}
    (h : IntegerText clause.value.text) : R.Comparable clause 0 := by
  intro _
  refine ⟨h, fun row hrow => ?_⟩
  obtain ⟨j, hj, rfl⟩ := List.getElem_of_mem hrow
  have hcell := R.cellAt_id hj
  rw [List.getElem?_eq_getElem hj] at hcell
  rw [show cellAt R.rows[j] 0 = decimal (j + 1) from hcell]
  have hmax : MAX_ROWS = 2 ^ 30 := rfl
  have hrange : LLONG_MAX = 2 ^ 63 - 1 := rfl
  have := R.bounded
  rw [R.length_rows] at hj
  exact integerText_decimal (by omega)

theorem filter_range_eq (n : Nat) (key : Int) :
    (List.range n).filter (fun j => decide (((j + 1 : Nat) : Int) = key)) =
      if 1 ≤ key ∧ key ≤ n then [(key - 1).toNat] else [] := by
  induction n with
  | zero =>
    rw [if_neg (by omega)]
    rfl
  | succ n ih =>
    rw [List.range_succ, List.filter_append, ih]
    by_cases hlast : ((n + 1 : Nat) : Int) = key
    · have hold : ¬ (1 ≤ key ∧ key ≤ n) := by omega
      have hnew : 1 ≤ key ∧ key ≤ ((n + 1 : Nat) : Int) := by omega
      have hval : (key - 1).toNat = n := by omega
      rw [if_neg hold, if_pos hnew, hval, List.nil_append]
      exact List.filter_cons_of_pos (decide_eq_true hlast)
    · have hiff : (1 ≤ key ∧ key ≤ ((n + 1 : Nat) : Int)) ↔ 1 ≤ key ∧ key ≤ n := by omega
      have hnone : [n].filter (fun j => decide (((j + 1 : Nat) : Int) = key)) = [] :=
        List.filter_cons_of_neg (by simpa using hlast)
      rw [hnone, List.append_nil]
      simp only [hiff]

/-- The rows that match an equality of the id. -/
theorem Relation.matching_id {R : Relation} {clause : WhereClause} (hop : clause.op.text = bytes "=") :
    R.matching clause 0 =
      if 1 ≤ intValue clause.value.text ∧ intValue clause.value.text ≤ R.rows.length then
        [(intValue clause.value.text - 1).toNat] else [] := by
  rw [← filter_range_eq, Relation.matching]
  refine List.filter_congr fun j hj => ?_
  rw [Relation.cellAt_id (List.mem_range.mp hj), WhereClause.holds, hop]
  simp only [show Comparison.ofOp (bytes "=") = some .eq from rfl,
    show (R.column 0).kind = .int from rfl, Comparison.holds, intValue_decimal]

/-- The index and the scan lead to the same rows. -/
theorem Represents.byId_eq_byScan {t : TableRuntime} {o : Option Relation} (hrep : Represents t o)
    {clause : WhereClause} {key : Int} (hkey : executorCanUseIdIndex t clause = some key)
    (selected : List Nat) (result : QueryResult) :
    executorCollectRowsById t key selected result =
      executorCollectRowsByScan t clause selected result := by
  cases o with
  | none =>
    rw [executorCanUseIdIndex, if_pos (.inl (by rw [hrep.1]; rfl))] at hkey
    cases hkey
  | some R =>
    obtain ⟨hop, hname, hint, rfl⟩ := executorCanUseIdIndex_some hrep.1 hkey
    unfold executorCollectRowsById executorCollectRowsByScan collectScanned
    rw [hrep.2.search, tableLinearScanByField_where hrep, Relation.columnIndex_id hname]
    simp only [if_pos (Relation.comparable_id hint), Relation.matching_id hop, hrep.2.rowCount]
    split
    · have hcast : Int.ofNat (intValue clause.value.text - 1).toNat =
          intValue clause.value.text - 1 := Int.toNat_of_nonneg (by omega)
      show executorCollectRowsByIndices t selected [_] result =
        executorCollectRowsByIndices t selected [Int.ofNat _] result
      rw [hcast]
    · rfl

/-! ## The answer -/

/-- The requested columns up to the first that does not exist, and that one. -/
def Relation.resolve (R : Relation) : List Identifier → List Nat × Option Identifier
  | [] => ([], none)
  | name :: names =>
    match R.columnIndex name.text with
    | none => ([], some name)
    | some i => (i :: (R.resolve names).1, (R.resolve names).2)

/-- The columns of the answer, or those before the first that does not exist. -/
def Relation.requested (R : Relation) (stmt : SelectStatement) : List Nat × Option Identifier :=
  if stmt.columns.1 = [] then (List.range R.header.length, none) else R.resolve stmt.columns.1

/-- Why the rows of a WHERE clause cannot be found. -/
def Relation.whereError (R : Relation) (clause : Option WhereClause) : Option (CStr MESSAGE_LEN) :=
  match clause with
  | none => none
  | some clause =>
    match R.columnIndex clause.column.text with
    | none => some (message "Column not found.")
    | some i => if R.Comparable clause i then none else some badInteger

/-- The reply to a SELECT on a relation. -/
def Relation.reply (R : Relation) (stmt : SelectStatement) : Reply :=
  let (indices, missing) := R.requested stmt
  let named := { queryResultInit with kind := .table, columns := R.names indices }
  match missing with
  | some name => executorFail named (bytes "Column '" ++ name.text ++ bytes "' not found.")
  | none =>
    let named := { named with columnCount := indices.length }
    match R.whereError stmt.where with
    | some e => executorFail named e.text
    | none => (.success, { named with
        success := true, rows := (R.filtered stmt.where).map (projectRow indices) })

theorem Relation.names_cons (R : Relation) (i : Nat) (indices : List Nat) :
    R.names (i :: indices) = (R.column i).name :: R.names indices := rfl

theorem HasSchema.columnName {t : TableRuntime} {R : Relation} (hs : HasSchema t R.header) {i : Nat}
    (hi : i < R.header.length) : rd t.columns i = (R.column i).name :=
  (hs.column i _ (Relation.header_getElem? hi)).1

theorem prepareAll_eq {t : TableRuntime} {R : Relation} (hs : HasSchema t R.header) :
    ∀ (is selected : List Nat) (result : QueryResult), (∀ i ∈ is, i < R.header.length) →
      prepareAll t is selected result =
        .ok (selected ++ is, { result with columns := result.columns ++ R.names is })
  | [], selected, result, _ => by simp [prepareAll, Relation.names]
  | i :: is, selected, result, hlt => by
    rw [prepareAll, utilsSafeStrcpy_text, hs.columnName (hlt i List.mem_cons_self)]
    simp only
    rw [prepareAll_eq hs is _ _ fun j hj => hlt j (List.mem_cons_of_mem i hj)]
    simp [Relation.names_cons]

theorem prepareColumns_eq {t : TableRuntime} {R : Relation} (hs : HasSchema t R.header) :
    ∀ (names : List Identifier) (selected : List Nat) (result : QueryResult),
      prepareColumns t names selected result =
        let named := { result with columns := result.columns ++ R.names (R.resolve names).1 }
        match (R.resolve names).2 with
        | some name =>
          .error (executorFail named (bytes "Column '" ++ name.text ++ bytes "' not found."))
        | none => .ok (selected ++ (R.resolve names).1, named)
  | [], selected, result => by simp [prepareColumns, Relation.resolve, Relation.names]
  | name :: names, selected, result => by
    rw [prepareColumns, executorFindColumnIndex, hs.findColumnIndex, Relation.resolve]
    cases hcol : R.columnIndex name.text with
    | none => simp [Relation.names]
    | some i =>
      simp only
      rw [utilsSafeStrcpy_text, hs.columnName (Relation.columnIndex_lt hcol)]
      simp only
      rw [prepareColumns_eq hs names]
      cases (R.resolve names).2 with
      | none => simp [Relation.names_cons]
      | some _ => simp [Relation.names_cons]

theorem Relation.resolve_lt {R : Relation} : ∀ {names : List Identifier},
    ∀ i ∈ (R.resolve names).1, i < R.header.length
  | [], i, hi => by cases hi
  | name :: names, i, hi => by
    rw [Relation.resolve] at hi
    cases hcol : R.columnIndex name.text with
    | none =>
      rw [hcol] at hi
      cases hi
    | some j =>
      rw [hcol] at hi
      rcases List.mem_cons.mp hi with rfl | hi
      · exact Relation.columnIndex_lt hcol
      · exact Relation.resolve_lt i hi

theorem Relation.requested_lt {R : Relation} {stmt : SelectStatement} :
    ∀ i ∈ (R.requested stmt).1, i < R.header.length := by
  unfold Relation.requested
  split
  · exact fun i hi => List.mem_range.mp hi
  · exact Relation.resolve_lt

/-- The names are resolved one for one. -/
theorem Relation.resolve_length {R : Relation} : ∀ {names : List Identifier},
    (R.resolve names).2 = none → (R.resolve names).1.length = names.length
  | [], _ => rfl
  | name :: names, h => by
    rw [Relation.resolve] at h ⊢
    cases hcol : R.columnIndex name.text with
    | none =>
      rw [hcol] at h
      cases h
    | some i =>
      rw [hcol] at h
      exact congrArg Nat.succ (Relation.resolve_length h)

theorem executorPrepareProjection_eq {t : TableRuntime} {R : Relation}
    (hs : HasSchema t R.header) (stmt : SelectStatement) :
    executorPrepareProjection stmt t queryResultInit =
      let named := { queryResultInit with kind := .table, columns := R.names (R.requested stmt).1 }
      match (R.requested stmt).2 with
      | some name =>
        .error (executorFail named (bytes "Column '" ++ name.text ++ bytes "' not found."))
      | none => .ok ((R.requested stmt).1,
          { named with columnCount := (R.requested stmt).1.length }) := by
  unfold executorPrepareProjection Relation.requested
  by_cases hall : stmt.columns.1 = []
  · simp only [if_pos hall, hs.colCount, bind, Except.bind]
    rw [prepareAll_eq hs _ _ _ fun i hi => List.mem_range.mp hi]
    simp [queryResultInit]
  · simp only [if_neg hall, bind, Except.bind]
    rw [prepareColumns_eq hs]
    cases hmissing : (R.resolve stmt.columns.1).2 with
    | none =>
      simp only [queryResultInit, List.nil_append, Relation.resolve_length hmissing]
    | some name => simp only [queryResultInit, List.nil_append]

theorem mapM_getElem? {row : Row} : ∀ {selected : List Nat}, (∀ i ∈ selected, i < row.length) →
    executorCopyProjectedRow row selected = some (projectRow selected row)
  | [], _ => rfl
  | i :: selected, hlt => by
    have ih : executorCopyProjectedRow row selected = some (projectRow selected row) :=
      mapM_getElem? fun j hj => hlt j (List.mem_cons_of_mem i hj)
    unfold executorCopyProjectedRow at ih ⊢
    rw [List.mapM_cons, ih, List.getElem?_eq_getElem (hlt i List.mem_cons_self)]
    simp [projectRow, cellAt, hlt i List.mem_cons_self]

/-- The rows at indices of the table are copied. -/
theorem collectLoop_eq {t : TableRuntime} {R : Relation} (hr : RowStore t R.rows)
    {selected : List Nat} (hsel : ∀ i ∈ selected, i < R.header.length) : ∀ {js : List Nat},
      (∀ j ∈ js, j < R.rows.length) → collectLoop t selected (js.map Int.ofNat) =
        some (some (js.map fun j => projectRow selected (R.rows[j]?.getD [])))
  | [], _ => rfl
  | j :: js, hlt => by
    have hj : j < R.rows.length := hlt j List.mem_cons_self
    have hrow : tableGetRowBySlot t (Int.ofNat j) = some R.rows[j] := by
      have hcount : j < t.rowCount := by rw [hr.rowCount]; exact hj
      have hneg : ¬ (Int.ofNat j < 0 ∨ (t.rowCount : Int) ≤ Int.ofNat j) := by
        simp only [Int.ofNat_eq_natCast]
        omega
      rw [tableGetRowBySlot, if_neg hneg, show (Int.ofNat j).toNat = j from rfl,
        hr.slot j hcount, List.getElem?_eq_getElem hj]
      rfl
    have hcopy : executorCopyProjectedRow R.rows[j] selected =
        some (projectRow selected R.rows[j]) :=
      mapM_getElem? fun i hi => by
        rw [Relation.length_of_mem_rows (List.getElem_mem hj)]
        exact hsel i hi
    rw [List.map_cons, collectLoop, hrow]
    simp only [hcopy, Option.bind_eq_bind, Option.bind_some,
      collectLoop_eq hr hsel fun k hk => hlt k (List.mem_cons_of_mem j hk)]
    rw [List.map_cons, List.getElem?_eq_getElem hj]
    rfl

/-- What `executor_collect_rows_by_indices` makes of indices of the table. -/
theorem executorCollectRowsByIndices_eq {t : TableRuntime} {R : Relation}
    (hr : RowStore t R.rows) {selected : List Nat} (hsel : ∀ i ∈ selected, i < R.header.length)
    {js : List Nat} (hlt : ∀ j ∈ js, j < R.rows.length) (result : QueryResult) :
    executorCollectRowsByIndices t selected (js.map Int.ofNat) result =
      some (.success, { result with
        success := true, kind := .table, message := .empty, error := .empty
        rows := (js.map fun j => R.rows[j]?.getD []).map (projectRow selected) }) := by
  unfold executorCollectRowsByIndices
  simp only [collectLoop_eq hr hsel hlt, Option.bind_eq_bind, Option.bind_some, List.map_map]
  rfl

/-- The scan and the copy find the rows that satisfy the clause, or report why not. -/
theorem Represents.collectScanned {t : TableRuntime} {R : Relation} (hrep : Represents t (some R))
    (clause : Option WhereClause) {selected : List Nat}
    (hsel : ∀ i ∈ selected, i < R.header.length) (result : QueryResult) :
    JungleDb.collectScanned t clause selected result = some (match R.whereError clause with
      | some e => executorFail result e.text
      | none => (.success, { result with
          success := true, kind := .table, message := .empty, error := .empty
          rows := (R.filtered clause).map (projectRow selected) })) := by
  unfold JungleDb.collectScanned Relation.whereError Relation.filtered
  cases clause with
  | none =>
    rw [tableLinearScanByField_all hrep]
    simp only [Option.bind_eq_bind, Option.bind_some]
    rw [executorCollectRowsByIndices_eq hrep.2 hsel (fun j hj => List.mem_range.mp hj)]
    have hall := map_filter_range R.rows [] fun _ => true
    simp only [List.filter_true] at hall
    rw [hall]
  | some clause =>
    rw [tableLinearScanByField_where hrep]
    simp only [Option.bind_eq_bind, Option.bind_some]
    cases hcol : R.columnIndex clause.column.text with
    | none => rfl
    | some i =>
      by_cases hcmp : R.Comparable clause i
      · simp only [if_pos hcmp]
        have hlt : ∀ j ∈ R.matching clause i, j < R.rows.length := fun j hj =>
          List.mem_range.mp (List.mem_of_mem_filter hj)
        rw [executorCollectRowsByIndices_eq hrep.2 hsel hlt, Relation.matching,
          map_filter_range R.rows [] fun row => clause.holds (R.column i).kind (cellAt row i)]
      · simp only [if_neg hcmp]

/-- Under the lock of a table that represents a relation, a SELECT gives the reply of the relation. -/
theorem executorSelectBody_refines {t : TableRuntime} {R : Relation} (hrep : Represents t (some R))
    (stmt : SelectStatement) :
    executorSelectBody stmt t queryResultInit = some (R.reply stmt) := by
  have hscan : ∀ result, JungleDb.collectScanned t stmt.where (R.requested stmt).1 result = _ :=
    hrep.collectScanned stmt.where Relation.requested_lt
  unfold executorSelectBody Relation.reply
  rw [hrep.1.loaded, executorPrepareProjection_eq hrep.1]
  simp only [Bool.not_true, Bool.false_eq_true, if_false]
  cases hmissing : (R.requested stmt).2 with
  | some name => rfl
  | none =>
    simp only
    cases hwhere : stmt.where with
    | none =>
      rw [hwhere] at hscan
      exact (hscan _).trans rfl
    | some clause =>
      rw [hwhere] at hscan
      simp only
      cases hkey : executorCanUseIdIndex t clause with
      | none => exact (hscan _).trans rfl
      | some key =>
        simp only [Represents.byId_eq_byScan hrep hkey]
        exact (hscan _).trans rfl

/-- For every table that calls of `table_insert_row` lead to and every WHERE clause that the index is
used for, the way over the index and the scan return the same and fill in the same result; for a
projection to columns of the table they do return. -/
theorem executorCollectRowsById_eq_scan {t : TableRuntime} (hreach : InsertReachable t)
    {clause : WhereClause} {key : Int} (hkey : executorCanUseIdIndex t clause = some key)
    (selected : List Nat) (result : QueryResult) :
    executorCollectRowsById t key selected result =
        executorCollectRowsByScan t clause selected result ∧
      ((∀ i ∈ selected, i < t.colCount) →
        ∃ reply, executorCollectRowsByScan t clause selected result = some reply) := by
  obtain ⟨o, hrep⟩ := hreach.represents
  refine ⟨hrep.byId_eq_byScan hkey selected result, fun hsel => ?_⟩
  cases o with
  | none =>
    rw [executorCanUseIdIndex, if_pos (.inl (by rw [hrep.1]; rfl))] at hkey
    cases hkey
  | some R =>
    rw [hrep.1.colCount] at hsel
    exact ⟨_, hrep.collectScanned (some clause) hsel result⟩

/-- An INSERT of one value. -/
def firstRow : InsertStatement := ⟨lit _ "t", ⟨[⟨lit _ "a", lit _ "x", .string⟩], by decide⟩⟩

/-- The table after it. -/
def oneRow : TableRuntime :=
  match tableInsertRow tableInit firstRow [] with
  | some (_, t) => t
  | none => tableInit

theorem insertReachable_oneRow : InsertReachable oneRow := by
  have hrun : tableInsertRow tableInit firstRow [] = some (.ok 0, oneRow) := by rfl
  exact .insert .init hrun

/-- `WHERE ID = '+01'` finds the row by the index and by the scan. -/
theorem executorCollectRowsById_eq_scan_oneRow :
    let idIsOne : WhereClause := ⟨lit _ "ID", lit _ "=", lit _ "+01", .string⟩
    executorCollectRowsById oneRow 1 [1, 0] queryResultInit =
        executorCollectRowsByScan oneRow idIsOne [1, 0] queryResultInit ∧
      ((∀ i ∈ [1, 0], i < oneRow.colCount) →
        ∃ reply, executorCollectRowsByScan oneRow idIsOne [1, 0] queryResultInit = some reply) :=
  executorCollectRowsById_eq_scan insertReachable_oneRow (by decide +kernel) [1, 0] queryResultInit

end JungleDb
