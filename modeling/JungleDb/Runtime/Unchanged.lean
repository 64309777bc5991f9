import Mathlib.Data.List.Find
import JungleDb.Lib.Machine
import JungleDb.Runtime.Limits

/-!
# Inserts that fail early

`table_insert_row` can fail at several places before it reaches `bptree_insert`. What such a call
leaves of the table is compared by everything that later calls can see of it: a table that was loaded
and named stays as it was, but a first insert may have fixed the name and the schema.
-/

namespace JungleDb

open CArray CString

/-! ## The call up to `bptree_insert` -/

/-- `if (!table->loaded) { ... } else if (...)`: the schema is made or checked. -/
def tableCheckSchema (table : TableRuntime) (stmt : InsertStatement) : Sql Unit × TableRuntime :=
  if table.loaded then (tableValidateInsertSchema table stmt, table)
  else tableInitializeSchema table stmt

/-- From `table_reserve_if_needed` to the check of the id: the row, with the outcomes of the
allocations behind it. -/
def tableBuildNext (table : TableRuntime) (stmt : InsertStatement) (allocs : List Bool) :
    Sql (Row × List Bool) × TableRuntime :=
  match tableReserveIfNeeded table allocs with
  | (.error e, table, _) => (.error e, table)
  | (.ok (), table, allocs) =>
    match tableBuildRow stmt table.nextId allocs with
    | (none, _) => (.error (message "Failed to insert row."), table)
    | (some row, allocs) =>
      if INT_MAX < table.nextId then
        (.error (message "Runtime id exceeds B+ tree key range."), table)
      else (.ok (row, allocs), table)

/-- `table_insert_row` up to the place where it takes a slot and calls `bptree_insert`. -/
def tablePrepareRow (table : TableRuntime) (stmt : InsertStatement) (allocs : List Bool) :
    Sql (Row × List Bool) × TableRuntime :=
  if SameName (table.adopt stmt).tableName.text stmt.tableName.text then
    match tableCheckSchema (table.adopt stmt) stmt with
    | (.error e, table) => (.error e, table)
    | (.ok (), table) => tableBuildNext table stmt allocs
  else (.error (message "Active runtime table does not match INSERT target."), table.adopt stmt)

theorem tableAppendRow_next (t : TableRuntime) (stmt : InsertStatement) (allocs : List Bool) :
    tableAppendRow t stmt allocs = match tableBuildNext t stmt allocs with
      | (.error e, t) => some (.error e, t)
      | (.ok (row, allocs), t) => tableStoreRow t row allocs := by
  unfold tableAppendRow tableBuildNext
  obtain ⟨reserved, t, allocs⟩ := tableReserveIfNeeded t allocs
  cases reserved with
  | error e => rfl
  | ok =>
    simp only
    obtain ⟨row, allocs⟩ := tableBuildRow stmt t.nextId allocs
    cases row with
    | none => rfl
    | some row =>
      simp only
      by_cases hid : INT_MAX < t.nextId
      · rw [if_pos hid, tableStoreRow, if_pos hid]
      · rw [if_neg hid]

theorem tableInsertNamed_check (t : TableRuntime) (stmt : InsertStatement) (allocs : List Bool) :
    tableInsertNamed t stmt allocs = match tableCheckSchema t stmt with
      | (.error e, t) => some (.error e, t)
      | (.ok (), t) => tableAppendRow t stmt allocs := rfl

/-- A call that fails before `bptree_insert` leaves the table there; the others store the row. -/
theorem tableInsertRow_prepare (t : TableRuntime) (stmt : InsertStatement) (allocs : List Bool) :
    tableInsertRow t stmt allocs = match tablePrepareRow t stmt allocs with
      | (.error e, t) => some (.error e, t)
      | (.ok (row, allocs), t) => tableStoreRow t row allocs := by
  rw [tableInsertRow_eq]
  unfold tablePrepareRow
  by_cases hname : SameName (t.adopt stmt).tableName.text stmt.tableName.text
  · rw [if_pos hname, if_pos hname, tableInsertNamed_check]
    obtain ⟨checked, t⟩ := tableCheckSchema (t.adopt stmt) stmt
    cases checked with
    | error e => rfl
    | ok => exact tableAppendRow_next t stmt allocs
  · rw [if_neg hname, if_neg hname]

/-! ## What later calls see -/

/-- The allocations of a later call: any of them may fail, but the growth of the array of rows is
granted. -/
def granting (t : TableRuntime) (allocs : List Bool) : List Bool :=
  if t.rowCount < t.capacity then allocs else true :: allocs

/-- A later call. -/
inductive TableRequest
  | insert (stmt : InsertStatement) (allocs : List Bool)
  | scan (clause : Option WhereClause)

/-- What it returns. -/
inductive TableAnswer
  | inserted (result : Sql Nat)
  | scanned (result : Sql (List Nat))

/-- A later call on a table. -/
def tableRequest (t : TableRuntime) : TableRequest → Option (TableAnswer × TableRuntime)
  | .insert stmt allocs =>
    (tableInsertRow t stmt (granting t allocs)).map fun call => (.inserted call.1, call.2)
  | .scan clause => (tableLinearScanByField t clause).map fun result => (.scanned result, t)

/-- The table is as it was, and so are the answers to all later calls. -/
structure Unchanged (t t' : TableRuntime) : Prop where
  loaded : t'.loaded = t.loaded
  rowCount : t'.rowCount = t.rowCount
  row : ∀ i, tableGetRowBySlot t' i = tableGetRowBySlot t i
  nextId : t'.nextId = t.nextId
  idIndex : t'.idIndex = t.idIndex
  later : ∀ requests, (Machine.run tableRequest t' requests).map Prod.fst =
    (Machine.run tableRequest t requests).map Prod.fst

/-- The tables differ only in what is never read. -/
structure Alike (t t' : TableRuntime) : Prop where
  roomy : Roomy t
  roomy' : Roomy t'
  tableName : t'.tableName = t.tableName
  loaded : t'.loaded = t.loaded
  colCount : t.loaded = true → t'.colCount = t.colCount
  column : t.loaded = true → ∀ i < t.colCount,
    rd t'.columns i = rd t.columns i ∧ rd t'.columnValueKinds i = rd t.columnValueKinds i
  rowCount : t'.rowCount = t.rowCount
  row : ∀ i < t.rowCount, t'.rows[i]? = t.rows[i]?
  nextId : t'.nextId = t.nextId
  idIndex : t'.idIndex = t.idIndex

theorem SameRows.roomy {t t' : TableRuntime} (h : SameRows t t') (hr : Roomy t) : Roomy t' := by
  obtain ⟨hrows, hcount, hcap, -, -⟩ := h
  refine ⟨?_, ?_, ?_⟩
  · rw [hrows, hcap]
    exact hr.slots
  · rw [hcount, hcap]
    exact hr.fits
  · rw [hcap]
    exact hr.doubled

theorem SameRows.granting {t t' : TableRuntime} (h : SameRows t t') (allocs : List Bool) :
    granting t' allocs = granting t allocs := by
  unfold JungleDb.granting
  rw [h.rowCount, h.capacity]

theorem sameRows_adopt (t : TableRuntime) (stmt : InsertStatement) : SameRows t (t.adopt stmt) := by
  unfold TableRuntime.adopt
  split <;> exact ⟨rfl, rfl, rfl, rfl, rfl⟩

/-- The check of the schema keeps the rows and the name. -/
theorem tableCheckSchema_frame (t : TableRuntime) (stmt : InsertStatement) :
    SameRows t (tableCheckSchema t stmt).2 ∧
      (tableCheckSchema t stmt).2.tableName = t.tableName := by
  unfold tableCheckSchema
  cases hload : t.loaded with
  | true => exact ⟨⟨rfl, rfl, rfl, rfl, rfl⟩, rfl⟩
  | false =>
    obtain ⟨u, hrows, hname, hspec⟩ := tableInitializeSchema_spec hload stmt
    rw [if_neg Bool.false_ne_true]
    split at hspec
    · rw [hspec.1]
      exact ⟨hrows, hname⟩
    · split at hspec
      · rw [hspec.1]
        exact ⟨hrows, hname⟩
      · rw [hspec.1]
        exact ⟨hrows, hname⟩

namespace Alike

variable {t t' t'' : TableRuntime}

theorem refl (h : Roomy t) : Alike t t :=
  ⟨h, h, rfl, rfl, fun _ => rfl, fun _ _ _ => ⟨rfl, rfl⟩, rfl, fun _ _ => rfl, rfl, rfl⟩

theorem symm (h : Alike t t') : Alike t' t := by
  refine ⟨h.roomy', h.roomy, h.tableName.symm, h.loaded.symm, ?_, ?_, h.rowCount.symm, ?_,
    h.nextId.symm, h.idIndex.symm⟩
  · intro hload
    exact (h.colCount (h.loaded ▸ hload)).symm
  · intro hload i hi
    have hload := h.loaded ▸ hload
    rw [h.colCount hload] at hi
    obtain ⟨hname, hkind⟩ := h.column hload i hi
    exact ⟨hname.symm, hkind.symm⟩
  · intro i hi
    rw [h.rowCount] at hi
    exact (h.row i hi).symm

theorem trans (h : Alike t t') (h' : Alike t' t'') : Alike t t'' := by
  refine ⟨h.roomy, h'.roomy', h'.tableName.trans h.tableName, h'.loaded.trans h.loaded, ?_, ?_,
    h'.rowCount.trans h.rowCount, ?_, h'.nextId.trans h.nextId, h'.idIndex.trans h.idIndex⟩
  · intro hload
    exact (h'.colCount (h.loaded.trans hload)).trans (h.colCount hload)
  · intro hload i hi
    obtain ⟨hname, hkind⟩ := h.column hload i hi
    obtain ⟨hname', hkind'⟩ := h'.column (h.loaded.trans hload) i (h.colCount hload ▸ hi)
    exact ⟨hname'.trans hname, hkind'.trans hkind⟩
  · intro i hi
    exact (h'.row i (h.rowCount ▸ hi)).trans (h.row i hi)

/-- Tables that are not loaded differ in columns only that are set before they are read. -/
theorem of_sameRows (hr : Roomy t) (h : SameRows t t') (hname : t'.tableName = t.tableName)
    (hload : t.loaded = false) (hload' : t'.loaded = false) : Alike t t' := by
  have hnot : t.loaded ≠ true := by
    rw [hload]
    exact Bool.false_ne_true
  exact ⟨hr, h.roomy hr, hname, hload'.trans hload.symm, fun h => absurd h hnot,
    fun h => absurd h hnot, h.rowCount, fun i _ => by rw [h.rows], h.nextId, h.idIndex⟩

/-- Tables that get the same schema stay alike. -/
theorem of_hasSchema {u u' : TableRuntime} {header : List Column} (h : Alike t t')
    (hrows : SameRows t u) (hrows' : SameRows t' u') (hname : u.tableName = t.tableName)
    (hname' : u'.tableName = t'.tableName) (hs : HasSchema u header) (hs' : HasSchema u' header) :
    Alike u u' := by
  refine ⟨hrows.roomy h.roomy, hrows'.roomy h.roomy', ?_, hs'.loaded.trans hs.loaded.symm, ?_, ?_,
    ?_, ?_, ?_, ?_⟩
  · rw [hname', h.tableName, hname]
  · intro _
    rw [hs'.colCount, hs.colCount]
  · intro _ i hi
    rw [hs.colCount] at hi
    obtain ⟨hcol, hkind⟩ := hs.column i _ (List.getElem?_eq_getElem hi)
    obtain ⟨hcol', hkind'⟩ := hs'.column i _ (List.getElem?_eq_getElem hi)
    exact ⟨hcol'.trans hcol.symm, hkind'.trans hkind.symm⟩
  · rw [hrows'.rowCount, h.rowCount, hrows.rowCount]
  · intro i hi
    rw [hrows.rowCount] at hi
    rw [hrows'.rows, hrows.rows]
    exact h.row i hi
  · rw [hrows'.nextId, h.nextId, hrows.nextId]
  · rw [hrows'.idIndex, h.idIndex, hrows.idIndex]

/-! ### INSERT -/

theorem adopt (h : Alike t t') (stmt : InsertStatement) :
    Alike (t.adopt stmt) (t'.adopt stmt) := by
  obtain ⟨⟨hslots, hfits, hdoubled⟩, ⟨hslots', hfits', hdoubled'⟩, hname, hload, hcol, hcols, hcount,
    hrow, hnext, hindex⟩ := h
  unfold TableRuntime.adopt
  rw [hname]
  split
  · exact ⟨⟨hslots, hfits, hdoubled⟩, ⟨hslots', hfits', hdoubled'⟩, rfl, hload, hcol, hcols, hcount,
      hrow, hnext, hindex⟩
  · exact ⟨⟨hslots, hfits, hdoubled⟩, ⟨hslots', hfits', hdoubled'⟩, hname, hload, hcol, hcols,
      hcount, hrow, hnext, hindex⟩

theorem validateColumns_congr (items : List InsertItem) (i : Nat)
    (h : ∀ j, i < j → j ≤ i + items.length →
      rd t'.columns j = rd t.columns j ∧ rd t'.columnValueKinds j = rd t.columnValueKinds j) :
    validateColumns t' i items = validateColumns t i items := by
  induction items generalizing i with
  | nil => rfl
  | cons item items ih =>
    rw [List.length_cons] at h
    obtain ⟨hname, hkind⟩ := h (i + 1) (Nat.lt_succ_self i) (by omega)
    rw [validateColumns, validateColumns, hname, hkind, ih (i + 1)]
    intro j hj hle
    exact h j (by omega) (by omega)

theorem validate (h : Alike t t') (hload : t.loaded = true) (stmt : InsertStatement) :
    tableValidateInsertSchema t' stmt = tableValidateInsertSchema t stmt := by
  unfold tableValidateInsertSchema
  rw [h.colCount hload]
  split
  · rfl
  · rename_i hcount
    refine validateColumns_congr stmt.items.1 0 ?_
    intro j _ hle
    exact h.column hload j (by omega)

/-- The schema is checked or made alike. -/
theorem checkSchema (h : Alike t t') (stmt : InsertStatement) :
    (tableCheckSchema t' stmt).1 = (tableCheckSchema t stmt).1 ∧
      Alike (tableCheckSchema t stmt).2 (tableCheckSchema t' stmt).2 := by
  unfold tableCheckSchema
  cases hload : t.loaded with
  | true =>
    rw [h.loaded.trans hload, if_pos rfl, if_pos rfl]
    exact ⟨h.validate hload stmt, h⟩
  | false =>
    have hload' : t'.loaded = false := h.loaded.trans hload
    obtain ⟨u, hrows, hname, hspec⟩ := tableInitializeSchema_spec hload stmt
    obtain ⟨u', hrows', hname', hspec'⟩ := tableInitializeSchema_spec hload' stmt
    rw [hload', if_neg Bool.false_ne_true, if_neg Bool.false_ne_true]
    have hfailed : u.loaded = false → u'.loaded = false → Alike u u' := fun hu hu' =>
      ((of_sameRows h.roomy hrows hname hload hu).symm.trans h).trans
        (of_sameRows h.roomy' hrows' hname' hload' hu')
    split at hspec
    · rename_i hcount
      rw [if_pos hcount] at hspec'
      rw [hspec.1, hspec'.1]
      exact ⟨rfl, hfailed hspec.2 hspec'.2⟩
    · rename_i hcount
      rw [if_neg hcount] at hspec'
      split at hspec
      · rename_i hid
        rw [if_pos hid] at hspec'
        rw [hspec.1, hspec'.1]
        exact ⟨rfl, hfailed hspec.2 hspec'.2⟩
      · rename_i hid
        rw [if_neg hid] at hspec'
        rw [hspec.1, hspec'.1]
        exact ⟨rfl, h.of_hasSchema hrows hrows' hname hname' hspec.2 hspec'.2⟩

/-- The array of rows may grow. -/
theorem grown (hr : Roomy t) {n k : Nat} (hk : k ≤ 26) (hn : n = INITIAL_ROW_CAPACITY * 2 ^ k)
    (hle : t.capacity ≤ n) : Alike t (RowStore.grown t n) := by
  refine ⟨hr, hr.grown hk hn hle, rfl, rfl, fun _ => rfl, fun _ _ _ => ⟨rfl, rfl⟩, rfl, ?_, rfl, rfl⟩
  intro i hi
  have hlt : i < t.rows.length := by
    rw [hr.slots]
    exact Nat.lt_of_lt_of_le hi hr.fits
  rw [RowStore.grown, List.getElem?_append_left hlt]

/-- `table_reserve_if_needed` leaves nothing to be seen. -/
theorem reserve (hr : Roomy t) (allocs : List Bool) :
    Alike t (tableReserveIfNeeded t allocs).2.1 := by
  by_cases hroom : t.rowCount < t.capacity
  · unfold tableReserveIfNeeded
    rw [if_pos hroom]
    exact refl hr
  · by_cases hfull : t.rowCount = MAX_ROWS
    · rw [hr.reserve_full hfull]
      exact refl hr
    · obtain ⟨n, k, hk, hn, hlt, hrun⟩ := hr.reserve_grow hroom hfull allocs
      rw [hrun]
      obtain ⟨granted, allocs⟩ := calloc allocs
      cases granted with
      | false => exact refl hr
      | true => exact grown hr hk hn hlt.le

/-- Where the growth of the array is granted there is room, unless the table is full. -/
theorem reserve_granting (hr : Roomy t) (allocs : List Bool) :
    if t.rowCount = MAX_ROWS then
      tableReserveIfNeeded t (granting t allocs) =
        (.error (message "Failed to allocate memory."), t, granting t allocs)
    else ∃ u, tableReserveIfNeeded t (granting t allocs) = (.ok (), u, allocs) ∧ Alike t u ∧
      u.rowCount < u.rows.length := by
  by_cases hfull : t.rowCount = MAX_ROWS
  · rw [if_pos hfull]
    exact hr.reserve_full hfull _
  · rw [if_neg hfull]
    unfold granting
    by_cases hroom : t.rowCount < t.capacity
    · rw [if_pos hroom]
      refine ⟨t, ?_, refl hr, ?_⟩
      · unfold tableReserveIfNeeded
        rw [if_pos hroom]
      · rw [hr.slots]
        exact hroom
    · rw [if_neg hroom]
      obtain ⟨n, k, hk, hn, hlt, hrun⟩ := hr.reserve_grow hroom hfull (true :: allocs)
      refine ⟨_, hrun, grown hr hk hn hlt.le, ?_⟩
      rw [(hr.grown hk hn hlt.le).slots]
      exact Nat.lt_of_le_of_lt hr.fits hlt

/-- The row is stored alike. -/
theorem storeRow (h : Alike t t') (hroom : t.rowCount < t.rows.length)
    (hroom' : t'.rowCount < t'.rows.length) (row : Row) (allocs : List Bool) :
    Option.Rel (fun p q => p.1 = q.1 ∧ Alike p.2 q.2) (tableStoreRow t row allocs)
      (tableStoreRow t' row allocs) := by
  have hslots := h.roomy.slots
  have hslots' := h.roomy'.slots
  have hfits' := h.roomy'.fits
  rw [h.rowCount] at hroom' hfits'
  unfold tableStoreRow
  rw [h.nextId, h.idIndex, h.rowCount]
  rw [if_pos hroom, if_pos hroom']
  split
  · exact .some ⟨rfl, h⟩
  · cases bptreeInsert t.idIndex allocs t.nextId t.rowCount with
    | none => exact .none
    | some call =>
      obtain ⟨exit, idIndex⟩ := call
      simp only [Option.bind_eq_bind, Option.bind_some]
      cases exit.status with
      | failure =>
        refine .some ⟨rfl, ⟨?_, h.roomy.fits, h.roomy.doubled⟩, ⟨?_, hfits', h.roomy'.doubled⟩,
          h.tableName, h.loaded, h.colCount, h.column, rfl, ?_, rfl, rfl⟩
        · rw [List.length_set]
          exact hslots
        · rw [List.length_set]
          exact hslots'
        · intro i hi
          have hne : t.rowCount ≠ i := Nat.ne_of_gt hi
          rw [List.getElem?_set_ne hne, List.getElem?_set_ne hne]
          exact h.row i hi
      | success =>
        refine .some ⟨rfl, ⟨?_, ?_, h.roomy.doubled⟩, ⟨?_, ?_, h.roomy'.doubled⟩, h.tableName,
          h.loaded, h.colCount, h.column, rfl, ?_, rfl, rfl⟩
        · rw [List.length_set]
          exact hslots
        · rw [hslots] at hroom
          exact hroom
        · rw [List.length_set]
          exact hslots'
        · rw [hslots'] at hroom'
          exact hroom'
        · intro i hi
          rcases Nat.lt_succ_iff_lt_or_eq.mp hi with hlt | rfl
          · have hne : t.rowCount ≠ i := Nat.ne_of_gt hlt
            rw [List.getElem?_set_ne hne, List.getElem?_set_ne hne]
            exact h.row i hlt
          · rw [List.getElem?_set_self hroom, List.getElem?_set_self hroom']

/-- A row is appended alike. -/
theorem appendRow (h : Alike t t') (stmt : InsertStatement) (allocs : List Bool) :
    Option.Rel (fun p q => p.1 = q.1 ∧ Alike p.2 q.2)
      (tableAppendRow t stmt (granting t allocs))
      (tableAppendRow t' stmt (granting t' allocs)) := by
  have hreserve := reserve_granting h.roomy allocs
  have hreserve' := reserve_granting h.roomy' allocs
  rw [h.rowCount] at hreserve'
  unfold tableAppendRow
  by_cases hfull : t.rowCount = MAX_ROWS
  · rw [if_pos hfull] at hreserve hreserve'
    rw [hreserve, hreserve']
    exact .some ⟨rfl, h⟩
  · rw [if_neg hfull] at hreserve hreserve'
    obtain ⟨u, hrun, hu, hroom⟩ := hreserve
    obtain ⟨u', hrun', hu', hroom'⟩ := hreserve'
    have halike : Alike u u' := (hu.symm.trans h).trans hu'
    rw [hrun, hrun']
    simp only [halike.nextId]
    obtain ⟨row, allocs⟩ := tableBuildRow stmt u.nextId allocs
    cases row with
    | none => exact .some ⟨rfl, halike⟩
    | some row => exact halike.storeRow hroom hroom' row allocs

/-- One later INSERT. -/
theorem insertRow (h : Alike t t') (stmt : InsertStatement) (allocs : List Bool) :
    Option.Rel (fun p q => p.1 = q.1 ∧ Alike p.2 q.2)
      (tableInsertRow t stmt (granting t allocs)) (tableInsertRow t' stmt (granting t' allocs)) := by
  have hadopt := h.adopt stmt
  rw [tableInsertRow_eq, tableInsertRow_eq, hadopt.tableName]
  split
  · obtain ⟨hchecked, halike⟩ := hadopt.checkSchema stmt
    rw [tableInsertNamed_check, tableInsertNamed_check, ← (sameRows_adopt t stmt).granting,
      ← (sameRows_adopt t' stmt).granting, ← (tableCheckSchema_frame (t.adopt stmt) stmt).1.granting,
      ← (tableCheckSchema_frame (t'.adopt stmt) stmt).1.granting]
    generalize tableCheckSchema (t.adopt stmt) stmt = checked at hchecked halike ⊢
    generalize tableCheckSchema (t'.adopt stmt) stmt = checked' at hchecked halike ⊢
    obtain ⟨result, u⟩ := checked
    obtain ⟨result', u'⟩ := checked'
    cases hchecked
    cases result with
    | error e => exact .some ⟨rfl, halike⟩
    | ok => exact halike.appendRow stmt allocs
  · exact .some ⟨rfl, hadopt⟩

/-! ### SELECT -/

theorem scanLoop_congr (clause : WhereClause) {column : Nat}
    (hkind : rd t'.columnValueKinds column = rd t.columnValueKinds column) (todo i : Nat)
    (found : List Nat) (h : ∀ j < i + todo, t'.rows[j]? = t.rows[j]?) :
    scanLoop t' clause column todo i found = scanLoop t clause column todo i found := by
  induction todo generalizing i found with
  | zero => rfl
  | succ todo ih =>
    have hcompare : ∀ cell, tableCompareFieldValue t' column cell clause =
        tableCompareFieldValue t column cell clause := by
      intro cell
      unfold tableCompareFieldValue
      rw [hkind]
    have hnext : ∀ found, scanLoop t' clause column todo (i + 1) found =
        scanLoop t clause column todo (i + 1) found := by
      intro found
      refine ih (i + 1) found ?_
      intro j hj
      exact h j (by omega)
    simp only [scanLoop, h i (by omega), hcompare, hnext]

theorem linearScan (h : Alike t t') (clause : Option WhereClause) :
    tableLinearScanByField t' clause = tableLinearScanByField t clause := by
  unfold tableLinearScanByField
  rw [h.loaded, h.rowCount]
  split
  · rfl
  · rename_i hcond
    have hload : t.loaded = true := by
      by_contra hnot
      refine hcond (.inl ?_)
      rw [Bool.not_eq_true] at hnot
      rw [hnot]
      rfl
    cases clause with
    | none => rfl
    | some clause =>
      have hcolumn : tableFindColumnIndex t' clause.column.text =
          tableFindColumnIndex t clause.column.text := by
        unfold tableFindColumnIndex
        rw [h.colCount hload]
        refine List.find?_congr ?_
        intro i hi
        rw [(h.column hload i (List.mem_range.mp hi)).1]
      simp only [hcolumn]
      cases hfind : tableFindColumnIndex t clause.column.text with
      | none => rfl
      | some column =>
        have hlt : column < t.colCount := List.mem_range.mp (List.mem_of_find?_eq_some hfind)
        refine scanLoop_congr clause (h.column hload column hlt).2 t.rowCount 0 [] ?_
        intro j hj
        exact h.row j (by omega)

end Alike

/-- Tables that are alike stay so, whatever is called. -/
theorem lockstep_alike : Machine.Lockstep tableRequest Alike := by
  intro t t' h request
  cases request with
  | insert stmt allocs =>
    have hrel := h.insertRow stmt allocs
    simp only [tableRequest]
    generalize tableInsertRow t stmt (granting t allocs) = p at hrel ⊢
    generalize tableInsertRow t' stmt (granting t' allocs) = q at hrel ⊢
    cases hrel with
    | none => exact .none
    | some hpq => exact .some ⟨congrArg TableAnswer.inserted hpq.1, hpq.2⟩
  | scan clause =>
    simp only [tableRequest, h.linearScan]
    cases tableLinearScanByField t clause with
    | none => exact .none
    | some result => exact .some ⟨rfl, h⟩

theorem Alike.unchanged {t t' : TableRuntime} (h : Alike t t') : Unchanged t t' := by
  refine ⟨h.loaded, h.rowCount, ?_, h.nextId, h.idIndex, fun requests =>
    (lockstep_alike.answers_eq h requests).symm⟩
  intro i
  unfold tableGetRowBySlot
  rw [h.rowCount]
  split
  · rfl
  · rw [h.row i.toNat (by omega)]

/-! ## Calls that fail before `bptree_insert` -/

theorem Roomy.buildNext {t : TableRuntime} (hr : Roomy t) (stmt : InsertStatement)
    (allocs : List Bool) : Alike t (tableBuildNext t stmt allocs).2 := by
  have halike := Alike.reserve hr allocs
  unfold tableBuildNext
  generalize tableReserveIfNeeded t allocs = call at halike ⊢
  obtain ⟨reserved, u, allocs⟩ := call
  cases reserved with
  | error e => exact halike
  | ok =>
    simp only
    obtain ⟨row, allocs⟩ := tableBuildRow stmt u.nextId allocs
    cases row with
    | none => exact halike
    | some row =>
      simp only
      split <;> exact halike

/-- What the call makes of the table up to `bptree_insert`: the table takes the name and goes through
the check of the schema, and what is done to it then cannot be seen. -/
theorem Roomy.prepareRow {t : TableRuntime} (hr : Roomy t) (stmt : InsertStatement)
    (allocs : List Bool) :
    if SameName (t.adopt stmt).tableName.text stmt.tableName.text then
      Alike (tableCheckSchema (t.adopt stmt) stmt).2 (tablePrepareRow t stmt allocs).2
    else tablePrepareRow t stmt allocs =
      (.error (message "Active runtime table does not match INSERT target."), t.adopt stmt) := by
  unfold tablePrepareRow
  by_cases hname : SameName (t.adopt stmt).tableName.text stmt.tableName.text
  · rw [if_pos hname, if_pos hname]
    have hroomy : Roomy (tableCheckSchema (t.adopt stmt) stmt).2 :=
      (tableCheckSchema_frame _ stmt).1.roomy ((sameRows_adopt t stmt).roomy hr)
    generalize tableCheckSchema (t.adopt stmt) stmt = call at hroomy ⊢
    obtain ⟨checked, u⟩ := call
    cases checked with
    | error e => exact Alike.refl hroomy
    | ok => exact hroomy.buildNext stmt allocs
  · rw [if_neg hname, if_neg hname]

theorem Roomy.insertRow {t t' : TableRuntime} (hr : Roomy t) {stmt : InsertStatement}
    {allocs : List Bool} {result : Sql Nat}
    (h : tableInsertRow t stmt allocs = some (result, t')) : Roomy t' := by
  have hprepare := hr.prepareRow stmt allocs
  have hroomy : Roomy (tablePrepareRow t stmt allocs).2 := by
    split at hprepare
    · exact hprepare.roomy'
    · rw [hprepare]
      exact (sameRows_adopt t stmt).roomy hr
  rw [tableInsertRow_prepare] at h
  generalize tablePrepareRow t stmt allocs = call at hroomy h
  obtain ⟨prepared, u⟩ := call
  cases prepared with
  | error e =>
    cases h
    exact hroomy
  | ok row =>
    replace h : tableStoreRow u row.1 row.2 = some (result, t') := h
    by_cases hroom : u.rowCount < u.rows.length
    · have hrel := (Alike.refl hroomy).storeRow hroom hroom row.1 row.2
      rw [h] at hrel
      cases hrel with
      | some hpq => exact hpq.2.roomy
    · unfold tableStoreRow at h
      rw [if_neg hroom] at h
      split at h
      · cases h
        exact hroomy
      · cases h

/-- Every table that calls of `table_insert_row` lead to has an array that fits its counters. -/
theorem roomy_reachable {name : Identifier} {t : TableRuntime}
    (h : Machine.Reachable (fun t (call : InsertStatement × List Bool) =>
      tableInsertRow t call.1 call.2) { tableInit with tableName := name } t) : Roomy t := by
  induction h with
  | start => exact (represents_named name).2.roomy
  | step _ hstep ih => exact ih.insertRow hstep

/-- A statement without columns is refused by every table that has its name or none, with a text that
says so. -/
theorem tableInsertRow_noColumns {t : TableRuntime} {stmt : InsertStatement}
    (hname : SameName (t.adopt stmt).tableName.text stmt.tableName.text)
    (hitems : stmt.items.1 = []) (allocs : List Bool) :
    ∃ e t', tableInsertRow t stmt allocs = some (.error e, t') ∧
      e ≠ message "Active runtime table does not match INSERT target." := by
  rw [tableInsertRow_eq, if_pos hname, tableInsertNamed_check]
  unfold tableCheckSchema
  cases (t.adopt stmt).loaded with
  | true =>
    rw [if_pos rfl, tableValidateInsertSchema, hitems, if_pos (.inl rfl)]
    exact ⟨_, _, rfl, fun h => absurd (congrArg CStr.text h) (by decide)⟩
  | false =>
    rw [if_neg Bool.false_ne_true, tableInitializeSchema, hitems, if_pos (.inl rfl)]
    exact ⟨_, _, rfl, fun h => absurd (congrArg CStr.text h) (by decide)⟩

/-- A table that has taken a name can be told from the table without one. -/
theorem not_unchanged_of_named {t t' : TableRuntime} (hname : t.tableName.text = [])
    (hname' : t'.tableName.text ≠ []) : ¬ Unchanged t t' := by
  intro hunchanged
  obtain ⟨other, hother⟩ : ∃ other : Identifier, ¬ SameName t'.tableName.text other.text := by
    by_cases hsame : SameName t'.tableName.text (lit MAX_IDENTIFIER_LEN "a").text
    · refine ⟨lit _ "b", fun h => ?_⟩
      exact absurd (hsame.symm.trans h) (by decide)
    · exact ⟨lit _ "a", hsame⟩
  let stmt : InsertStatement := ⟨other, ⟨[], Nat.zero_le _⟩⟩
  have hadopt : t.adopt stmt = { t with tableName := other } := if_pos hname
  have hadopt' : t'.adopt stmt = t' := if_neg hname'
  have hsame : SameName (t.adopt stmt).tableName.text stmt.tableName.text := by
    rw [hadopt]
    rfl
  obtain ⟨e, u, hrun, hne⟩ := tableInsertRow_noColumns hsame rfl (granting t [])
  have hrun' := tableInsertRow_eq t' stmt (granting t' [])
  rw [hadopt', if_neg hother] at hrun'
  have hlater := hunchanged.later [.insert stmt []]
  simp only [Machine.run, tableRequest, hrun, hrun', Option.map_some, Option.bind_eq_bind,
    Option.bind_some, Option.some.injEq, List.cons.injEq, TableAnswer.inserted.injEq,
    Except.error.injEq, and_true] at hlater
  exact hne hlater.symm

/-- A statement without a new name leaves the name. -/
theorem adopt_eq_self {t : TableRuntime} {stmt : InsertStatement}
    (h : t.tableName.text = [] → stmt.tableName.text = []) : t.adopt stmt = t := by
  unfold TableRuntime.adopt
  split
  · rename_i hnone
    have hempty : stmt.tableName = t.tableName := by
      apply CStr.ext
      rw [hnone, h hnone]
    rw [hempty]
  · rfl

/-- The table that a call leaves is the one at the point of failure. -/
theorem tablePrepareRow_failed {t t' : TableRuntime} {stmt : InsertStatement} {allocs : List Bool}
    {result : Sql Nat} (hcall : tableInsertRow t stmt allocs = some (result, t'))
    (hbefore : (tablePrepareRow t stmt allocs).1.isOk = false) :
    (tablePrepareRow t stmt allocs).2 = t' := by
  rw [tableInsertRow_prepare] at hcall
  generalize tablePrepareRow t stmt allocs = call at hcall hbefore
  obtain ⟨prepared, u⟩ := call
  cases prepared with
  | error e =>
    cases hcall
    rfl
  | ok row => cases hbefore

/-- A table is unchanged behind the check of the schema unless its schema was made there. -/
theorem Roomy.checkSchema_unchanged {t u : TableRuntime} (hr : Roomy t) {stmt : InsertStatement}
    (h : Alike (tableCheckSchema t stmt).2 u) :
    Unchanged t u ↔ t.loaded = true ∨ ¬ Fits none stmt.items.1 := by
  cases hload : t.loaded with
  | true =>
    have hcheck : (tableCheckSchema t stmt).2 = t := by
      unfold tableCheckSchema
      rw [if_pos hload]
    rw [hcheck] at h
    exact iff_of_true h.unchanged (.inl rfl)
  | false =>
    have hcheck : tableCheckSchema t stmt = tableInitializeSchema t stmt := by
      unfold tableCheckSchema
      rw [hload, if_neg Bool.false_ne_true]
    have hloads := (tableInitializeSchema_fits hload stmt).2
    rw [← hcheck] at hloads
    by_cases hfits : Fits none stmt.items.1
    · refine iff_of_false ?_ (not_or.mpr ⟨Bool.false_ne_true, not_not.mpr hfits⟩)
      intro hunchanged
      have hloaded := hunchanged.loaded
      rw [h.loaded, hloads.mpr hfits, hload] at hloaded
      cases hloaded
    · refine iff_of_true ?_ (.inr hfits)
      have hnot : (tableCheckSchema t stmt).2.loaded = false := by
        rw [← Bool.not_eq_true, hloads]
        exact hfits
      obtain ⟨hrows, hname⟩ := tableCheckSchema_frame t stmt
      have halike := Alike.of_sameRows hr hrows hname hload hnot
      exact (halike.trans h).unchanged

/-- A call that fails before `bptree_insert` leaves the table unchanged just when it does not give a
name to a table without one, and the table was loaded or is not loaded by the call. -/
theorem tableInsertRow_unchanged {name : Identifier} {t t' : TableRuntime} {stmt : InsertStatement}
    {allocs : List Bool} {result : Sql Nat}
    (hreach : Machine.Reachable (fun t (call : InsertStatement × List Bool) =>
      tableInsertRow t call.1 call.2) { tableInit with tableName := name } t)
    (hcall : tableInsertRow t stmt allocs = some (result, t'))
    (hbefore : (tablePrepareRow t stmt allocs).1.isOk = false) :
    Unchanged t t' ↔ (t.tableName.text = [] → stmt.tableName.text = []) ∧
      (t.loaded = true ∨
        ¬ (SameName t.tableName.text stmt.tableName.text ∧ Fits none stmt.items.1)) := by
  have hr := roomy_reachable hreach
  have hprepare := hr.prepareRow stmt allocs
  have hleft := tablePrepareRow_failed hcall hbefore
  rw [hleft] at hprepare
  by_cases htakes : t.tableName.text = [] ∧ stmt.tableName.text ≠ []
  · -- the table takes the name of the statement
    have hadopt : t.adopt stmt = { t with tableName := stmt.tableName } := if_pos htakes.1
    have hsame : SameName (t.adopt stmt).tableName.text stmt.tableName.text := by
      rw [hadopt]
      rfl
    rw [if_pos hsame] at hprepare
    refine iff_of_false ?_ fun h => htakes.2 (h.1 htakes.1)
    refine not_unchanged_of_named htakes.1 ?_
    rw [hprepare.tableName, (tableCheckSchema_frame _ stmt).2, hadopt]
    exact htakes.2
  · have hkeeps : t.tableName.text = [] → stmt.tableName.text = [] := by
      intro hnone
      by_contra hne
      exact htakes ⟨hnone, hne⟩
    rw [adopt_eq_self hkeeps] at hprepare
    rw [and_iff_right hkeeps]
    by_cases hsame : SameName t.tableName.text stmt.tableName.text
    · rw [if_pos hsame] at hprepare
      rw [and_iff_right hsame]
      exact hr.checkSchema_unchanged hprepare
    · rw [if_neg hsame] at hprepare
      rw [hprepare] at hleft
      cases hleft
      exact iff_of_true (Alike.refl hr).unchanged (.inr fun h => hsame h.1)

/-- `INSERT INTO t (id) VALUES (1);` leaves a table unchanged that was only given its name. -/
theorem tableInsertRow_unchanged_explicitId :
    ∃ result t', tableInsertRow { tableInit with tableName := lit _ "t" }
        ⟨lit _ "t", ⟨[⟨lit _ "id", lit _ "1", .int⟩], by decide⟩⟩ [] = some (result, t') ∧
      Unchanged { tableInit with tableName := lit _ "t" } t' := by
  obtain ⟨result, t', hcall⟩ : ∃ result t', tableInsertRow { tableInit with tableName := lit _ "t" }
      ⟨lit _ "t", ⟨[⟨lit _ "id", lit _ "1", .int⟩], by decide⟩⟩ [] = some (result, t') :=
    ⟨_, _, rfl⟩
  refine ⟨result, t', hcall, (tableInsertRow_unchanged .start hcall rfl).mpr ⟨?_, .inr ?_⟩⟩
  · intro hnone
    cases hnone
  · rintro ⟨-, -, hid⟩
    exact hid ⟨_, List.mem_singleton_self _, rfl⟩

/-- A first insert that fails for want of memory leaves the table with a name and a schema. -/
theorem tableInsertRow_unchanged_noMemory :
    ¬ ∀ (name : Identifier) (t t' : TableRuntime) (stmt : InsertStatement) (allocs : List Bool)
      (result : Sql Nat),
      Machine.Reachable (fun t (call : InsertStatement × List Bool) =>
        tableInsertRow t call.1 call.2) { tableInit with tableName := name } t →
      tableInsertRow t stmt allocs = some (result, t') →
      (tablePrepareRow t stmt allocs).1.isOk = false → Unchanged t t' := by
  intro h
  have hunchanged := h .empty tableInit _ insertOne [false] _ .start rfl rfl
  cases hunchanged.loaded

end JungleDb
