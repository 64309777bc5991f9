import JungleDb.Storage.Delete

/-!
# The files that `storage_insert` and `storage_delete` leave

Without failures of the system every file is absent, empty, or written row by row. A delete on a file
that can be loaded leaves exactly the rows that it keeps, but for the empty file that a rejected first
insert leaves: it gets a header with one column whose name is empty.
-/

namespace JungleDb

open CString Stdio

/-- The files of a table after some calls, which may have failed. -/
inductive TableFile (tableName : Bytes) : Option Bytes → Prop
  | absent : TableFile tableName none
  | inserted {file : Option Bytes} {stmt : InsertStatement} : TableFile tableName file →
      stmt.Strings → TableFile tableName (storageInsert .fine file tableName stmt).2
  | deleted {file : Option Bytes} {stmt : DeleteStatement} : TableFile tableName file →
      TableFile tableName (storageDelete .fine file tableName stmt).file

/-! ## Calls without failures -/

theorem DeleteIo.completes_fine {table : TableData} {stmt : DeleteStatement}
    (happlies : table.rows ≠ [] → stmt.Applies table.columns) :
    ∃ tempFp, DeleteIo.fine.Completes table stmt tempFp := by
  obtain ⟨tempFp, hput⟩ := Stream.putAll_nil ⟨[], []⟩
    (tableCalls table.columns (stmt.kept table.columns table.rows))
  exact ⟨tempFp, rfl, rfl, rfl, happlies, ⟨[], hput⟩, rfl⟩

/-- On a table that can be loaded a call writes the table without the rows it deletes, or fails. -/
theorem storageDelete_fine {file : Option Bytes} {tableName : Bytes} (stmt : DeleteStatement)
    {table : TableData} (hload : storageLoadTable file tableName = .ok table) :
    (storageDelete .fine file tableName stmt =
      ⟨.ok (), table.rows.countP (stmt.removes table.columns),
        some (tableText table.columns (stmt.kept table.columns table.rows))⟩) ∨
    (table.rows ≠ [] ∧ ∃ e deletedCount,
      storageDelete .fine file tableName stmt = ⟨.error e, deletedCount, file⟩) := by
  rcases storageDelete_cases .fine stmt hload with ⟨tempFp, hcompletes, hrun⟩ | ⟨hnot, hrun⟩
  · left
    have hwritten : (tempFp.flush (.done 0)).close (.done 0) = tempFp.content :=
      Stream.close_flush_eq_content.mpr (Nat.le_refl _)
    rw [hrun, ← hcompletes.content, ← hwritten]
    rfl
  · refine .inr ⟨fun hrows => ?_, hrun⟩
    have happlies : table.rows ≠ [] → stmt.Applies table.columns := fun hne => absurd hrows hne
    obtain ⟨tempFp, hcompletes⟩ := DeleteIo.completes_fine happlies
    exact hnot tempFp hcompletes

/-- The rows of a file that is absent, empty, or a table that was written row by row. -/
def FileRows (file : Option Bytes) (rows : List Row) : Prop :=
  (file.getD [] = [] ∧ rows = []) ∨ ∃ T : CsvTable, file = some T.encode ∧ T.rows = rows

/-- A file has the rows of one table at most. -/
theorem FileRows.unique {file : Option Bytes} {rows rows' : List Row} (h : FileRows file rows)
    (h' : FileRows file rows') : rows = rows' := by
  rcases h with ⟨hempty, rfl⟩ | ⟨T, rfl, rfl⟩
  · rcases h' with ⟨-, rfl⟩ | ⟨T', rfl, -⟩
    · rfl
    · exact absurd hempty T'.encode_ne_nil
  · rcases h' with ⟨hempty, -⟩ | ⟨T', hsame, rfl⟩
    · exact absurd hempty T.encode_ne_nil
    · exact (CsvTable.encode_inj (Option.some.inj hsame)).2

/-- An accepted statement adds its row to them. -/
theorem FileRows.insert {file : Option Bytes} {rows : List Row} (h : FileRows file rows)
    {tableName : Bytes} {stmt : InsertStatement} {plan : InsertPlan} (hstrings : stmt.Strings)
    (hplan : storagePlanInsert tableName (file.getD []) stmt = .ok plan) :
    FileRows (some (file.getD [] ++ plan.text)) (rows ++ [plan.row]) := by
  right
  rcases h with ⟨hempty, rfl⟩ | ⟨T, rfl, rfl⟩
  · rw [hempty] at hplan ⊢
    obtain ⟨hfits, htext, hrow, -⟩ := storagePlanInsert_new hplan hstrings
    refine ⟨stmt.newTable hfits hstrings, congrArg some htext, ?_⟩
    rw [hrow]
    rfl
  · obtain ⟨harity, hcells, htext⟩ := CsvTable.encode_planned hplan hstrings
    exact ⟨T.append plan.row harity hcells, congrArg some htext, rfl⟩

/-! ## Every file -/

/-- The table with some of its rows. -/
def CsvTable.withRows (T : CsvTable) (rows : List Row) (h : rows ⊆ T.rows) : CsvTable where
  columns := T.columns
  rows := rows
  named := T.named
  fits := T.fits
  arity := fun row hrow => T.arity row (h hrow)
  columnStrings := T.columnStrings
  cellStrings := fun row hrow => T.cellStrings row (h hrow)

/-- What an empty file is taken for: one column without a name. -/
def CsvTable.nameless : CsvTable where
  columns := [lit _ ""]
  rows := []
  named := List.cons_ne_nil _ _
  fits := by decide
  arity := nofun
  columnStrings := by decide
  cellStrings := nofun

/-- An empty file is loaded as a table without columns. -/
theorem storageLoadTableFromFp_nil {tableName : Bytes} {includeOffsets : Bool} {table : TableData}
    (h : storageLoadTableFromFp [] tableName includeOffsets = .ok table) :
    table = ⟨[], [], []⟩ := by
  cases includeOffsets with
  | true => exact (Except.ok.inj h).symm
  | false => exact (Except.ok.inj h).symm

/-- A table that was written row by row is loaded as its visible rows, or not at all. -/
theorem CsvTable.loaded {T : CsvTable} {tableName : Bytes} {includeOffsets : Bool}
    {table : TableData} (h : storageLoadTableFromFp T.encode tableName includeOffsets = .ok table) :
    T.Readable ∧ table.columns = T.columns ∧ table.rows = T.visible := by
  by_cases hreadable : T.Readable
  · obtain ⟨offsets, hload⟩ := T.load_readable hreadable tableName includeOffsets
    rw [hload] at h
    cases h
    exact ⟨hreadable, rfl, rfl⟩
  · obtain ⟨e, he⟩ := T.load_unreadable hreadable tableName includeOffsets
    rw [he] at h
    cases h

theorem CsvTable.kept_subset {T : CsvTable} (stmt : DeleteStatement) :
    stmt.kept T.columns T.visible ⊆ T.rows := by
  intro row hrow
  exact List.mem_of_mem_filter (List.mem_of_mem_filter hrow)

/-- A delete leaves the rows that it keeps, of those that are loaded. -/
theorem FileRows.delete {content : Bytes} {rows : List Row} (h : FileRows (some content) rows)
    {tableName : Bytes} {includeOffsets : Bool} {table : TableData} (stmt : DeleteStatement)
    (hload : storageLoadTableFromFp content tableName includeOffsets = .ok table) :
    FileRows (some (tableText table.columns (stmt.kept table.columns table.rows)))
        (stmt.kept table.columns table.rows) ∧
      table.rows = rows.filter fun row => decide (row ≠ [[]]) := by
  rcases h with ⟨hempty, rfl⟩ | ⟨T, hfile, rfl⟩
  · rw [Option.getD_some] at hempty
    rw [hempty] at hload
    rw [storageLoadTableFromFp_nil hload]
    exact ⟨.inr ⟨.nameless, rfl, rfl⟩, rfl⟩
  · cases hfile
    obtain ⟨-, hcolumns, hrows⟩ := CsvTable.loaded hload
    rw [hcolumns, hrows]
    exact ⟨.inr ⟨T.withRows _ (T.kept_subset stmt), rfl, rfl⟩, rfl⟩

/-- Every file is absent, empty, or a table that was written row by row. -/
theorem TableFile.rows {tableName : Bytes} {file : Option Bytes} (h : TableFile tableName file) :
    ∃ rows, FileRows file rows := by
  induction h with
  | absent => exact ⟨[], .inl ⟨rfl, rfl⟩⟩
  | @inserted file stmt hfile hstrings ih =>
    obtain ⟨rows, hrows⟩ := ih
    by_cases haccepted : (storageInsert .fine file tableName stmt).1 = .ok ()
    · obtain ⟨plan, hplan, hcall⟩ := storageInsert_accepted haccepted
      rw [hcall]
      exact ⟨_, hrows.insert hstrings hplan⟩
    · refine ⟨rows, ?_⟩
      rcases storageInsert_rejected haccepted with hsame | hsame
      · rw [hsame]
        exact hrows
      · rw [hsame]
        rcases hrows with hempty | ⟨T, rfl, hT⟩
        · exact .inl hempty
        · exact .inr ⟨T, rfl, hT⟩
  | @deleted file stmt hfile ih =>
    obtain ⟨rows, hrows⟩ := ih
    cases hload : storageLoadTable file tableName with
    | error e =>
      have hunloadable : ∀ table, storageLoadTable file tableName ≠ .ok table := by
        intro table hok
        rw [hload] at hok
        cases hok
      rw [storageDelete_unloadable hunloadable]
      exact ⟨rows, hrows⟩
    | ok table =>
      obtain ⟨path, content, -, rfl, hread⟩ := storageLoadTable_eq_ok.mp hload
      rcases storageDelete_fine stmt hload with hrun | ⟨-, e, count, hrun⟩
      · rw [hrun]
        exact ⟨_, (hrows.delete stmt hread).1⟩
      · rw [hrun]
        exact ⟨rows, hrows⟩

/-! ## What a delete leaves -/

theorem CsvTable.visible_withRows {T : CsvTable} (stmt : DeleteStatement) :
    (T.withRows _ (T.kept_subset stmt)).visible = stmt.kept T.columns T.visible := by
  unfold visible withRows
  refine List.filter_eq_self.mpr fun row hrow => ?_
  exact (List.mem_filter.mp (List.mem_of_mem_filter hrow)).2

/-- The kept rows are read back. -/
theorem CsvTable.load_kept {T : CsvTable} (h : T.Readable) (stmt : DeleteStatement)
    (tableName : Bytes) : ∃ offsets,
      storageLoadTableFromFp (T.withRows _ (T.kept_subset stmt)).encode tableName true =
        .ok ⟨T.columns, stmt.kept T.columns T.visible, offsets⟩ := by
  have hkept : (T.withRows _ (T.kept_subset stmt)).Readable :=
    ⟨h.1, fun row hrow => h.2 row (T.kept_subset stmt hrow)⟩
  obtain ⟨offsets, hload⟩ := CsvTable.load_readable _ hkept tableName true
  rw [CsvTable.visible_withRows] at hload
  exact ⟨offsets, hload⟩

/-- A delete on a file that the calls left and that can be loaded, if it succeeds, leaves the columns
and exactly the rows that it does not delete, in order, and counts the others; if it fails, it leaves
the file. This holds just if the file is not empty. -/
theorem storageDelete_keeps {tableName : Bytes} {file : Option Bytes} {table : TableData}
    (hfile : TableFile tableName file) (hload : storageLoadTable file tableName = .ok table)
    (stmt : DeleteStatement) :
    (((storageDelete .fine file tableName stmt).result = .ok () →
        (∃ offsets, storageLoadTable (storageDelete .fine file tableName stmt).file tableName =
          .ok ⟨table.columns, stmt.kept table.columns table.rows, offsets⟩) ∧
        (storageDelete .fine file tableName stmt).deletedCount =
          table.rows.countP (stmt.removes table.columns)) ∧
      ((storageDelete .fine file tableName stmt).result ≠ .ok () →
        (storageDelete .fine file tableName stmt).file = file)) ↔
    file ≠ some [] := by
  obtain ⟨path, content, hpath, rfl, hread⟩ := storageLoadTable_eq_ok.mp hload
  obtain ⟨rows, ⟨hempty, -⟩ | ⟨T, hcontent, -⟩⟩ := hfile.rows
  · -- the header of no columns is read back as one column without a name
    rw [Option.getD_some] at hempty
    subst hempty
    obtain rfl := storageLoadTableFromFp_nil hread
    refine iff_of_false (fun hkept => ?_) fun hne => hne rfl
    rcases storageDelete_fine stmt hload with hrun | ⟨hrows, -⟩
    · rw [hrun] at hkept
      obtain ⟨⟨offsets, hreload⟩, -⟩ := hkept.1 rfl
      obtain ⟨path', content, -, hcontent, hreread⟩ := storageLoadTable_eq_ok.mp hreload
      cases hcontent
      have hnameless := (CsvTable.loaded (T := .nameless) hreread).2.1
      cases hnameless
    · exact hrows rfl
  · cases hcontent
    have hne : some T.encode ≠ some [] := fun hnil => T.encode_ne_nil (Option.some.inj hnil)
    refine iff_of_true ?_ hne
    obtain ⟨hreadable, hcolumns, hrows⟩ := CsvTable.loaded hread
    rcases storageDelete_fine stmt hload with hrun | ⟨-, e, count, hrun⟩
    · rw [hrun]
      refine ⟨fun _ => ⟨?_, rfl⟩, fun hfail => absurd rfl hfail⟩
      obtain ⟨offsets, hreload⟩ := T.load_kept hreadable stmt tableName
      refine ⟨offsets, storageLoadTable_eq_ok.mpr ⟨path, _, hpath, rfl, ?_⟩⟩
      rw [hcolumns, hrows]
      exact hreload
    · rw [hrun]
      exact ⟨nofun, fun _ => rfl⟩

/-- `INSERT INTO users (id, name) VALUES ('...', 'Kim')` -/
def insertId (id : String) : InsertStatement :=
  ⟨lit _ "users", ⟨[⟨lit _ "id", lit _ id, .string⟩, ⟨lit _ "name", lit _ "Kim", .string⟩],
    Nat.le_add_left 2 30⟩⟩

theorem storageDelete_keeps_users :
    ∃ table, storageLoadTable (some usersFile) (bytes "users") = .ok table ∧
      ∃ offsets, storageLoadTable
          (storageDelete .fine (some usersFile) (bytes "users") (deleteId "1")).file (bytes "users") =
        .ok ⟨table.columns, [], offsets⟩ := by
  have hinsert : (storageInsert .fine none (bytes "users") (insertId "1")).2 = some usersFile := by
    decide +kernel
  have hstrings : (insertId "1").Strings := ⟨by decide, by decide⟩
  have hfile : TableFile (bytes "users") (some usersFile) := by
    rw [← hinsert]
    exact .inserted .absent hstrings
  have hkeeps := (storageDelete_keeps hfile usersFile_loads (deleteId "1")).mpr (by decide)
  exact ⟨_, usersFile_loads, (hkeeps.1 (by decide +kernel)).1⟩

/-- The first insert has an empty key and is rejected; the delete gives the empty file a column. -/
theorem storageDelete_keeps_empty :
    ¬ ∀ tableName file table, TableFile tableName file →
      storageLoadTable file tableName = .ok table → ∀ stmt,
      ((storageDelete .fine file tableName stmt).result = .ok () →
        (∃ offsets, storageLoadTable (storageDelete .fine file tableName stmt).file tableName =
          .ok ⟨table.columns, stmt.kept table.columns table.rows, offsets⟩) ∧
        (storageDelete .fine file tableName stmt).deletedCount =
          table.rows.countP (stmt.removes table.columns)) ∧
      ((storageDelete .fine file tableName stmt).result ≠ .ok () →
        (storageDelete .fine file tableName stmt).file = file) := by
  intro hgeneral
  have hinsert : (storageInsert .fine none (bytes "users") (insertId "")).2 = some [] := by
    decide +kernel
  have hstrings : (insertId "").Strings := ⟨by decide, by decide⟩
  have hfile : TableFile (bytes "users") (some []) := by
    rw [← hinsert]
    exact .inserted .absent hstrings
  have hload : storageLoadTable (some []) (bytes "users") = .ok ⟨[], [], []⟩ := by
    decide +kernel
  obtain ⟨⟨offsets, hreload⟩, -⟩ := (hgeneral _ _ _ hfile hload (deleteId "1")).1 (by decide +kernel)
  have hnameless : storageLoadTable (storageDelete .fine (some []) (bytes "users") (deleteId "1")).file
      (bytes "users") = .ok ⟨[lit _ ""], [], []⟩ := by
    decide +kernel
  rw [hnameless] at hreload
  cases hreload

end JungleDb
