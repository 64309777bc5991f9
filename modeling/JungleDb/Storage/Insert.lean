import JungleDb.Sql.Grammar
import JungleDb.Storage.Table

/-!
# `storage_insert`

The call opens the table file for appending, which creates it where it is missing, reads the header,
puts the values in the order of the columns and appends a row, with a header before it in a new file.
The outcomes of the calls of the operating system are an argument; without failures the table grows by
one row, which is read back if it fits its line.
-/

namespace JungleDb

open CString Stdio

/-! ## The id of a row -/

def idText : Bytes := bytes "id"

/-- The search of `storage_validate_primary_key`. -/
def findKey (tableName : Bytes) (colCount idIndex : Nat) (key : Bytes) : List Bytes → Storage Unit
  | [] => .ok ()
  | chunk :: lines =>
    match storageReadRow tableName colCount chunk with
    | .error e => .error e
    | .ok none => findKey tableName colCount idIndex key lines
    | .ok (some row) =>
      if cellAt row idIndex = key then
        .error (bytes "Error: Duplicate primary key value '" ++ key ++ bytes "' for column 'id'.\n")
      else findKey tableName colCount idIndex key lines

/-- `storage_validate_primary_key`. -/
def storageValidatePrimaryKey (tableName : Bytes) (columns : List Identifier) (ordered : Row)
    (lines : List Bytes) : Storage Unit :=
  match storageFindColumnIndex columns idText with
  | none => .ok ()
  | some idIndex =>
    if cellAt ordered idIndex = [] then
      .error (bytes "Error: Primary key column 'id' cannot be empty.\n")
    else findKey tableName columns.length idIndex (cellAt ordered idIndex) lines

/-- `if (current_id >= next_id) { next_id = current_id + 1; }`, in `long long`. -/
def advanceId (nextId : Int) (text : Bytes) : Int :=
  if nextId ≤ utilsParseInteger text then Int.bmod (utilsParseInteger text + 1) (2 ^ 64) else nextId

/-- The loop of `storage_get_next_auto_id`. -/
def nextAutoId (tableName : Bytes) (colCount idIndex : Nat) : Int → List Bytes → Storage Int
  | nextId, [] => .ok nextId
  | nextId, chunk :: lines =>
    match storageReadRow tableName colCount chunk with
    | .error e => .error e
    | .ok none => nextAutoId tableName colCount idIndex nextId lines
    | .ok (some row) =>
      if !utilsIsInteger (cellAt row idIndex) then
        .error (bytes "Error: Auto-increment requires integer values in column 'id'.\n")
      else nextAutoId tableName colCount idIndex (advanceId nextId (cellAt row idIndex)) lines

/-- `storage_get_next_auto_id`. -/
def storageGetNextAutoId (tableName : Bytes) (columns : List Identifier) (lines : List Bytes) :
    Storage Bytes :=
  match storageFindColumnIndex columns idText with
  | none => .error (bytes "Error: Auto-increment requires an 'id' column.\n")
  | some idIndex => (nextAutoId tableName columns.length idIndex 1 lines).map lld

/-! ## The rows to write -/

/-- A header, in a new file, and a row. -/
structure InsertPlan where
  header : Option Row
  row : Row
  deriving DecidableEq

/-- `if (existing_count == 0) { ... }`: `final_columns` and `ordered_values`. -/
def storageNewTable (stmt : InsertStatement) : Storage (List Identifier × Row) :=
  match storageFindColumnIndex stmt.names idText with
  | none =>
    if MAX_COLUMNS < stmt.names.length + 1 then
      .error (bytes "Error: Too many columns for auto-increment id.\n")
    else (storageCopyColumns (idText :: stmt.names.map CStr.text)).map fun columns =>
      (columns, bytes "1" :: values stmt.items.1)
  | some _ => (storageCopyColumns (stmt.names.map CStr.text)).map fun columns =>
      (columns, values stmt.items.1)

/-- The id of the row is the automatic one. -/
def isAutoId (columns : List Identifier) (stmt : InsertStatement) : Bool :=
  (storageFindColumnIndex columns idText).isSome && (storageFindColumnIndex stmt.names idText).isNone

/-- The first loop over the existing columns: each of them is in the statement. -/
def matchColumns (columns : List Identifier) (stmt : InsertStatement) :
    Nat → List Identifier → Storage Unit
  | _, [] => .ok ()
  | i, column :: rest =>
    if some i = storageFindColumnIndex columns idText ∧
        storageFindColumnIndex stmt.names idText = none then matchColumns columns stmt (i + 1) rest
    else match storageFindColumnIndex stmt.names column.text with
      | none => .error (bytes "Error: Column '" ++ column.text ++
          bytes "' doesn't exist in table schema.\n")
      | some _ => matchColumns columns stmt (i + 1) rest

/-- The second loop: `ordered_values`. The first one has found every name. -/
def orderValues (columns : List Identifier) (stmt : InsertStatement) (autoId : Bytes) : Row :=
  columns.mapIdx fun i column =>
    if some i = storageFindColumnIndex columns idText ∧
        storageFindColumnIndex stmt.names idText = none then autoId
    else match storageFindColumnIndex stmt.names column.text with
      | none => []
      | some match_index => cellAt (values stmt.items.1) match_index

/-- The check of the number of columns. -/
def columnCountDiffers (columns : List Identifier) (stmt : InsertStatement) : Prop :=
  let existingId := storageFindColumnIndex columns idText
  let stmtId := storageFindColumnIndex stmt.names idText
  (existingId = none ∧ columns.length ≠ stmt.names.length) ∨
    (existingId ≠ none ∧ stmtId ≠ none ∧ columns.length ≠ stmt.names.length) ∨
    (existingId ≠ none ∧ stmtId = none ∧ columns.length ≠ stmt.names.length + 1)

instance (columns : List Identifier) (stmt : InsertStatement) :
    Decidable (columnCountDiffers columns stmt) := inferInstanceAs (Decidable (_ ∨ _ ∨ _))

/-- `else { ... }`: `ordered_values`. -/
def storageOrderRow (tableName : Bytes) (columns : List Identifier) (stmt : InsertStatement)
    (lines : List Bytes) : Storage Row :=
  if columnCountDiffers columns stmt then
    .error (bytes "Error: Column count doesn't match table schema.\n")
  else match matchColumns columns stmt 0 columns with
    | .error e => .error e
    | .ok () =>
      if isAutoId columns stmt then
        (storageGetNextAutoId tableName columns lines).map (orderValues columns stmt)
      else
        (storageValidatePrimaryKey tableName columns (orderValues columns stmt []) lines).map
          fun _ => orderValues columns stmt []

/-- `storage_insert` from the header to the output. -/
def storagePlanInsert (tableName content : Bytes) (stmt : InsertStatement) : Storage InsertPlan :=
  match storageReadHeader (fgetsLines MAX_CSV_LINE_LENGTH content) with
  | .error e => .error e
  | .ok ([], lines) =>
    match storageNewTable stmt with
    | .error e => .error e
    | .ok (columns, ordered) =>
      (storageValidatePrimaryKey tableName columns ordered lines).map fun _ =>
        ⟨some (columns.map CStr.text), ordered⟩
  | .ok (column :: columns, lines) =>
    (storageOrderRow tableName (column :: columns) stmt lines).map fun ordered => ⟨none, ordered⟩

/-! ## The call -/

/-- How the calls of the operating system go that `storage_insert` makes. -/
structure InsertIo where
  dataDir : Storage Unit
  opens : Bool
  locks : Bool
  seeks : Bool
  tells : Bool
  puts : List Stdio.Outcome
  flushed : Stdio.Outcome
  closed : Stdio.Outcome

/-- All of them succeed. -/
def InsertIo.fine : InsertIo := ⟨.ok (), true, true, true, true, [], .done 0, .done 0⟩

/-- The output calls for a plan. -/
def InsertPlan.calls (plan : InsertPlan) : List Bytes :=
  match plan.header with
  | none => storageWriteCsvRow plan.row
  | some header => storageWriteCsvRow header ++ storageWriteCsvRow plan.row

/-- `storage_insert`, on the file at the path of the table. -/
def storageInsert (io : InsertIo) (file : Option Bytes) (tableName : Bytes)
    (stmt : InsertStatement) : Storage Unit × Option Bytes :=
  match io.dataDir with
  | .error e => (.error e, file)
  | .ok () =>
    match storageBuildPath tableName with
    | none => (.error (bytes "Error: Table path is too long.\n"), file)
    | some _ =>
      if !io.opens then
        (.error (bytes "Error: Failed to open table '" ++ tableName ++ bytes "'.\n"), file)
      else
        -- the mode is "a+": the file is there from now on
        let content := file.getD []
        if !io.locks then (.error (bytes "Error: Failed to lock table file.\n"), some content)
        else match storagePlanInsert tableName content stmt with
          | .error e => (.error e, some content)
          | .ok plan =>
            if plan.header = none ∧ !(io.seeks && io.tells) then
              (.error (bytes "Error: Failed to append to table '" ++ tableName ++ bytes "'.\n"),
                some content)
            else match Stream.putAll ⟨content, []⟩ plan.calls io.puts with
              | (true, fp, _) => (.ok (), some ((fp.flush io.flushed).close io.closed))
              | (false, fp, _) =>
                (.error (bytes "Error: Failed to write table '" ++ tableName ++ bytes "'.\n"),
                  some (fp.close io.closed))

/-- The text that a plan appends. -/
def InsertPlan.text (plan : InsertPlan) : Bytes :=
  match plan.header with
  | none => csvRow plan.row
  | some header => csvRow header ++ csvRow plan.row

theorem InsertPlan.flatten_calls (plan : InsertPlan) : plan.calls.flatten = plan.text := by
  unfold InsertPlan.calls InsertPlan.text
  split
  · rfl
  · rw [List.flatten_append]
    rfl

/-- Without failures the call appends what it plans, or fails before. -/
theorem storageInsert_fine {tableName path : Bytes} (hpath : storageBuildPath tableName = some path)
    (file : Option Bytes) (stmt : InsertStatement) :
    storageInsert .fine file tableName stmt =
      match storagePlanInsert tableName (file.getD []) stmt with
      | .error e => (.error e, some (file.getD []))
      | .ok plan => (.ok (), some (file.getD [] ++ plan.text)) := by
  unfold storageInsert InsertIo.fine
  simp only [hpath]
  cases storagePlanInsert tableName (file.getD []) stmt with
  | error e => rfl
  | ok plan =>
    obtain ⟨fp, hput⟩ := Stream.putAll_nil ⟨file.getD [], []⟩ plan.calls
    have hcontent := Stream.content_putAll hput
    rw [InsertPlan.flatten_calls] at hcontent
    simp only [hput]
    rw [if_neg (by simp)]
    have hclosed : (fp.flush (.done 0)).close (.done 0) = fp.content := List.append_nil _
    rw [hclosed, hcontent]
    simp [Stream.content]

/-- What an accepted call did. -/
theorem storageInsert_accepted {file : Option Bytes} {tableName : Bytes} {stmt : InsertStatement}
    (h : (storageInsert .fine file tableName stmt).1 = .ok ()) :
    ∃ plan, storagePlanInsert tableName (file.getD []) stmt = .ok plan ∧
      storageInsert .fine file tableName stmt = (.ok (), some (file.getD [] ++ plan.text)) := by
  cases hpath : storageBuildPath tableName with
  | none =>
    unfold storageInsert InsertIo.fine at h
    simp only [hpath] at h
    cases h
  | some path =>
    rw [storageInsert_fine hpath] at h ⊢
    generalize storagePlanInsert tableName (file.getD []) stmt = planned at h ⊢
    cases planned with
    | error e => cases h
    | ok plan => exact ⟨plan, rfl, rfl⟩

/-- A call that fails leaves the file, or makes an empty one. -/
theorem storageInsert_rejected {file : Option Bytes} {tableName : Bytes} {stmt : InsertStatement}
    (h : (storageInsert .fine file tableName stmt).1 ≠ .ok ()) :
    (storageInsert .fine file tableName stmt).2 = file ∨
      (storageInsert .fine file tableName stmt).2 = some (file.getD []) := by
  cases hpath : storageBuildPath tableName with
  | none =>
    left
    unfold storageInsert InsertIo.fine
    simp only [hpath]
  | some path =>
    right
    rw [storageInsert_fine hpath] at h ⊢
    generalize storagePlanInsert tableName (file.getD []) stmt = planned at h ⊢
    cases planned with
    | error e => rfl
    | ok plan => exact absurd rfl h

/-! ## What is written -/

/-- `id`, in any case. -/
def IsId (column : Identifier) : Prop := SameName column.text idText

instance (column : Identifier) : Decidable (IsId column) := inferInstanceAs (Decidable (_ = _))

/-- The statement names the column `id`. -/
def InsertStatement.HasId (stmt : InsertStatement) : Prop := ∃ name ∈ stmt.names, IsId name

instance (stmt : InsertStatement) : Decidable stmt.HasId := inferInstanceAs (Decidable (∃ _ ∈ _, _))

/-- Its value for a column: the first under that name, in any case. -/
def InsertStatement.valueOf (stmt : InsertStatement) (column : Identifier) : Bytes :=
  ((stmt.items.1.find? fun item => decide (SameName item.column.text column.text)).map
    fun item => item.value.text).getD []

/-- Its cell for a column of the table. -/
def InsertStatement.cellFor (stmt : InsertStatement) (autoId : Bytes) (column : Identifier) : Bytes :=
  if IsId column ∧ ¬ stmt.HasId then autoId else stmt.valueOf column

theorem storageFindColumnIndex_isSome {columns : List Identifier} {target : Bytes} :
    (storageFindColumnIndex columns target).isSome = true ↔
      ∃ column ∈ columns, SameName column.text target := by
  unfold storageFindColumnIndex
  simp only [List.findIdx?_isSome, List.any_eq_true, utilsEqualsIgnoreCase_iff]
  rfl

theorem storageFindColumnIndex_eq_none {columns : List Identifier} {target : Bytes} :
    storageFindColumnIndex columns target = none ↔
      ¬ ∃ column ∈ columns, SameName column.text target := by
  rw [← storageFindColumnIndex_isSome, Option.not_isSome_iff_eq_none]

theorem names_find_eq_none {stmt : InsertStatement} :
    storageFindColumnIndex stmt.names idText = none ↔ ¬ stmt.HasId :=
  storageFindColumnIndex_eq_none

/-- The value under an index that the search found. -/
theorem cellAt_values (items : List InsertItem) (target : Bytes) {i : Nat}
    (h : storageFindColumnIndex (items.map InsertItem.column) target = some i) :
    cellAt (values items) i =
      ((items.find? fun item => decide (SameName item.column.text target)).map
        fun item => item.value.text).getD [] := by
  induction items generalizing i with
  | nil => cases h
  | cons item items ih =>
    unfold storageFindColumnIndex at h ih
    rw [List.map_cons, List.findIdx?_cons] at h
    rw [List.find?_cons]
    by_cases hitem : SameName item.column.text target
    · rw [if_pos (utilsEqualsIgnoreCase_iff.mpr hitem)] at h
      obtain rfl := Option.some.inj h
      simp only [decide_eq_true hitem]
      rfl
    · rw [if_neg fun hequal => hitem (utilsEqualsIgnoreCase_iff.mp hequal),
        Option.map_eq_some_iff] at h
      obtain ⟨j, hj, rfl⟩ := h
      simp only [decide_eq_false hitem]
      exact ih hj

theorem matchColumns_ok {columns : List Identifier} {stmt : InsertStatement} {i : Nat}
    {rest : List Identifier} (h : matchColumns columns stmt i rest = .ok ()) {k : Nat}
    {column : Identifier} (hk : rest[k]? = some column) :
    (some (i + k) = storageFindColumnIndex columns idText ∧
      storageFindColumnIndex stmt.names idText = none) ∨
      (storageFindColumnIndex stmt.names column.text).isSome = true := by
  induction rest generalizing i k with
  | nil => cases hk
  | cons first rest ih =>
    have hrest : matchColumns columns stmt (i + 1) rest = .ok () ∧
        ((some i = storageFindColumnIndex columns idText ∧
          storageFindColumnIndex stmt.names idText = none) ∨
          (storageFindColumnIndex stmt.names first.text).isSome = true) := by
      rw [matchColumns] at h
      split at h
      · rename_i hid
        exact ⟨h, .inl hid⟩
      · split at h
        · cases h
        · rename_i hfound
          exact ⟨h, .inr (hfound ▸ rfl)⟩
    cases k with
    | zero =>
      obtain rfl := Option.some.inj hk
      exact hrest.2
    | succ k =>
      have hmore := ih hrest.1 hk
      rw [Nat.add_assoc, Nat.add_comm 1 k] at hmore
      exact hmore

theorem isId_of_find {columns : List Identifier} {i : Nat} {column : Identifier}
    (h : storageFindColumnIndex columns idText = some i) (hi : columns[i]? = some column) :
    IsId column := by
  obtain ⟨hlt, hid, -⟩ := List.findIdx?_eq_some_iff_getElem.mp h
  rw [List.getElem?_eq_getElem hlt] at hi
  obtain rfl := Option.some.inj hi
  exact utilsEqualsIgnoreCase_iff.mp hid

/-- The second loop takes the cell for each column. -/
theorem orderValues_eq {columns : List Identifier} {stmt : InsertStatement}
    (h : matchColumns columns stmt 0 columns = .ok ()) (autoId : Bytes) :
    orderValues columns stmt autoId = columns.map (stmt.cellFor autoId) := by
  unfold orderValues
  apply List.ext_getElem?
  intro i
  rw [List.getElem?_mapIdx, List.getElem?_map]
  cases hi : columns[i]? with
  | none => rfl
  | some column =>
    have hmatch := matchColumns_ok h hi
    rw [Nat.zero_add] at hmatch
    rw [Option.map_some, Option.map_some, Option.some.injEq, InsertStatement.cellFor]
    by_cases hid : some i = storageFindColumnIndex columns idText ∧
        storageFindColumnIndex stmt.names idText = none
    · rw [if_pos hid, if_pos ⟨isId_of_find hid.1.symm hi, names_find_eq_none.mp hid.2⟩]
    · have hsome := hmatch.resolve_left hid
      have hcell : ¬ (IsId column ∧ ¬ stmt.HasId) := by
        rintro ⟨hcolumn, hnone⟩
        obtain ⟨name, hname, hsame⟩ := storageFindColumnIndex_isSome.mp hsome
        exact hnone ⟨name, hname, Eq.trans hsame hcolumn⟩
      rw [if_neg hid, if_neg hcell]
      obtain ⟨m, hm⟩ := Option.isSome_iff_exists.mp hsome
      rw [hm]
      exact cellAt_values stmt.items.1 column.text hm

/-! ## A new table -/

/-- The columns of the table that the statement creates. -/
def InsertStatement.newColumns (stmt : InsertStatement) : List Identifier :=
  if stmt.HasId then stmt.names else idName :: stmt.names

/-- Its first row. -/
def InsertStatement.firstRow (stmt : InsertStatement) : Row :=
  if stmt.HasId then values stmt.items.1 else bytes "1" :: values stmt.items.1

theorem InsertStatement.length_names (stmt : InsertStatement) :
    stmt.names.length = stmt.items.1.length := List.length_map _

theorem InsertStatement.length_firstRow (stmt : InsertStatement) :
    stmt.firstRow.length = stmt.newColumns.length := by
  unfold firstRow newColumns
  split
  · rw [length_values, length_names]
  · rw [List.length_cons, List.length_cons, length_values, length_names]

theorem InsertStatement.exists_isId_newColumns (stmt : InsertStatement) :
    ∃ column ∈ stmt.newColumns, IsId column := by
  unfold newColumns
  split
  · assumption
  · exact ⟨idName, List.mem_cons_self, by decide⟩

theorem storageNewTable_ok {stmt : InsertStatement} {columns : List Identifier} {ordered : Row}
    (h : storageNewTable stmt = .ok (columns, ordered)) :
    columns = stmt.newColumns ∧ ordered = stmt.firstRow ∧ columns.length ≤ MAX_COLUMNS := by
  unfold storageNewTable at h
  split at h
  · rename_i hnone
    have hid := names_find_eq_none.mp hnone
    split at h
    · cases h
    · rename_i hfits
      have hcopy := storageCopyColumns_text (idName :: stmt.names)
      have htext : idName.text = idText := by decide
      rw [List.map_cons, htext] at hcopy
      rw [hcopy] at h
      cases h
      refine ⟨(if_neg hid).symm, (if_neg hid).symm, ?_⟩
      exact Nat.not_lt.mp hfits
  · rename_i i hsome
    have hid : stmt.HasId := by
      by_contra hnot
      rw [names_find_eq_none.mpr hnot] at hsome
      cases hsome
    rw [storageCopyColumns_text] at h
    cases h
    refine ⟨(if_pos hid).symm, (if_pos hid).symm, ?_⟩
    rw [InsertStatement.length_names]
    exact stmt.items.2

/-! ## The key of a row -/

/-- The row has a value in the column `id`. -/
def HasKey (columns : List Identifier) (row : Row) : Prop :=
  ∃ i, storageFindColumnIndex columns idText = some i ∧ cellAt row i ≠ []

/-- A row with a key is not written as a blank line. -/
theorem HasKey.ne_blank {columns : List Identifier} {row : Row} (h : HasKey columns row) :
    row ≠ [[]] := by
  rintro rfl
  obtain ⟨i, -, hcell⟩ := h
  refine hcell ?_
  cases i <;> rfl

theorem storageValidatePrimaryKey_ok {tableName : Bytes} {columns : List Identifier} {ordered : Row}
    {lines : List Bytes} (h : storageValidatePrimaryKey tableName columns ordered lines = .ok ())
    (hid : ∃ column ∈ columns, IsId column) : HasKey columns ordered := by
  obtain ⟨i, hi⟩ := Option.isSome_iff_exists.mp (storageFindColumnIndex_isSome.mpr hid)
  unfold storageValidatePrimaryKey at h
  rw [hi] at h
  refine ⟨i, hi, fun hempty => ?_⟩
  simp only [hempty] at h
  cases h

theorem lld_ne_nil (n : Int) : lld n ≠ [] := by
  unfold lld
  split
  · exact List.cons_ne_nil _ _
  · exact decimal_ne_nil _

theorem zero_not_mem_lld (n : Int) : (0 : UInt8) ∉ lld n := by
  have hdecimal : ∀ m, (0 : UInt8) ∉ decimal m := by
    intro m hmem
    exact absurd (isdigit_of_mem_decimal m 0 hmem) (by decide)
  unfold lld
  split
  · rw [List.mem_cons, not_or]
    exact ⟨by decide, hdecimal _⟩
  · exact hdecimal _

/-- The largest id of the rows decides the next. -/
def nextIdOf (columns : List Identifier) (rows : List Row) : Int :=
  match storageFindColumnIndex columns idText with
  | none => 1
  | some idIndex => rows.foldl (fun nextId row => advanceId nextId (cellAt row idIndex)) 1

theorem nextAutoId_csvRows {tableName : Bytes} {colCount idIndex : Nat} {rows : List Row}
    {nextId result : Int} (harity : ∀ row ∈ rows, row.length = colCount) (hpos : 0 < colCount)
    (hstrings : ∀ row ∈ rows, ∀ cell ∈ row, (0 : UInt8) ∉ cell) (hfits : ∀ row ∈ rows, LineFits row)
    (hblank : ∀ row ∈ rows, row ≠ [[]])
    (h : nextAutoId tableName colCount idIndex nextId (rows.map csvRow) = .ok result) :
    result = rows.foldl (fun nextId row => advanceId nextId (cellAt row idIndex)) nextId := by
  induction rows generalizing nextId with
  | nil => exact (Except.ok.inj h).symm
  | cons row rows ih =>
    have hread := storageReadRow_csvRow (hfits row List.mem_cons_self)
      (harity row List.mem_cons_self) hpos (hstrings row List.mem_cons_self) tableName
    rw [if_neg (hblank row List.mem_cons_self)] at hread
    rw [List.map_cons, nextAutoId, hread] at h
    simp only at h
    split at h
    · cases h
    · exact ih (fun r hr => harity r (List.mem_cons_of_mem row hr))
        (fun r hr => hstrings r (List.mem_cons_of_mem row hr))
        (fun r hr => hfits r (List.mem_cons_of_mem row hr))
        (fun r hr => hblank r (List.mem_cons_of_mem row hr)) h

/-! ## A row for a table -/

theorem isAutoId_iff {columns : List Identifier} {stmt : InsertStatement} :
    isAutoId columns stmt = true ↔ (∃ column ∈ columns, IsId column) ∧ ¬ stmt.HasId := by
  unfold isAutoId
  rw [Bool.and_eq_true, Option.isNone_iff_eq_none, names_find_eq_none, storageFindColumnIndex_isSome]
  rfl

/-- An accepted statement has a cell for each column. Where there is a column `id` the row has a key,
which is the automatic one if the statement has none. -/
theorem storageOrderRow_ok {tableName : Bytes} {columns : List Identifier} {stmt : InsertStatement}
    {lines : List Bytes} {row : Row}
    (h : storageOrderRow tableName columns stmt lines = .ok row) :
    ∃ autoId, row = columns.map (stmt.cellFor (lld autoId)) ∧
      ((∃ column ∈ columns, IsId column) → HasKey columns row ∧ (¬ stmt.HasId →
        ∀ i, storageFindColumnIndex columns idText = some i →
          nextAutoId tableName columns.length i 1 lines = .ok autoId)) := by
  unfold storageOrderRow at h
  split at h
  · cases h
  split at h
  · cases h
  rename_i hmatch
  by_cases hauto : isAutoId columns stmt = true
  · obtain ⟨hid, hstmt⟩ := isAutoId_iff.mp hauto
    obtain ⟨i, hi⟩ := Option.isSome_iff_exists.mp (storageFindColumnIndex_isSome.mpr hid)
    rw [if_pos hauto] at h
    unfold storageGetNextAutoId at h
    simp only [hi] at h
    cases hnext : nextAutoId tableName columns.length i 1 lines with
    | error e =>
      rw [hnext] at h
      cases h
    | ok autoId =>
      rw [hnext] at h
      cases h
      have hrow := orderValues_eq hmatch (lld autoId)
      refine ⟨autoId, hrow, fun _ => ⟨⟨i, hi, ?_⟩, ?_⟩⟩
      · obtain ⟨hlt, -, -⟩ := List.findIdx?_eq_some_iff_getElem.mp hi
        have hcolumn := isId_of_find hi (List.getElem?_eq_getElem hlt)
        have hcell : cellAt (orderValues columns stmt (lld autoId)) i = lld autoId := by
          rw [hrow, cellAt, List.getElem?_map, List.getElem?_eq_getElem hlt, Option.map_some,
            Option.getD_some, InsertStatement.cellFor, if_pos ⟨hcolumn, hstmt⟩]
        rw [hcell]
        exact lld_ne_nil autoId
      · intro _ j hj
        rw [hi] at hj
        cases hj
        exact hnext
  · have hnot := hauto
    rw [isAutoId_iff, not_and, not_not] at hnot
    rw [if_neg hauto] at h
    cases hvalid : storageValidatePrimaryKey tableName columns (orderValues columns stmt [])
        lines with
    | error e =>
      rw [hvalid] at h
      cases h
    | ok u =>
      rw [hvalid] at h
      cases h
      refine ⟨0, ?_, fun hid => ⟨storageValidatePrimaryKey_ok hvalid hid, fun hstmt => ?_⟩⟩
      · -- no cell is the automatic one
        rw [orderValues_eq hmatch]
        apply List.map_congr_left
        intro column hcolumn
        have hcell : ¬ (IsId column ∧ ¬ stmt.HasId) :=
          fun hnone => hnone.2 (hnot ⟨column, hcolumn, hnone.1⟩)
        unfold InsertStatement.cellFor
        rw [if_neg hcell, if_neg hcell]
      · exact absurd (hnot hid) hstmt

theorem InsertStatement.cellFor_of_hasId {stmt : InsertStatement} (h : stmt.HasId)
    (autoId autoId' : Bytes) : stmt.cellFor autoId = stmt.cellFor autoId' := by
  funext column
  have hcell : ¬ (IsId column ∧ ¬ stmt.HasId) := fun hnot => hnot.2 h
  unfold cellFor
  rw [if_neg hcell, if_neg hcell]

/-! ## The file -/

/-- No NUL is inside the strings of the statement. -/
structure InsertStatement.Strings (stmt : InsertStatement) : Prop where
  names : ∀ name ∈ stmt.names, (0 : UInt8) ∉ name.text
  values : ∀ value ∈ values stmt.items.1, (0 : UInt8) ∉ value

theorem InsertStatement.Strings.cellFor {stmt : InsertStatement} (h : stmt.Strings) (autoId : Int)
    (column : Identifier) : (0 : UInt8) ∉ stmt.cellFor (lld autoId) column := by
  unfold InsertStatement.cellFor
  split
  · exact zero_not_mem_lld autoId
  · unfold InsertStatement.valueOf
    cases hfind : stmt.items.1.find? fun item => decide (SameName item.column.text column.text) with
    | none => exact List.not_mem_nil
    | some item => exact h.values _ (List.mem_map_of_mem (List.mem_of_find?_eq_some hfind))

/-- The table with one more row. -/
def CsvTable.append (T : CsvTable) (row : Row) (harity : row.length = T.columns.length)
    (hstrings : ∀ cell ∈ row, (0 : UInt8) ∉ cell) : CsvTable where
  columns := T.columns
  rows := T.rows ++ [row]
  named := T.named
  fits := T.fits
  arity := List.forall_mem_append.mpr ⟨T.arity, List.forall_mem_singleton.mpr harity⟩
  columnStrings := T.columnStrings
  cellStrings := List.forall_mem_append.mpr ⟨T.cellStrings, List.forall_mem_singleton.mpr hstrings⟩

theorem CsvTable.encode_append (T : CsvTable) {row : Row} (harity : row.length = T.columns.length)
    (hstrings : ∀ cell ∈ row, (0 : UInt8) ∉ cell) :
    (T.append row harity hstrings).encode = T.encode ++ csvRow row := by
  unfold encode append
  rw [List.map_append, List.flatten_append, List.map_singleton, List.flatten_singleton,
    List.append_assoc]
  rfl

/-- The table that the statement creates. -/
def InsertStatement.newTable (stmt : InsertStatement) (hfits : stmt.newColumns.length ≤ MAX_COLUMNS)
    (hstrings : stmt.Strings) : CsvTable where
  columns := stmt.newColumns
  rows := [stmt.firstRow]
  named := by
    obtain ⟨column, hcolumn, -⟩ := stmt.exists_isId_newColumns
    exact List.ne_nil_of_mem hcolumn
  fits := hfits
  arity := List.forall_mem_singleton.mpr stmt.length_firstRow
  columnStrings := by
    unfold newColumns
    split
    · exact hstrings.names
    · exact List.forall_mem_cons.mpr ⟨by decide, hstrings.names⟩
  cellStrings := by
    unfold firstRow
    rw [List.forall_mem_singleton]
    split
    · exact hstrings.values
    · exact List.forall_mem_cons.mpr ⟨by decide, hstrings.values⟩

/-- In an empty file an accepted statement creates its table. -/
theorem storagePlanInsert_new {tableName : Bytes} {stmt : InsertStatement} {plan : InsertPlan}
    (h : storagePlanInsert tableName [] stmt = .ok plan) (hstrings : stmt.Strings) :
    ∃ hfits, plan.text = (stmt.newTable hfits hstrings).encode ∧ plan.row = stmt.firstRow ∧
      HasKey stmt.newColumns stmt.firstRow := by
  have hread : storageReadHeader (fgetsLines MAX_CSV_LINE_LENGTH []) = .ok ([], []) := rfl
  unfold storagePlanInsert at h
  rw [hread] at h
  cases hnew : storageNewTable stmt with
  | error e =>
    simp only [hnew] at h
    cases h
  | ok new =>
    obtain ⟨columns, ordered⟩ := new
    obtain ⟨rfl, rfl, hfits⟩ := storageNewTable_ok hnew
    simp only [hnew] at h
    cases hvalid : storageValidatePrimaryKey tableName stmt.newColumns stmt.firstRow [] with
    | error e =>
      rw [hvalid] at h
      cases h
    | ok u =>
      rw [hvalid] at h
      cases h
      refine ⟨hfits, ?_, rfl, storageValidatePrimaryKey_ok hvalid stmt.exists_isId_newColumns⟩
      unfold InsertPlan.text CsvTable.encode
      simp only [InsertStatement.newTable, List.map_singleton, List.flatten_singleton]
      rfl

/-- To a table an accepted statement adds a row. -/
theorem storagePlanInsert_append {tableName : Bytes} {T : CsvTable} {stmt : InsertStatement}
    {plan : InsertPlan} (h : storagePlanInsert tableName T.encode stmt = .ok plan) :
    (∀ name ∈ T.header, Clean name) ∧ plan.text = csvRow plan.row ∧
      storageOrderRow tableName T.columns stmt
        (fgetsLines MAX_CSV_LINE_LENGTH (T.rows.map csvRow).flatten) = .ok plan.row := by
  unfold storagePlanInsert at h
  by_cases hheader : ∀ name ∈ T.header, Clean name
  · rw [T.readHeader hheader] at h
    obtain ⟨column, columns, hcolumns⟩ := List.exists_cons_of_ne_nil T.named
    rw [hcolumns] at h ⊢
    simp only at h
    generalize storageOrderRow tableName (column :: columns) stmt
      (fgetsLines MAX_CSV_LINE_LENGTH (T.rows.map csvRow).flatten) = ordered at h ⊢
    cases ordered with
    | error e => cases h
    | ok ordered =>
      cases h
      exact ⟨hheader, rfl, rfl⟩
  · obtain ⟨e, he⟩ := T.readHeader_unreadable hheader
    rw [he] at h
    cases h

/-- The file then holds the table with the row. -/
theorem CsvTable.encode_planned {tableName : Bytes} {T : CsvTable} {stmt : InsertStatement}
    {plan : InsertPlan} (h : storagePlanInsert tableName T.encode stmt = .ok plan)
    (hstrings : stmt.Strings) :
    ∃ harity hcells, T.encode ++ plan.text = (T.append plan.row harity hcells).encode := by
  obtain ⟨-, htext, horder⟩ := storagePlanInsert_append h
  obtain ⟨autoId, hrow, -⟩ := storageOrderRow_ok horder
  have harity : plan.row.length = T.columns.length := by
    rw [hrow, List.length_map]
  have hcells : ∀ cell ∈ plan.row, (0 : UInt8) ∉ cell := by
    rw [hrow, List.forall_mem_map]
    exact fun column _ => hstrings.cellFor _ column
  refine ⟨harity, hcells, ?_⟩
  rw [T.encode_append harity hcells, htext]

end JungleDb
