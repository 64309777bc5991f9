import JungleDb.Runtime.Scan
import JungleDb.Storage.Insert

/-!
# `storage_delete`

The call reads the table, writes its header and the rows that it keeps to a temporary file, and
renames this file over the table's. Whatever fails before the rename leaves the table as it was. The
results of `fflush` and `fclose` are not looked at: the rename follows also when the end of the
temporary file was lost.
-/

namespace JungleDb

open CString Stdio

/-! ## The WHERE clause -/

/-- `storage_compare_with_operator`. -/
def storageCompareWithOperator (lhs op rhs : Bytes) : Storage Bool :=
  let comparison := utilsCompareValues lhs rhs
  if op = bytes "=" then .ok (decide (comparison = 0))
  else if op = bytes "!=" then .ok (decide (comparison ≠ 0))
  else if op = bytes ">" then .ok (decide (comparison > 0))
  else if op = bytes "<" then .ok (decide (comparison < 0))
  else if op = bytes ">=" then .ok (decide (comparison ≥ 0))
  else if op = bytes "<=" then .ok (decide (comparison ≤ 0))
  else .error (bytes "Error: Unsupported WHERE operator '" ++ op ++ bytes "'.\n")

/-- `storage_row_matches_where`. -/
def storageRowMatchesWhere (row : Row) (columns : List Identifier) (clause : WhereClause) :
    Storage Bool :=
  match storageFindColumnIndex columns clause.column.text with
  | none => .error (bytes "Error: Column '" ++ clause.column.text ++ bytes "' not found.\n")
  | some column_index =>
    storageCompareWithOperator (cellAt row column_index) clause.op.text clause.value.text

/-- `matches`: without a WHERE clause every row does. -/
def rowMatches (stmt : DeleteStatement) (columns : List Identifier) (row : Row) : Storage Bool :=
  match stmt.where with
  | none => .ok true
  | some clause => storageRowMatchesWhere row columns clause

/-! ## The call -/

/-- `storage_write_header`: its output calls. -/
def storageWriteHeader (columns : List Identifier) : List Bytes :=
  storageWriteCsvRow (columns.map CStr.text)

/-- How the calls of the operating system go that `storage_delete` makes. -/
structure DeleteIo where
  opens : Bool
  locks : Bool
  creates : Bool
  puts : List Stdio.Outcome
  flushed : Stdio.Outcome
  closed : Stdio.Outcome
  renames : Bool

/-- All of them succeed. -/
def DeleteIo.fine : DeleteIo := ⟨true, true, true, [], .done 0, .done 0, true⟩

def writeFailed (tableName : Bytes) : Bytes :=
  bytes "Error: Failed to write table '" ++ tableName ++ bytes "'.\n"

/-- The loop over the rows, with `deleted_count` and `temp_fp`. -/
def deleteRows (tableName : Bytes) (columns : List Identifier) (stmt : DeleteStatement) :
    Nat → Stream → List Stdio.Outcome → List Row → Storage Unit × Nat × Stream
  | deletedCount, tempFp, _, [] => (.ok (), deletedCount, tempFp)
  | deletedCount, tempFp, puts, row :: rows =>
    match rowMatches stmt columns row with
    | .error e => (.error e, deletedCount, tempFp)
    | .ok true => deleteRows tableName columns stmt (deletedCount + 1) tempFp puts rows
    | .ok false =>
      match tempFp.putAll (storageWriteCsvRow row) puts with
      | (true, tempFp, puts) => deleteRows tableName columns stmt deletedCount tempFp puts rows
      | (false, tempFp, _) => (.error (writeFailed tableName), deletedCount, tempFp)

/-- What a call returns, `*deleted_count`, and the file at the path of the table after it. -/
structure Deleted where
  result : Storage Unit
  deletedCount : Nat
  file : Option Bytes

/-- `storage_delete`, on the file at the path of the table. -/
def storageDelete (io : DeleteIo) (file : Option Bytes) (tableName : Bytes)
    (stmt : DeleteStatement) : Deleted :=
  match storageBuildPath tableName, file with
  | none, _ => ⟨.error (bytes "Error: Table path is too long.\n"), 0, file⟩
  | some _, none =>
    ⟨.error (bytes "Error: Table '" ++ tableName ++ bytes "' not found.\n"), 0, file⟩
  | some _, some content =>
    if !io.opens then
      ⟨.error (bytes "Error: Table '" ++ tableName ++ bytes "' not found.\n"), 0, file⟩
    else if !io.locks then ⟨.error (bytes "Error: Failed to lock table file.\n"), 0, file⟩
    else match storageLoadTableFromFp content tableName false with
      | .error e => ⟨.error e, 0, file⟩
      | .ok table =>
        if !io.creates then
          ⟨.error (bytes "Error: Failed to create temporary table file.\n"), 0, file⟩
        else match Stream.putAll ⟨[], []⟩ (storageWriteHeader table.columns) io.puts with
          | (false, _, _) => ⟨.error (writeFailed tableName), 0, file⟩
          | (true, tempFp, puts) =>
            match deleteRows tableName table.columns stmt 0 tempFp puts table.rows with
            | (.error e, deletedCount, _) => ⟨.error e, deletedCount, file⟩
            | (.ok (), deletedCount, tempFp) =>
              -- the results of `fflush` and `fclose` are dropped
              let written := (tempFp.flush io.flushed).close io.closed
              if !io.renames then
                ⟨.error (bytes "Error: Failed to replace table '" ++ tableName ++ bytes "'.\n"),
                  deletedCount, file⟩
              else ⟨.ok (), deletedCount, some written⟩

/-! ## What is deleted -/

/-- The comparison of two values: of the integers where both are integers of a `long long`, of the
byte strings otherwise. -/
def Comparison.holdsText (c : Comparison) (lhs rhs : Bytes) : Bool :=
  if IntegerText lhs ∧ IntegerText rhs then c.holds (intValue lhs) (intValue rhs)
  else c.holds lhs rhs

/-- The row satisfies the clause. -/
def WhereClause.selects (clause : WhereClause) (columns : List Identifier) (row : Row) : Bool :=
  match columns.findIdx? fun column => decide (SameName column.text clause.column.text),
      Comparison.ofOp clause.op.text with
  | some i, some c => c.holdsText (cellAt row i) clause.value.text
  | _, _ => false

/-- The statement deletes the row. -/
def DeleteStatement.removes (stmt : DeleteStatement) (columns : List Identifier) (row : Row) : Bool :=
  match stmt.where with
  | none => true
  | some clause => clause.selects columns row

/-- The rows that it keeps. -/
def DeleteStatement.kept (stmt : DeleteStatement) (columns : List Identifier) (rows : List Row) :
    List Row :=
  rows.filter fun row => !stmt.removes columns row

/-- The clause can be evaluated on rows: its column is there, and its operator is one. -/
def DeleteStatement.Applies (stmt : DeleteStatement) (columns : List Identifier) : Prop :=
  ∀ clause ∈ stmt.where, (∃ column ∈ columns, SameName column.text clause.column.text) ∧
    (Comparison.ofOp clause.op.text).isSome = true

/-! ## What the WHERE clause says -/

theorem storageFindColumnIndex_eq (columns : List Identifier) (target : Bytes) :
    storageFindColumnIndex columns target =
      columns.findIdx? fun column => decide (SameName column.text target) := by
  unfold storageFindColumnIndex
  congr 1
  funext column
  rw [Bool.eq_iff_iff, utilsEqualsIgnoreCase_iff, decide_eq_true_iff]
  rfl

/-- Both runtimes decide an operator in one way; only storage fails on an operator that is none. -/
theorem storageCompareWithOperator_eq (lhs op rhs : Bytes) :
    storageCompareWithOperator lhs op rhs =
      if (Comparison.ofOp op).isSome = true then
        .ok (tableWhereMatches (utilsCompareValues lhs rhs) op)
      else .error (bytes "Error: Unsupported WHERE operator '" ++ op ++ bytes "'.\n") := by
  unfold storageCompareWithOperator Comparison.ofOp tableWhereMatches
  by_cases heq : op = bytes "="
  · simp only [if_pos heq, Option.isSome_some]
    rfl
  by_cases hne : op = bytes "!="
  · simp only [if_neg heq, if_pos hne, Option.isSome_some]
    rfl
  by_cases hgt : op = bytes ">"
  · simp only [if_neg heq, if_neg hne, if_pos hgt, Option.isSome_some]
    rfl
  by_cases hlt : op = bytes "<"
  · subst hlt
    rfl
  by_cases hge : op = bytes ">="
  · subst hge
    rfl
  by_cases hle : op = bytes "<="
  · subst hle
    rfl
  simp only [if_neg heq, if_neg hne, if_neg hgt, if_neg hlt, if_neg hge, if_neg hle,
    Option.isSome_none]
  rfl

theorem tableWhereMatches_utilsCompareValues (lhs rhs op : Bytes) :
    tableWhereMatches (utilsCompareValues lhs rhs) op =
      (Comparison.ofOp op).any fun c => c.holdsText lhs rhs := by
  unfold utilsCompareValues Comparison.holdsText
  rw [utilsCompareIntegerStrings_eq]
  by_cases hboth : IntegerText lhs ∧ IntegerText rhs
  · simp only [if_pos hboth]
    exact tableWhereMatches_eq (signOf_int (intValue lhs) (intValue rhs)) op
  · simp only [if_neg hboth]
    exact tableWhereMatches_eq (signOf_strcmp lhs rhs) op

/-- The check of a row succeeds where the clause applies, and tells whether the row is deleted. -/
theorem rowMatches_eq_ok {stmt : DeleteStatement} {columns : List Identifier} {row : Row} {b : Bool} :
    rowMatches stmt columns row = .ok b ↔ stmt.Applies columns ∧ stmt.removes columns row = b := by
  unfold rowMatches DeleteStatement.Applies DeleteStatement.removes
  cases stmt.where with
  | none => simp
  | some clause =>
    simp only [Option.mem_def, Option.some.injEq, forall_eq']
    unfold storageRowMatchesWhere WhereClause.selects
    have hcolumn : (storageFindColumnIndex columns clause.column.text).isSome = true ↔
        ∃ column ∈ columns, SameName column.text clause.column.text :=
      storageFindColumnIndex_isSome
    rw [← hcolumn, ← storageFindColumnIndex_eq]
    cases storageFindColumnIndex columns clause.column.text with
    | none => simp
    | some i =>
      simp only [Option.isSome_some, true_and]
      rw [storageCompareWithOperator_eq, tableWhereMatches_utilsCompareValues]
      cases Comparison.ofOp clause.op.text with
      | none => simp
      | some c => simp

/-! ## The loop -/

section Loop

variable {tableName : Bytes} {columns : List Identifier} {stmt : DeleteStatement}

theorem kept_cons (row : Row) (rows : List Row) :
    stmt.kept columns (row :: rows) =
      if stmt.removes columns row then stmt.kept columns rows else row :: stmt.kept columns rows := by
  unfold DeleteStatement.kept
  rw [List.filter_cons]
  cases stmt.removes columns row <;> rfl

/-- The loop succeeds when the clause applies and every output call for the rows it keeps does. -/
theorem deleteRows_eq_ok {rows : List Row} {count count' : Nat} {fp fp' : Stream}
    {puts : List Stdio.Outcome} :
    deleteRows tableName columns stmt count fp puts rows = (.ok (), count', fp') ↔
      (rows ≠ [] → stmt.Applies columns) ∧ count' = count + rows.countP (stmt.removes columns) ∧
        ∃ rest, fp.putAll ((stmt.kept columns rows).flatMap storageWriteCsvRow) puts =
          (true, fp', rest) := by
  induction rows generalizing count fp puts with
  | nil =>
    constructor
    · intro h
      cases h
      exact ⟨nofun, rfl, puts, rfl⟩
    · rintro ⟨-, rfl, rest, hput⟩
      cases hput
      rfl
  | cons row rows ih =>
    rw [deleteRows, kept_cons, List.countP_cons]
    cases hmatch : rowMatches stmt columns row with
    | error e =>
      refine ⟨nofun, fun h => ?_⟩
      have happlies := h.1 (List.cons_ne_nil row rows)
      rw [rowMatches_eq_ok.mpr ⟨happlies, rfl⟩] at hmatch
      cases hmatch
    | ok b =>
      obtain ⟨happlies, hremoves⟩ := rowMatches_eq_ok.mp hmatch
      rw [hremoves]
      cases b with
      | true =>
        simp only [if_true]
        rw [ih, Nat.add_assoc, Nat.add_comm 1]
        exact and_congr_left' (iff_of_true (fun _ => happlies) fun _ => happlies)
      | false =>
        simp only [Bool.false_eq_true, if_false]
        rw [List.flatMap_cons, Stream.putAll_append]
        generalize fp.putAll (storageWriteCsvRow row) puts = call
        obtain ⟨ok, fp, puts⟩ := call
        cases ok with
        | true =>
          simp only
          rw [ih]
          exact and_congr_left' (iff_of_true (fun _ => happlies) fun _ => happlies)
        | false =>
          refine ⟨nofun, ?_⟩
          rintro ⟨-, -, rest, hput⟩
          cases hput

end Loop

/-! ## The call -/

/-- The output calls for a table: its header and its rows. -/
def tableCalls (columns : List Identifier) (rows : List Row) : List Bytes :=
  storageWriteHeader columns ++ rows.flatMap storageWriteCsvRow

/-- Their text. -/
def tableText (columns : List Identifier) (rows : List Row) : Bytes :=
  csvRow (columns.map CStr.text) ++ (rows.map csvRow).flatten

theorem flatten_tableCalls (columns : List Identifier) (rows : List Row) :
    (tableCalls columns rows).flatten = tableText columns rows := by
  have hrows : (rows.flatMap storageWriteCsvRow).flatten = (rows.map csvRow).flatten := by
    rw [List.flatMap_def, List.flatten_flatten, List.map_map]
    rfl
  rw [tableCalls, List.flatten_append, hrows]
  rfl

/-- The load reads the same table with offsets and without. -/
theorem storageLoadTableFromFp_offsets (content tableName : Bytes) :
    storageLoadTableFromFp content tableName false =
      (storageLoadTableFromFp content tableName true).map fun table =>
        ⟨table.columns, table.rows, []⟩ := by
  unfold storageLoadTableFromFp
  simp only
  generalize storageReadHeader (fgetsLines MAX_CSV_LINE_LENGTH content) = header
  cases header with
  | error e => rfl
  | ok header =>
    simp only
    generalize loadRows tableName header.1.length
      ((fgetsLines MAX_CSV_LINE_LENGTH content).take 1).flatten.length header.2 = rows
    cases rows <;> rfl

theorem storageLoadTable_eq_ok {file : Option Bytes} {tableName : Bytes} {table : TableData} :
    storageLoadTable file tableName = .ok table ↔
      ∃ path content, storageBuildPath tableName = some path ∧ file = some content ∧
        storageLoadTableFromFp content tableName true = .ok table := by
  unfold storageLoadTable
  cases storageBuildPath tableName with
  | none => simp
  | some path =>
    cases file with
    | none => simp
    | some content => simp

/-- When a call on a table that can be loaded succeeds, and what it leaves then. -/
structure DeleteIo.Completes (io : DeleteIo) (table : TableData) (stmt : DeleteStatement)
    (tempFp : Stream) : Prop where
  opens : io.opens = true
  locks : io.locks = true
  creates : io.creates = true
  applies : table.rows ≠ [] → stmt.Applies table.columns
  puts : ∃ rest, Stream.putAll ⟨[], []⟩
    (tableCalls table.columns (stmt.kept table.columns table.rows)) io.puts = (true, tempFp, rest)
  renames : io.renames = true

/-- A call on a table that can be loaded either fails and leaves the file, or has done everything up
to the rename. -/
theorem storageDelete_cases (io : DeleteIo) {file : Option Bytes} {tableName : Bytes}
    (stmt : DeleteStatement) {table : TableData}
    (hload : storageLoadTable file tableName = .ok table) :
    (∃ tempFp, io.Completes table stmt tempFp ∧ storageDelete io file tableName stmt =
      ⟨.ok (), table.rows.countP (stmt.removes table.columns),
        some ((tempFp.flush io.flushed).close io.closed)⟩) ∨
    ((∀ tempFp, ¬ io.Completes table stmt tempFp) ∧ ∃ e deletedCount,
      storageDelete io file tableName stmt = ⟨.error e, deletedCount, file⟩) := by
  obtain ⟨path, content, hpath, rfl, hread⟩ := storageLoadTable_eq_ok.mp hload
  unfold storageDelete
  simp only [hpath, storageLoadTableFromFp_offsets, hread, Except.map]
  cases hopens : io.opens with
  | false =>
    refine .inr ⟨fun tempFp h => ?_, _, _, rfl⟩
    exact Bool.false_ne_true (hopens.symm.trans h.opens)
  | true =>
  cases hlocks : io.locks with
  | false =>
    refine .inr ⟨fun tempFp h => ?_, _, _, rfl⟩
    exact Bool.false_ne_true (hlocks.symm.trans h.locks)
  | true =>
  cases hcreates : io.creates with
  | false =>
    refine .inr ⟨fun tempFp h => ?_, _, _, rfl⟩
    exact Bool.false_ne_true (hcreates.symm.trans h.creates)
  | true =>
  simp only [Bool.not_true, Bool.false_eq_true, if_false]
  cases hheader : Stream.putAll ⟨[], []⟩ (storageWriteHeader table.columns) io.puts with
  | mk ok written =>
  obtain ⟨headerFp, puts⟩ := written
  cases ok with
  | false =>
    refine .inr ⟨fun tempFp h => ?_, _, _, rfl⟩
    obtain ⟨rest, hput⟩ := h.puts
    rw [tableCalls, Stream.putAll_append, hheader] at hput
    cases hput
  | true =>
  simp only
  cases hloop : deleteRows tableName table.columns stmt 0 headerFp puts table.rows with
  | mk result counted =>
  obtain ⟨deletedCount, tempFp⟩ := counted
  have hcompletes : ∀ {fp}, io.Completes table stmt fp →
      deleteRows tableName table.columns stmt 0 headerFp puts table.rows =
        (.ok (), table.rows.countP (stmt.removes table.columns), fp) := by
    intro fp h
    obtain ⟨rest, hput⟩ := h.puts
    rw [tableCalls, Stream.putAll_append, hheader] at hput
    exact deleteRows_eq_ok.mpr ⟨h.applies, (Nat.zero_add _).symm, rest, hput⟩
  cases result with
  | error e =>
    refine .inr ⟨fun fp h => ?_, _, _, rfl⟩
    rw [hcompletes h] at hloop
    cases hloop
  | ok u =>
    obtain ⟨happlies, hcount, rest, hput⟩ := deleteRows_eq_ok.mp hloop
    rw [Nat.zero_add] at hcount
    cases hrenames : io.renames with
    | false =>
      refine .inr ⟨fun fp h => ?_, _, _, rfl⟩
      exact Bool.false_ne_true (hrenames.symm.trans h.renames)
    | true =>
      refine .inl ⟨tempFp, ⟨hopens, hlocks, hcreates, happlies, ⟨rest, ?_⟩, hrenames⟩, ?_⟩
      · rw [tableCalls, Stream.putAll_append, hheader]
        exact hput
      · rw [hcount]
        rfl

/-- On a table that cannot be loaded a call fails. -/
theorem storageDelete_unloadable {io : DeleteIo} {file : Option Bytes} {tableName : Bytes}
    {stmt : DeleteStatement} (h : ∀ table, storageLoadTable file tableName ≠ .ok table) :
    (storageDelete io file tableName stmt).file = file := by
  unfold storageDelete
  cases hpath : storageBuildPath tableName with
  | none => rfl
  | some path =>
    cases file with
    | none => rfl
    | some content =>
      simp only [storageLoadTableFromFp_offsets]
      cases hread : storageLoadTableFromFp content tableName true with
      | error e =>
        simp only [Except.map]
        split
        · rfl
        · split <;> rfl
      | ok table =>
        exact absurd (storageLoadTable_eq_ok.mpr ⟨path, content, hpath, rfl, hread⟩) (h table)

/-- What the buffer and the file hold before the flush is the whole table. -/
theorem DeleteIo.Completes.content {io : DeleteIo} {table : TableData} {stmt : DeleteStatement}
    {tempFp : Stream} (h : io.Completes table stmt tempFp) :
    tempFp.content = tableText table.columns (stmt.kept table.columns table.rows) := by
  obtain ⟨rest, hput⟩ := h.puts
  rw [Stream.content_putAll hput, flatten_tableCalls]
  rfl

/-! ## Failures -/

/-- A call on a table that can be loaded leaves the whole new table when it succeeds and the old file
when it fails, just if `fflush` and `fclose` hand on the rest of the buffer whenever everything else
up to the rename succeeds. -/
theorem storageDelete_atomic (io : DeleteIo) {file : Option Bytes} {tableName : Bytes}
    (stmt : DeleteStatement) {table : TableData}
    (hload : storageLoadTable file tableName = .ok table) :
    (((storageDelete io file tableName stmt).result = .ok () →
        (storageDelete io file tableName stmt).file =
          some (tableText table.columns (stmt.kept table.columns table.rows))) ∧
      ((storageDelete io file tableName stmt).result ≠ .ok () →
        (storageDelete io file tableName stmt).file = file)) ↔
    ∀ tempFp, io.Completes table stmt tempFp →
      tempFp.buffer.length ≤ Stream.handedOn tempFp.buffer.length io.flushed io.closed := by
  rcases storageDelete_cases io stmt hload with ⟨tempFp, hcompletes, hrun⟩ | ⟨hnot, e, count, hrun⟩
  · rw [hrun]
    simp only [forall_const, ne_eq, not_true_eq_false, false_implies, and_true, Option.some.injEq]
    rw [← hcompletes.content, Stream.close_flush_eq_content]
    constructor
    · intro hall fp hfp
      obtain ⟨rest, hput⟩ := hfp.puts
      obtain ⟨rest', hput'⟩ := hcompletes.puts
      rw [hput] at hput'
      cases hput'
      exact hall
    · intro hall
      exact hall tempFp hcompletes
  · rw [hrun]
    refine iff_of_true ⟨nofun, fun _ => rfl⟩ fun tempFp h => absurd h (hnot tempFp)

/-- `DELETE FROM users WHERE id = ...` -/
def deleteId (id : String) : DeleteStatement :=
  ⟨lit _ "users", some ⟨lit _ "id", lit _ "=", lit _ id, .int⟩⟩

/-- A table with one row. -/
def usersFile : Bytes := bytes "id,name\n1,Kim\n"

theorem usersFile_loads : storageLoadTable (some usersFile) (bytes "users") =
    .ok ⟨[lit _ "id", lit _ "name"], [[bytes "1", bytes "Kim"]], [8]⟩ := by
  decide +kernel

theorem storageDelete_atomic_fine :
    (storageDelete .fine (some usersFile) (bytes "users") (deleteId "2")).result = .ok () ∧
    (storageDelete .fine (some usersFile) (bytes "users") (deleteId "2")).file = some usersFile := by
  have hresult :
      (storageDelete .fine (some usersFile) (bytes "users") (deleteId "2")).result = .ok () := by
    decide +kernel
  refine ⟨hresult, ?_⟩
  have hatomic := (storageDelete_atomic .fine (deleteId "2") usersFile_loads).mpr
    fun tempFp _ => Nat.le_refl _
  rw [hatomic.1 hresult]
  decide

/-- Where `fflush` and `fclose` fail, an empty file replaces the table, and the call succeeds. -/
theorem storageDelete_atomic_flushFails :
    ¬ ∀ io file tableName stmt table, storageLoadTable file tableName = .ok table →
      ((storageDelete io file tableName stmt).result = .ok () →
        (storageDelete io file tableName stmt).file =
          some (tableText table.columns (stmt.kept table.columns table.rows))) ∧
      ((storageDelete io file tableName stmt).result ≠ .ok () →
        (storageDelete io file tableName stmt).file = file) := by
  intro hgeneral
  have hcase := (hgeneral { DeleteIo.fine with flushed := .failed 0 0, closed := .failed 0 0 }
    (some usersFile) (bytes "users") (deleteId "2") _ usersFile_loads).1 (by decide +kernel)
  revert hcase
  decide +kernel

end JungleDb
