import JungleDb.Lib.Runs
import JungleDb.Sql.Lexeme
import JungleDb.Engine.Accepted
import JungleDb.Storage.Insert

/-!
# Runs of `storage_insert`

The statements that are accepted make a table. The file holds this table, and is read back as it, as
long as the row of every accepted statement fits its line. The first that does not fit makes the file
unreadable: CR and LF in a value are accepted, and so are values that make the line too long.
-/

namespace JungleDb

open CString Stdio

/-! ## The table of the accepted statements -/

/-- A table: its header and its rows. -/
structure StoredTable where
  columns : List Identifier
  rows : List Row
  deriving DecidableEq

namespace StoredTable

/-- Before the first statement. -/
def empty : StoredTable := ⟨[], []⟩

/-- The row that a statement writes: the first creates the header, the others follow it. -/
def rowOf (t : StoredTable) (stmt : InsertStatement) : Row :=
  if t.columns = [] then stmt.firstRow
  else t.columns.map (stmt.cellFor (lld (nextIdOf t.columns t.rows)))

/-- The table with it. -/
def insert (t : StoredTable) (stmt : InsertStatement) : StoredTable where
  columns := if t.columns = [] then stmt.newColumns else t.columns
  rows := t.rows ++ [t.rowOf stmt]

end StoredTable

/-- A run of `storage_insert`: the table of the statements accepted so far, and the file. -/
structure Stored where
  table : StoredTable
  file : Option Bytes

namespace Stored

/-- The call returns `SUCCESS`. -/
def Accepts (s : Stored) (tableName : Bytes) (stmt : InsertStatement) : Prop :=
  (storageInsert .fine s.file tableName stmt).1 = .ok ()

/-- The call. -/
def insert (tableName : Bytes) (s : Stored) (stmt : InsertStatement) : Stored :=
  match storageInsert .fine s.file tableName stmt with
  | (.ok (), file) => ⟨s.table.insert stmt, file⟩
  | (.error _, file) => ⟨s.table, file⟩

end Stored

/-- The calls, one after the other, for a table that is absent. -/
def storageInserts (tableName : Bytes) (stmts : List InsertStatement) : Stored :=
  stmts.foldl (Stored.insert tableName) ⟨.empty, none⟩

/-! ## The statements of the parser -/

/-- The parser returns the statement for some text. -/
def InsertStatement.Parsed (stmt : InsertStatement) : Prop :=
  ∃ sql tokens, (0 : UInt8) ∉ sql ∧ tokenizerTokenize sql = .ok tokens ∧
    parserParse tokens = .ok (.insert stmt)

/-- The statement is written in the tokens. -/
theorem InsertStatement.Parsed.tokens {stmt : InsertStatement} (h : stmt.Parsed) :
    ∀ t ∈ (SqlStatement.insert stmt).tokens,
      t.Lexed ∧ (t.type ≠ .keyword → (0 : UInt8) ∉ t.value.text) := by
  obtain ⟨sql, tokens, hzero, htokens, hparse⟩ := h
  obtain ⟨-, rest, -, rfl⟩ := parserParse_ok.mp hparse
  intro t ht
  have hmem := List.mem_append_left rest ht
  refine ⟨tokenizerTokenize_lexed htokens t hmem, fun hkeyword hnul => ?_⟩
  exact hzero (tokenizerTokenize_subset htokens t hmem hkeyword hnul)

theorem nameToken_mem_insert {stmt : InsertStatement} {name : Identifier} (h : name ∈ stmt.names) :
    nameToken name ∈ (SqlStatement.insert stmt).tokens :=
  List.mem_append_right _ (List.mem_append_left _
    (mem_commaSeparated_of_mem (List.mem_map_of_mem h)))

theorem literalToken_mem_insert {stmt : InsertStatement} {value : Literal × ValueKind}
    (h : value ∈ stmt.literals) : literalToken value ∈ (SqlStatement.insert stmt).tokens :=
  List.mem_append_right _ (List.mem_append_right _ (List.mem_append_right _
    (List.mem_append_left _ (mem_commaSeparated_of_mem (List.mem_map_of_mem h)))))

/-- The strings of a parsed statement are C strings. -/
theorem InsertStatement.Parsed.strings {stmt : InsertStatement} (h : stmt.Parsed) : stmt.Strings where
  names := by
    intro name hname
    exact (h.tokens _ (nameToken_mem_insert hname)).2 nofun
  values := by
    intro value hvalue
    obtain ⟨item, hitem, rfl⟩ := List.mem_map.mp hvalue
    have hmem : (item.value, item.valueKind) ∈ stmt.literals := List.mem_map_of_mem hitem
    refine (h.tokens _ (literalToken_mem_insert hmem)).2 ?_
    cases item.valueKind <;> nofun

theorem clean_of_isWord {text : Bytes} (h : IsWord text) : Clean text := by
  intro c hc hend
  have hword := List.all_eq_true.mp h.2 c hc
  rcases hend with rfl | rfl <;> cases hword

/-- Its names have no line break. -/
theorem InsertStatement.Parsed.clean {stmt : InsertStatement} (h : stmt.Parsed) :
    ∀ name ∈ stmt.names, Clean name.text := by
  intro name hname
  rcases (h.tokens _ (nameToken_mem_insert hname)).1.1 rfl with hword | hstar
  · exact clean_of_isWord hword.2.1
  · have htext : name.text = (bytes "*") := congrArg (fun t : Token => t.value.text) hstar
    rw [htext]
    decide

/-! ## One call -/

/-- The columns name an `id`, and every row has a key. -/
def CsvTable.Keyed (T : CsvTable) : Prop :=
  (∃ column ∈ T.columns, IsId column) ∧ ∀ row ∈ T.rows, HasKey T.columns row

theorem CsvTable.Keyed.visible {T : CsvTable} (h : T.Keyed) : T.visible = T.rows := by
  unfold CsvTable.visible
  refine List.filter_eq_self.mpr ?_
  intro row hrow
  exact decide_eq_true (h.2 row hrow).ne_blank

theorem InsertStatement.Parsed.clean_newColumns {stmt : InsertStatement} (h : stmt.Parsed) :
    ∀ column ∈ stmt.newColumns, Clean column.text := by
  unfold newColumns
  split
  · exact h.clean
  · exact List.forall_mem_cons.mpr ⟨by decide, h.clean⟩

theorem CsvTable.clean_header {T : CsvTable} (h : ∀ column ∈ T.columns, Clean column.text) :
    ∀ name ∈ T.header, Clean name :=
  List.forall_mem_map.mpr h

theorem CsvTable.readable_append {T : CsvTable} {row : Row} {harity hstrings} :
    (T.append row harity hstrings).Readable ↔ T.Readable ∧ LineFits row := by
  unfold Readable append header
  simp only [List.forall_mem_append, List.forall_mem_singleton, and_assoc]

/-- The row of an accepted statement, from what the file holds. -/
theorem CsvTable.Keyed.orderRow {T : CsvTable} (h : T.Keyed) (hreadable : T.Readable)
    {tableName : Bytes} {stmt : InsertStatement} {row : Row}
    (horder : storageOrderRow tableName T.columns stmt
      (fgetsLines MAX_CSV_LINE_LENGTH (T.rows.map csvRow).flatten) = .ok row) :
    HasKey T.columns row ∧ row = T.columns.map (stmt.cellFor (lld (nextIdOf T.columns T.rows))) := by
  obtain ⟨autoId, hrow, hid⟩ := storageOrderRow_ok horder
  obtain ⟨hkey, hauto⟩ := hid h.1
  refine ⟨hkey, ?_⟩
  by_cases hstmt : stmt.HasId
  · rw [hrow, InsertStatement.cellFor_of_hasId hstmt]
  · obtain ⟨i, hi⟩ := Option.isSome_iff_exists.mp (storageFindColumnIndex_isSome.mpr h.1)
    have hnext := hauto hstmt i hi
    rw [fgetsLines_csvRows hreadable.2] at hnext
    have hvalue := nextAutoId_csvRows T.arity T.columns_length_pos T.cellStrings hreadable.2
      (fun row hmem => (h.2 row hmem).ne_blank) hnext
    unfold nextIdOf
    rw [hrow, hi, hvalue]

/-- The file holds the table and can be read. -/
inductive Stored.Holds : Stored → Prop
  | empty {file : Option Bytes} : file.getD [] = [] → Holds ⟨.empty, file⟩
  | table {T : CsvTable} : T.Readable → T.Keyed → Holds ⟨⟨T.columns, T.rows⟩, some T.encode⟩

/-- After an accepted call the file holds the table, but it can be read only if the new row fits. -/
theorem Stored.Holds.accepted {tableName : Bytes} {s : Stored} {stmt : InsertStatement} (h : s.Holds)
    (hparsed : stmt.Parsed) (haccepts : s.Accepts tableName stmt) :
    ∃ T : CsvTable, s.insert tableName stmt = ⟨⟨T.columns, T.rows⟩, some T.encode⟩ ∧ T.Keyed ∧
      (T.Readable ↔ LineFits (s.table.rowOf stmt)) := by
  obtain ⟨plan, hplan, hcall⟩ := storageInsert_accepted haccepts
  unfold Stored.insert
  rw [hcall]
  cases h with
  | @empty file hfile =>
    simp only [hfile] at hplan ⊢
    obtain ⟨hfits, htext, -, hkey⟩ := storagePlanInsert_new hplan hparsed.strings
    refine ⟨stmt.newTable hfits hparsed.strings, ?_, ⟨stmt.exists_isId_newColumns, ?_⟩, ?_⟩
    · rw [htext]
      rfl
    · exact List.forall_mem_singleton.mpr hkey
    · refine (and_iff_right ?_).trans List.forall_mem_singleton
      exact (stmt.newTable hfits hparsed.strings).clean_header hparsed.clean_newColumns
  | @table T hreadable hkeyed =>
    simp only [Option.getD_some] at hplan ⊢
    obtain ⟨harity, hstrings, htext⟩ := CsvTable.encode_planned hplan hparsed.strings
    obtain ⟨-, -, horder⟩ := storagePlanInsert_append hplan
    obtain ⟨hkey, hrow⟩ := hkeyed.orderRow hreadable horder
    have hrowOf : StoredTable.rowOf ⟨T.columns, T.rows⟩ stmt = plan.row := by
      rw [StoredTable.rowOf, if_neg T.named, hrow]
    refine ⟨T.append plan.row harity hstrings, ?_, ⟨hkeyed.1, ?_⟩, ?_⟩
    · rw [htext]
      unfold StoredTable.insert
      rw [hrowOf, if_neg T.named]
      rfl
    · exact List.forall_mem_append.mpr ⟨hkeyed.2, List.forall_mem_singleton.mpr hkey⟩
    · rw [T.readable_append, hrowOf]
      exact and_iff_right hreadable

/-- A call that fails leaves what the file holds. -/
theorem Stored.Holds.rejected {tableName : Bytes} {s : Stored} {stmt : InsertStatement} (h : s.Holds)
    (hrejects : ¬ s.Accepts tableName stmt) : (s.insert tableName stmt).Holds := by
  have hfile := storageInsert_rejected hrejects
  unfold Stored.Accepts at hrejects
  unfold Stored.insert
  generalize storageInsert .fine s.file tableName stmt = call at hrejects hfile ⊢
  obtain ⟨result, file⟩ := call
  cases result with
  | ok u => exact absurd rfl hrejects
  | error e =>
    cases h with
    | empty hempty =>
      apply Holds.empty
      rcases hfile with rfl | rfl
      · exact hempty
      · exact hempty
    | table hreadable hkeyed =>
      obtain rfl | rfl := hfile
      · exact .table hreadable hkeyed
      · exact .table hreadable hkeyed

/-! ## Runs -/

/-- A property of every accepted call of a run: of the state before it and of its statement. -/
def EveryAccepted (tableName : Bytes) (stmts : List InsertStatement)
    (P : Stored → InsertStatement → Prop) : Prop :=
  ∀ before stmt, before ++ [stmt] <+: stmts →
    (storageInserts tableName before).Accepts tableName stmt →
      P (storageInserts tableName before) stmt

theorem everyAccepted_nil (tableName : Bytes) (P : Stored → InsertStatement → Prop) :
    EveryAccepted tableName [] P := Runs.every_nil _

theorem everyAccepted_concat {tableName : Bytes} {stmts : List InsertStatement}
    {stmt : InsertStatement} {P : Stored → InsertStatement → Prop} :
    EveryAccepted tableName (stmts ++ [stmt]) P ↔ EveryAccepted tableName stmts P ∧
      ((storageInserts tableName stmts).Accepts tableName stmt →
        P (storageInserts tableName stmts) stmt) := Runs.every_concat

theorem storageInserts_concat (tableName : Bytes) (stmts : List InsertStatement)
    (stmt : InsertStatement) : storageInserts tableName (stmts ++ [stmt]) =
      (storageInserts tableName stmts).insert tableName stmt := by
  unfold storageInserts
  rw [List.foldl_append]
  rfl

/-- `INSERT INTO users (name) VALUES ('...')` -/
def insertName (name : String) : InsertStatement :=
  ⟨lit _ "users", ⟨[⟨lit _ "name", lit _ name, .string⟩], Nat.le_add_left 1 31⟩⟩

end JungleDb
