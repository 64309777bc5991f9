import JungleDb.Runtime.Relation
import JungleDb.Storage.Csv

/-!
# The table files of `storage.c`

The functions that read a table file take the lines that `fgets` still has to deliver. A file that was
written row by row is read back as these rows, if every row fits its line: no cell holds CR or LF and
the line is shorter than the array it is read into. Otherwise the file cannot be read at all.
-/

namespace JungleDb

open CString Stdio

abbrev MAX_CSV_LINE_LENGTH : Nat := 16384

abbrev MAX_PATH_LEN : Nat := 256

/-- `storage_build_path`. -/
def storageBuildPath (tableName : Bytes) : Option Bytes :=
  let path := bytes "data/" ++ tableName ++ bytes ".csv"
  if path.length < MAX_PATH_LEN then some path else none

/-- `storage_copy_columns`. -/
def storageCopyColumns : List Bytes → Storage (List Identifier)
  | [] => .ok []
  | name :: names =>
    match utilsSafeStrcpy MAX_IDENTIFIER_LEN name with
    | none => .error (bytes "Error: Column name is too long.\n")
    | some column => (storageCopyColumns names).map (column :: ·)

/-- `storage_find_column_index`. -/
def storageFindColumnIndex (columns : List Identifier) (target : Bytes) : Option Nat :=
  columns.findIdx? fun column => utilsEqualsIgnoreCase column.text target

/-- `strchr(line, '\n') == NULL && !feof(fp)` -/
def lineTooLong (chunk : Bytes) : Bool :=
  !(cstring chunk).contains newline && !feof MAX_CSV_LINE_LENGTH chunk

/-- `storage_read_header`: the columns and the lines behind the header. -/
def storageReadHeader : List Bytes → Storage (List Identifier × List Bytes)
  | [] => .ok ([], [])
  | chunk :: lines =>
    if lineTooLong chunk then .error (bytes "Error: CSV header is too long.\n")
    else match storageParseCsvLine (cstring chunk) with
      | .error e => .error e
      | .ok parsed =>
        if MAX_COLUMNS < parsed.length then
          .error (bytes "Error: Too many columns in table header.\n")
        else (storageCopyColumns parsed).map fun columns => (columns, lines)

/-- What the loops over the rows do with a line first; `none` is a blank line. -/
def storageReadRow (tableName : Bytes) (colCount : Nat) (chunk : Bytes) : Storage (Option Row) :=
  if lineTooLong chunk then .error (bytes "Error: CSV row is too long.\n")
  else if (cstring chunk).head?.any fun c => decide (IsLineEnd c) then .ok none
  else match storageParseCsvLine (cstring chunk) with
    | .error e => .error e
    | .ok parsed =>
      if parsed.length ≠ colCount then
        .error (bytes "Error: Corrupted row in table '" ++ tableName ++ bytes "'.\n")
      else .ok (some parsed)

/-- `TableData`. -/
structure TableData where
  columns : List Identifier
  rows : List Row
  offsets : List Nat
  deriving DecidableEq

/-- The loop of `storage_load_table_from_fp`: the rows with their offsets. -/
def loadRows (tableName : Bytes) (colCount : Nat) : Nat → List Bytes → Storage (List (Nat × Row))
  | _, [] => .ok []
  | offset, chunk :: lines =>
    match storageReadRow tableName colCount chunk with
    | .error e => .error e
    | .ok none => loadRows tableName colCount (offset + chunk.length) lines
    | .ok (some row) =>
      (loadRows tableName colCount (offset + chunk.length) lines).map ((offset, row) :: ·)

/-- `storage_load_table_from_fp`. -/
def storageLoadTableFromFp (content tableName : Bytes) (includeOffsets : Bool) :
    Storage TableData :=
  let lines := fgetsLines MAX_CSV_LINE_LENGTH content
  match storageReadHeader lines with
  | .error e => .error e
  | .ok (columns, rest) =>
    (loadRows tableName columns.length (lines.take 1).flatten.length rest).map fun rows =>
      ⟨columns, rows.map Prod.snd, if includeOffsets then rows.map Prod.fst else []⟩

/-- `storage_load_table`, on the file at the path of the table. -/
def storageLoadTable (file : Option Bytes) (tableName : Bytes) : Storage TableData :=
  match storageBuildPath tableName with
  | none => .error (bytes "Error: Table path is too long.\n")
  | some _ =>
    match file with
    | none => .error (bytes "Error: Table '" ++ tableName ++ bytes "' not found.\n")
    | some content => storageLoadTableFromFp content tableName true

/-! ## Tables written row by row -/

/-- A table that can be written: there are columns, the rows have a cell for each, and the texts are
C strings. -/
structure CsvTable where
  columns : List Identifier
  rows : List Row
  named : columns ≠ []
  fits : columns.length ≤ MAX_COLUMNS
  arity : ∀ row ∈ rows, row.length = columns.length
  columnStrings : ∀ column ∈ columns, (0 : UInt8) ∉ column.text
  cellStrings : ∀ row ∈ rows, ∀ cell ∈ row, (0 : UInt8) ∉ cell

namespace CsvTable

/-- The cells of the header. -/
def header (T : CsvTable) : Row := T.columns.map CStr.text

/-- The file. -/
def encode (T : CsvTable) : Bytes := csvRow T.header ++ (T.rows.map csvRow).flatten

end CsvTable

/-- The row can be read back from its line. -/
def LineFits (row : Row) : Prop :=
  (∀ cell ∈ row, Clean cell) ∧ (csvRow row).length < MAX_CSV_LINE_LENGTH

instance (row : Row) : Decidable (LineFits row) := inferInstanceAs (Decidable (_ ∧ _))

/-! ## Reading a line -/

theorem zero_not_mem_csvRow {row : Row} (h : ∀ cell ∈ row, (0 : UInt8) ∉ cell) :
    (0 : UInt8) ∉ csvRow row := by
  have hcells : ∀ cell ∈ row, ∀ c ∈ cell, c ≠ 0 := by
    rintro cell hcell c hc rfl
    exact h cell hcell hc
  have hline : ∀ c ∈ csvLine row, c ≠ 0 := forall_mem_csvLine (by decide) (by decide) hcells
  rw [csvRow_eq, List.mem_append, List.mem_singleton, not_or]
  exact ⟨fun hmem => hline 0 hmem rfl, by decide⟩

/-- A row that fits is delivered as one line. -/
theorem fgetsLines_csvRow {row : Row} (h : LineFits row) (rest : Bytes) :
    fgetsLines MAX_CSV_LINE_LENGTH (csvRow row ++ rest) =
      csvRow row :: fgetsLines MAX_CSV_LINE_LENGTH rest := by
  obtain ⟨hclean, hlength⟩ := h
  rw [csvRow_eq] at hlength ⊢
  rw [List.length_append] at hlength
  rw [List.append_assoc]
  refine fgetsLines_line ?_ hlength rest
  intro hmem
  exact clean_csvLine hclean newline hmem (.inl rfl)

theorem fgetsLines_csvRows {rows : List Row} (h : ∀ row ∈ rows, LineFits row) :
    fgetsLines MAX_CSV_LINE_LENGTH (rows.map csvRow).flatten = rows.map csvRow := by
  induction rows with
  | nil => rfl
  | cons row rows ih =>
    rw [List.map_cons, List.flatten_cons, fgetsLines_csvRow (h row List.mem_cons_self),
      ih fun r hr => h r (List.mem_cons_of_mem row hr)]

/-- The line is whole, and the cells are read back from it. -/
theorem parse_csvRow {row : Row} (h : LineFits row) (hne : row ≠ [])
    (hstrings : ∀ cell ∈ row, (0 : UInt8) ∉ cell) :
    lineTooLong (csvRow row) = false ∧ cstring (csvRow row) = csvRow row ∧
      storageParseCsvLine (csvRow row) = .ok row := by
  have hstring : cstring (csvRow row) = csvRow row := cstring_eq_self (zero_not_mem_csvRow hstrings)
  refine ⟨?_, hstring, ?_⟩
  · have hmem : newline ∈ csvRow row := by
      rw [csvRow_eq]
      exact List.mem_append_right _ (List.mem_singleton_self newline)
    unfold lineTooLong
    rw [hstring, List.contains_iff_mem.mpr hmem]
    rfl
  · rw [csvRow_eq]
    refine csvFields_csvLine hne h.1 ?_
    intro c hc
    cases hc
    exact .inl rfl

/-- A line is blank just when the row is one empty cell. -/
theorem csvRow_blank {row : Row} (h : LineFits row) (hne : row ≠ []) :
    ((csvRow row).head?.any fun c => decide (IsLineEnd c)) = decide (row = [[]]) := by
  rw [csvRow_eq]
  have hclean := clean_csvLine h.1
  cases hline : csvLine row with
  | nil =>
    have hrow : row = [[]] := by
      have hnone : ∀ c ∈ ([] : Bytes).head?, IsLineEnd c := nofun
      have hparse := csvFields_csvLine hne h.1 hnone
      rw [hline] at hparse
      exact (Except.ok.inj hparse).symm
    rw [hrow]
    rfl
  | cons c text =>
    have hc : ¬ IsLineEnd c := hclean c (hline ▸ List.mem_cons_self)
    have hrow : row ≠ [[]] := by
      rintro rfl
      cases hline
    rw [decide_eq_false hrow]
    exact decide_eq_false hc

/-- A row that fits is read back, unless its line is blank. -/
theorem storageReadRow_csvRow {row : Row} {colCount : Nat} (h : LineFits row)
    (harity : row.length = colCount) (hpos : 0 < colCount)
    (hstrings : ∀ cell ∈ row, (0 : UInt8) ∉ cell) (tableName : Bytes) :
    storageReadRow tableName colCount (csvRow row) =
      .ok (if row = [[]] then none else some row) := by
  have hne : row ≠ [] := List.ne_nil_of_length_pos (harity ▸ hpos)
  obtain ⟨hwhole, hstring, hparse⟩ := parse_csvRow h hne hstrings
  unfold storageReadRow
  rw [hwhole, if_neg Bool.false_ne_true, hstring, csvRow_blank h hne, hparse]
  by_cases hblank : row = [[]]
  · rw [if_pos (decide_eq_true hblank), if_pos hblank]
  · rw [if_neg (by rw [decide_eq_false hblank]; exact Bool.false_ne_true), if_neg hblank]
    simp only [harity, ne_eq, not_true_eq_false, if_false]

/-- The line of a row that does not fit is cut or malformed. -/
def Unreadable (chunk : Bytes) : Prop :=
  lineTooLong chunk = true ∨ (lineTooLong chunk = false ∧
    ((cstring chunk).head?.any fun c => decide (IsLineEnd c)) = false ∧
    storageParseCsvLine (cstring chunk) = .error malformedLine)

theorem unreadable_long {text : Bytes} (htext : newline ∉ text) (hstring : (0 : UInt8) ∉ text)
    (hlong : MAX_CSV_LINE_LENGTH ≤ text.length + 1) :
    Unreadable (text.take (MAX_CSV_LINE_LENGTH - 1)) := by
  left
  have hstring : (0 : UInt8) ∉ text.take (MAX_CSV_LINE_LENGTH - 1) :=
    fun hmem => hstring (List.mem_of_mem_take hmem)
  have htext : newline ∉ text.take (MAX_CSV_LINE_LENGTH - 1) :=
    fun hmem => htext (List.mem_of_mem_take hmem)
  have hlength : (text.take (MAX_CSV_LINE_LENGTH - 1)).length + 1 = MAX_CSV_LINE_LENGTH := by
    have hmax : MAX_CSV_LINE_LENGTH = 16384 := rfl
    rw [List.length_take]
    omega
  have hcontains : (text.take (MAX_CSV_LINE_LENGTH - 1)).contains newline = false := by
    rw [← Bool.not_eq_true, List.contains_iff_mem]
    exact htext
  unfold lineTooLong feof
  rw [cstring_eq_self hstring, hcontains, hlength, decide_eq_false (Nat.lt_irrefl _)]
  rfl

theorem fgetsLines_not_lineFits {row : Row} (h : ¬ LineFits row)
    (hstrings : ∀ cell ∈ row, (0 : UInt8) ∉ cell) (rest : Bytes) :
    ∃ chunk lines, fgetsLines MAX_CSV_LINE_LENGTH (csvRow row ++ rest) = chunk :: lines ∧
      Unreadable chunk := by
  have hzero := zero_not_mem_csvRow hstrings
  rw [csvRow_eq] at hzero ⊢
  rw [List.mem_append, not_or] at hzero
  by_cases hclean : ∀ cell ∈ row, Clean cell
  · -- the line is too long
    have hnewline : newline ∉ csvLine row := fun hmem => clean_csvLine hclean newline hmem (.inl rfl)
    have hlong : MAX_CSV_LINE_LENGTH ≤ (csvLine row).length + 1 := by
      by_contra hshort
      refine h ⟨hclean, ?_⟩
      rw [csvRow_eq, List.length_append, List.length_singleton]
      omega
    rw [List.append_assoc, fgetsLines_long hnewline (by decide) hlong]
    exact ⟨_, _, rfl, unreadable_long hnewline hzero.1 hlong⟩
  · obtain ⟨front, c, back, hline, hne, hfront, hc, hfields⟩ := csvLine_unclean hclean
    -- the first line break is at `c` or behind it
    obtain ⟨middle, after, hbreak, hmiddle⟩ :=
      List.eq_append_cons_of_mem (List.mem_append_right (c :: back) (List.mem_singleton_self newline))
    have hnewline : newline ∉ front ++ middle := by
      rw [List.mem_append, not_or]
      exact ⟨fun hmem => hfront newline hmem (.inl rfl), hmiddle⟩
    have htext : csvLine row ++ [newline] = (front ++ middle) ++ newline :: after := by
      rw [hline, List.append_assoc, hbreak, List.append_assoc]
    have hstring : (0 : UInt8) ∉ (front ++ middle) ++ [newline] := by
      have hall : (0 : UInt8) ∉ csvLine row ++ [newline] := by
        rw [List.mem_append, not_or]
        exact hzero
      rw [htext] at hall
      intro hmem
      refine hall ?_
      rw [List.mem_append, List.mem_singleton] at hmem
      rcases hmem with hmem | hmem
      · exact List.mem_append_left _ hmem
      · exact List.mem_append_right _ (List.mem_cons.mpr (.inl hmem))
    rw [htext, List.append_assoc, List.cons_append]
    by_cases hshort : (front ++ middle).length + 1 < MAX_CSV_LINE_LENGTH
    · refine ⟨_, _, fgetsLines_line hnewline hshort _, .inr ?_⟩
      have hmem : newline ∈ (front ++ middle) ++ [newline] :=
        List.mem_append_right _ (List.mem_singleton_self newline)
      unfold lineTooLong
      rw [cstring_eq_self hstring, List.contains_iff_mem.mpr hmem]
      refine ⟨rfl, ?_, ?_⟩
      · obtain ⟨d, front, rfl⟩ := List.exists_cons_of_ne_nil hne
        exact decide_eq_false (hfront d List.mem_cons_self)
      · obtain ⟨more, hmore⟩ : ∃ more, middle ++ [newline] = c :: more := by
          cases middle with
          | nil =>
            cases hbreak
            exact ⟨[], rfl⟩
          | cons d middle =>
            rw [(List.cons.inj hbreak).1]
            exact ⟨middle ++ [newline], rfl⟩
        rw [List.append_assoc, hmore]
        exact hfields more
    · rw [not_lt] at hshort
      rw [fgetsLines_long hnewline (by decide) hshort]
      refine ⟨_, _, rfl, unreadable_long hnewline ?_ hshort⟩
      exact fun hmem => hstring (List.mem_append_left _ hmem)

theorem storageReadRow_unreadable {chunk : Bytes} (h : Unreadable chunk) (tableName : Bytes)
    (colCount : Nat) : ∃ e, storageReadRow tableName colCount chunk = .error e := by
  unfold storageReadRow
  rcases h with hlong | ⟨hwhole, hhead, hparse⟩
  · rw [if_pos hlong]
    exact ⟨_, rfl⟩
  · rw [hwhole, if_neg Bool.false_ne_true, hhead, if_neg Bool.false_ne_true, hparse]
    exact ⟨_, rfl⟩

/-! ## Reading a table -/

theorem storageCopyColumns_text (columns : List Identifier) :
    storageCopyColumns (columns.map CStr.text) = .ok columns := by
  induction columns with
  | nil => rfl
  | cons column columns ih =>
    rw [List.map_cons, storageCopyColumns, utilsSafeStrcpy_text]
    simp only [ih]
    rfl

theorem length_csvLine_le {row : Row} {size : Nat} (h : ∀ cell ∈ row, cell.length ≤ size) :
    (csvLine row).length ≤ row.length * (2 * size + 3) := by
  have hvalue : ∀ cell : Bytes, cell.length ≤ size → (csvValue cell).length ≤ 2 * size + 2 := by
    intro cell hcell
    have hdouble : (doubleQuotes cell).length ≤ 2 * cell.length := by
      clear hcell
      induction cell with
      | nil => exact Nat.le_refl 0
      | cons c cell ih =>
        rw [doubleQuotes_cons, List.length_append, List.length_cons]
        split
        · rw [List.length_cons, List.length_singleton]
          omega
        · rw [List.length_singleton]
          omega
    rw [csvValue_eq]
    split
    · rw [List.length_cons, List.length_append, List.length_singleton]
      omega
    · omega
  induction row with
  | nil => exact Nat.zero_le _
  | cons cell row ih =>
    have hfirst := hvalue cell (h cell List.mem_cons_self)
    rw [List.length_cons, Nat.succ_mul]
    cases row with
    | nil =>
      rw [csvLine_singleton]
      omega
    | cons next row =>
      have hrest := ih fun c hc => h c (List.mem_cons_of_mem cell hc)
      rw [csvLine_cons, List.length_append, List.length_cons]
      omega

namespace CsvTable

variable (T : CsvTable)

/-- Every row of the file can be read back from its line. -/
def Readable : Prop := (∀ name ∈ T.header, Clean name) ∧ ∀ row ∈ T.rows, LineFits row

/-- The rows that are not written as blank lines. -/
def visible : List Row := T.rows.filter fun row => decide (row ≠ [[]])

theorem header_ne_nil : T.header ≠ [] := by
  intro h
  exact T.named (List.map_eq_nil_iff.mp h)

theorem header_strings : ∀ name ∈ T.header, (0 : UInt8) ∉ name := by
  intro name hname
  obtain ⟨column, hcolumn, rfl⟩ := List.mem_map.mp hname
  exact T.columnStrings column hcolumn

/-- A header is never too long for its line. -/
theorem header_lineFits : LineFits T.header ↔ ∀ name ∈ T.header, Clean name := by
  refine and_iff_left ?_
  have hsize : ∀ name ∈ T.header, name.length ≤ 63 := by
    intro name hname
    obtain ⟨column, -, rfl⟩ := List.mem_map.mp hname
    exact Nat.le_of_lt_succ column.fits
  have hlength := length_csvLine_le hsize
  have hcount : T.header.length ≤ 32 := by
    rw [header, List.length_map]
    exact T.fits
  have hmax : MAX_CSV_LINE_LENGTH = 16384 := rfl
  rw [csvRow_eq, List.length_append, List.length_singleton]
  omega

/-- The header is read back. -/
theorem readHeader (h : ∀ name ∈ T.header, Clean name) :
    storageReadHeader (fgetsLines MAX_CSV_LINE_LENGTH T.encode) =
      .ok (T.columns, fgetsLines MAX_CSV_LINE_LENGTH (T.rows.map csvRow).flatten) := by
  have hfits := T.header_lineFits.mpr h
  obtain ⟨hwhole, hstring, hparse⟩ := parse_csvRow hfits T.header_ne_nil T.header_strings
  have hcount : ¬ MAX_COLUMNS < T.header.length := by
    rw [header, List.length_map]
    exact Nat.not_lt.mpr T.fits
  rw [encode, fgetsLines_csvRow hfits, storageReadHeader, hwhole, if_neg Bool.false_ne_true, hstring,
    hparse]
  simp only [if_neg hcount]
  rw [header, storageCopyColumns_text]
  rfl

theorem readHeader_unreadable (h : ¬ ∀ name ∈ T.header, Clean name) :
    ∃ e, storageReadHeader (fgetsLines MAX_CSV_LINE_LENGTH T.encode) = .error e := by
  obtain ⟨chunk, lines, hlines, hunreadable⟩ := fgetsLines_not_lineFits
    (fun hfits => h (T.header_lineFits.mp hfits)) T.header_strings (T.rows.map csvRow).flatten
  rw [encode, hlines, storageReadHeader]
  rcases hunreadable with hlong | ⟨hwhole, -, hparse⟩
  · rw [if_pos hlong]
    exact ⟨_, rfl⟩
  · rw [hwhole, if_neg Bool.false_ne_true, hparse]
    exact ⟨_, rfl⟩

end CsvTable

/-- The loop over the rows reads back what fits. -/
theorem loadRows_csvRows {rows : List Row} {colCount : Nat} (tableName : Bytes) (offset : Nat)
    (harity : ∀ row ∈ rows, row.length = colCount) (hpos : 0 < colCount)
    (hstrings : ∀ row ∈ rows, ∀ cell ∈ row, (0 : UInt8) ∉ cell) (hfits : ∀ row ∈ rows, LineFits row) :
    ∃ loaded, loadRows tableName colCount offset
        (fgetsLines MAX_CSV_LINE_LENGTH (rows.map csvRow).flatten) = .ok loaded ∧
      loaded.map Prod.snd = rows.filter fun row => decide (row ≠ [[]]) := by
  rw [fgetsLines_csvRows hfits]
  induction rows generalizing offset with
  | nil => exact ⟨[], rfl, rfl⟩
  | cons row rows ih =>
    obtain ⟨loaded, hloaded, hrows⟩ := ih (offset + (csvRow row).length)
      (fun r hr => harity r (List.mem_cons_of_mem row hr))
      (fun r hr => hstrings r (List.mem_cons_of_mem row hr))
      (fun r hr => hfits r (List.mem_cons_of_mem row hr))
    have hread := storageReadRow_csvRow (hfits row List.mem_cons_self)
      (harity row List.mem_cons_self) hpos (hstrings row List.mem_cons_self) tableName
    rw [List.map_cons, loadRows, hread]
    by_cases hblank : row = [[]]
    · rw [if_pos hblank]
      refine ⟨loaded, hloaded, ?_⟩
      rw [hrows, List.filter_cons_of_neg]
      simpa using hblank
    · rw [if_neg hblank]
      simp only [hloaded]
      refine ⟨(offset, row) :: loaded, rfl, ?_⟩
      rw [List.map_cons, hrows, List.filter_cons_of_pos]
      simpa using hblank

/-- The loop over the rows fails at a row that does not fit. -/
theorem loadRows_unreadable {rows : List Row} {colCount : Nat} (tableName : Bytes) (offset : Nat)
    (harity : ∀ row ∈ rows, row.length = colCount) (hpos : 0 < colCount)
    (hstrings : ∀ row ∈ rows, ∀ cell ∈ row, (0 : UInt8) ∉ cell)
    (hnot : ¬ ∀ row ∈ rows, LineFits row) :
    ∃ e, loadRows tableName colCount offset
      (fgetsLines MAX_CSV_LINE_LENGTH (rows.map csvRow).flatten) = .error e := by
  induction rows generalizing offset with
  | nil => exact absurd nofun hnot
  | cons row rows ih =>
    rw [List.map_cons, List.flatten_cons]
    by_cases hrow : LineFits row
    · have hrows : ¬ ∀ row ∈ rows, LineFits row :=
        fun hall => hnot (List.forall_mem_cons.mpr ⟨hrow, hall⟩)
      obtain ⟨e, he⟩ := ih (offset + (csvRow row).length)
        (fun r hr => harity r (List.mem_cons_of_mem row hr))
        (fun r hr => hstrings r (List.mem_cons_of_mem row hr)) hrows
      have hread := storageReadRow_csvRow hrow (harity row List.mem_cons_self) hpos
        (hstrings row List.mem_cons_self) tableName
      rw [fgetsLines_csvRow hrow, loadRows, hread]
      by_cases hblank : row = [[]]
      · rw [if_pos hblank]
        exact ⟨e, he⟩
      · rw [if_neg hblank]
        simp only [he]
        exact ⟨e, rfl⟩
    · obtain ⟨chunk, lines, hlines, hunreadable⟩ :=
        fgetsLines_not_lineFits hrow (hstrings row List.mem_cons_self) (rows.map csvRow).flatten
      obtain ⟨e, he⟩ := storageReadRow_unreadable hunreadable tableName colCount
      rw [hlines, loadRows, he]
      exact ⟨e, rfl⟩

namespace CsvTable

variable (T : CsvTable)

theorem columns_length_pos : 0 < T.columns.length := List.length_pos_of_ne_nil T.named

theorem row_ne_nil {row : Row} (h : row ∈ T.rows) : row ≠ [] := by
  apply List.ne_nil_of_length_pos
  rw [T.arity row h]
  exact T.columns_length_pos

theorem encode_ne_nil : T.encode ≠ [] := by
  intro hnil
  have hrow : csvRow T.header = [] := (List.append_eq_nil_iff.mp hnil).1
  rw [csvRow_eq] at hrow
  exact List.append_ne_nil_of_right_ne_nil _ (List.cons_ne_nil _ _) hrow

/-- A file is the text of one table at most. -/
theorem encode_inj {T T' : CsvTable} (h : T.encode = T'.encode) :
    T.header = T'.header ∧ T.rows = T'.rows := by
  obtain ⟨hheader, hrows⟩ := csvRow_append_inj T.header_ne_nil T'.header_ne_nil h
  exact ⟨hheader, csvRows_inj (fun _ => T.row_ne_nil) (fun _ => T'.row_ne_nil) hrows⟩

/-- A file that was written row by row is read back, blank lines apart. -/
theorem load_readable (h : T.Readable) (tableName : Bytes) (includeOffsets : Bool) :
    ∃ offsets, storageLoadTableFromFp T.encode tableName includeOffsets =
      .ok ⟨T.columns, T.visible, offsets⟩ := by
  unfold storageLoadTableFromFp
  simp only [T.readHeader h.1]
  obtain ⟨loaded, hloaded, hrows⟩ := loadRows_csvRows tableName
    ((fgetsLines MAX_CSV_LINE_LENGTH T.encode).take 1).flatten.length T.arity T.columns_length_pos
    T.cellStrings h.2
  rw [hloaded, visible, ← hrows]
  exact ⟨_, rfl⟩

/-- The other files are not read. -/
theorem load_unreadable (h : ¬ T.Readable) (tableName : Bytes) (includeOffsets : Bool) :
    ∃ e, storageLoadTableFromFp T.encode tableName includeOffsets = .error e := by
  unfold storageLoadTableFromFp
  by_cases hheader : ∀ name ∈ T.header, Clean name
  · simp only [T.readHeader hheader]
    obtain ⟨e, he⟩ := loadRows_unreadable tableName
      ((fgetsLines MAX_CSV_LINE_LENGTH T.encode).take 1).flatten.length T.arity
      T.columns_length_pos T.cellStrings fun hrows => h ⟨hheader, hrows⟩
    simp only [he]
    exact ⟨e, rfl⟩
  · obtain ⟨e, he⟩ := T.readHeader_unreadable hheader
    simp only [he]
    exact ⟨e, rfl⟩

end CsvTable

end JungleDb
