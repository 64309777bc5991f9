import JungleDb.Storage.Table

/-!
# Rows by their offsets

A load records where in the file each row begins, before it reads the row's line. A row that is read
there again is the row of the load: `fgets` delivers the same line, and the checks that
`storage_read_row_at_offset` leaves out have been made by the load.
-/

namespace JungleDb

open CString Stdio

/-- `storage_read_row_at_offset`, on the file at the path of the table. -/
def storageReadRowAtOffset (file : Option Bytes) (tableName : Bytes) (offset : Int)
    (expectedColCount : Int) : Storage Row :=
  match storageBuildPath tableName with
  | none => .error (bytes "Error: Table path is too long.\n")
  | some _ =>
    match file with
    | none => .error (bytes "Error: Table '" ++ tableName ++ bytes "' not found.\n")
    | some content =>
      -- `fseek` fails before the start of the file
      if offset < 0 then
        .error (bytes "Error: Failed to seek row in table '" ++ tableName ++ bytes "'.\n")
      else match fgets MAX_CSV_LINE_LENGTH (content.drop offset.toNat) with
        | none => .error (bytes "Error: Failed to read row in table '" ++ tableName ++ bytes "'.\n")
        | some (line, _) =>
          match storageParseCsvLine (cstring line) with
          | .error e => .error e
          | .ok parsed =>
            if 0 ≤ expectedColCount ∧ (parsed.length : Int) ≠ expectedColCount then
              .error (bytes "Error: Corrupted row in table '" ++ tableName ++ bytes "'.\n")
            else .ok parsed

/-- A line of the load that gives a row is parsed and has a cell for each column. -/
theorem storageReadRow_some {tableName chunk : Bytes} {colCount : Nat} {row : Row}
    (h : storageReadRow tableName colCount chunk = .ok (some row)) :
    storageParseCsvLine (cstring chunk) = .ok row ∧ row.length = colCount := by
  unfold storageReadRow at h
  split at h
  · cases h
  · split at h
    · cases h
    · split at h
      · cases h
      · rename_i parsed hparse
        split at h
        · cases h
        · rename_i hcount
          cases h
          exact ⟨hparse, not_not.mp hcount⟩

/-- What is read again at an offset where `fgets` delivers such a line. -/
theorem storageReadRowAtOffset_line {tableName path front line rest : Bytes} {row : Row}
    (hpath : storageBuildPath tableName = some path)
    (hline : fgets MAX_CSV_LINE_LENGTH (line ++ rest) = some (line, rest))
    (hparse : storageParseCsvLine (cstring line) = .ok row) :
    storageReadRowAtOffset (some (front ++ (line ++ rest))) tableName front.length row.length =
      .ok row := by
  have hseek : ¬ (front.length : Int) < 0 := by omega
  have hcount : ¬ (0 ≤ (row.length : Int) ∧ (row.length : Int) ≠ row.length) :=
    fun h => h.2 rfl
  simp only [storageReadRowAtOffset, hpath, if_neg hseek, Int.toNat_natCast, List.drop_left, hline,
    hparse, if_neg hcount]

theorem fgets_append {size : Nat} {input line rest : Bytes} (h : fgets size input = some (line, rest)) :
    input = line ++ rest := by
  unfold fgets at h
  split at h
  · cases h
  · rw [Option.some.injEq] at h
    have hinput := readLine_append (size - 1) input
    rw [h] at hinput
    exact hinput.symm

/-- The loop of the load, behind so many bytes of the file. -/
theorem loadRows_offsets {tableName path front rest : Bytes} {colCount : Nat}
    {rows : List (Nat × Row)} (hpath : storageBuildPath tableName = some path)
    (h : loadRows tableName colCount front.length (fgetsLines MAX_CSV_LINE_LENGTH rest) = .ok rows) :
    ∀ r ∈ rows, storageReadRowAtOffset (some (front ++ rest)) tableName r.1 colCount = .ok r.2 := by
  -- on the lines: each is what `fgets` delivers at its offset
  generalize hlines : fgetsLines MAX_CSV_LINE_LENGTH rest = lines at h
  induction lines generalizing front rest rows with
  | nil =>
    cases h
    nofun
  | cons chunk lines ih =>
    rw [fgetsLines_eq (by decide)] at hlines
    cases hfgets : fgets MAX_CSV_LINE_LENGTH rest with
    | none =>
      rw [hfgets] at hlines
      cases hlines
    | some call =>
      obtain ⟨line, more⟩ := call
      rw [hfgets] at hlines
      obtain ⟨rfl, hbehindLine⟩ := List.cons.inj hlines
      have hrest := fgets_append hfgets
      rw [loadRows] at h
      have hbehind : ∀ {rows : List (Nat × Row)},
          loadRows tableName colCount (front.length + line.length) lines = .ok rows →
          ∀ r ∈ rows, storageReadRowAtOffset (some (front ++ rest)) tableName r.1 colCount =
            .ok r.2 := by
        intro rows hrows
        rw [← List.length_append] at hrows
        have hread := ih hbehindLine hrows
        rw [List.append_assoc, ← hrest] at hread
        exact hread
      cases hrow : storageReadRow tableName colCount line with
      | error e =>
        rw [hrow] at h
        cases h
      | ok read =>
        rw [hrow] at h
        cases read with
        | none => exact hbehind h
        | some row =>
          obtain ⟨behind, hloaded, rfl⟩ := map_eq_ok h
          obtain ⟨hparse, hcount⟩ := storageReadRow_some hrow
          refine List.forall_mem_cons.mpr ⟨?_, hbehind hloaded⟩
          rw [hrest] at hfgets
          rw [hrest, ← hcount]
          exact storageReadRowAtOffset_line hpath hfgets hparse

theorem storageReadHeader_lines {lines rest : List Bytes} {columns : List Identifier}
    (h : storageReadHeader lines = .ok (columns, rest)) : rest = lines.tail := by
  cases lines with
  | nil =>
    cases h
    rfl
  | cons chunk lines =>
    rw [storageReadHeader] at h
    split at h
    · cases h
    · split at h
      · cases h
      · split at h
        · cases h
        · obtain ⟨_, -, hread⟩ := map_eq_ok h
          exact (Prod.mk.inj hread).2.symm

/-- Every row of a loaded table is read again at its offset. -/
theorem storageReadRowAtOffset_load {file : Option Bytes} {tableName : Bytes} {table : TableData}
    (h : storageLoadTable file tableName = .ok table) {i : Nat} (hi : i < table.rows.length) :
    ∃ offset, table.offsets[i]? = some offset ∧
      storageReadRowAtOffset file tableName offset table.columns.length = .ok table.rows[i] := by
  unfold storageLoadTable at h
  cases hpath : storageBuildPath tableName with
  | none =>
    rw [hpath] at h
    cases h
  | some path =>
    rw [hpath] at h
    cases file with
    | none => cases h
    | some content =>
      simp only [storageLoadTableFromFp] at h
      cases hheader : storageReadHeader (fgetsLines MAX_CSV_LINE_LENGTH content) with
      | error e =>
        rw [hheader] at h
        cases h
      | ok read =>
        obtain ⟨columns, lines⟩ := read
        rw [hheader] at h
        obtain ⟨rows, hrows, rfl⟩ := map_eq_ok h
        obtain rfl := storageReadHeader_lines hheader
        have hread : ∀ r ∈ rows,
            storageReadRowAtOffset (some content) tableName r.1 columns.length = .ok r.2 := by
          cases hfgets : fgets MAX_CSV_LINE_LENGTH content with
          | none =>
            rw [fgetsLines_eq (by decide), hfgets] at hrows
            cases hrows
            nofun
          | some call =>
            obtain ⟨line, more⟩ := call
            rw [fgetsLines_eq (by decide), hfgets] at hrows
            rw [fgets_append hfgets]
            refine loadRows_offsets hpath ?_
            rw [← List.flatten_singleton (l := line)]
            exact hrows
        rw [List.length_map] at hi
        refine ⟨rows[i].1, ?_, ?_⟩
        · show (rows.map Prod.fst)[i]? = some rows[i].1
          rw [List.getElem?_map, List.getElem?_eq_getElem hi]
          rfl
        · show _ = Except.ok (rows.map Prod.snd)[i]
          rw [List.getElem_map]
          exact hread rows[i] (List.getElem_mem hi)

/-! ## The offsets of a load -/

/-- Every offset is behind those before it. -/
theorem loadRows_pairwise {tableName : Bytes} {colCount offset : Nat} {lines : List Bytes}
    {rows : List (Nat × Row)} (hlines : ∀ line ∈ lines, line ≠ [])
    (h : loadRows tableName colCount offset lines = .ok rows) :
    (∀ r ∈ rows, offset ≤ r.1) ∧ rows.Pairwise fun r r' => r.1 < r'.1 := by
  induction lines generalizing offset rows with
  | nil =>
    cases h
    exact ⟨nofun, .nil⟩
  | cons chunk lines ih =>
    obtain ⟨hchunk, hlines⟩ := List.forall_mem_cons.mp hlines
    have hlength := List.length_pos_of_ne_nil hchunk
    rw [loadRows] at h
    split at h
    · cases h
    · obtain ⟨hfrom, hpairs⟩ := ih hlines h
      exact ⟨fun r hr => Nat.le_trans (Nat.le_add_right _ _) (hfrom r hr), hpairs⟩
    · rename_i row _
      obtain ⟨behind, hbehind, rfl⟩ := map_eq_ok h
      obtain ⟨hfrom, hpairs⟩ := ih hlines hbehind
      refine ⟨List.forall_mem_cons.mpr ⟨Nat.le_refl _, ?_⟩, List.pairwise_cons.mpr ⟨?_, hpairs⟩⟩
      · exact fun r hr => Nat.le_trans (Nat.le_add_right _ _) (hfrom r hr)
      · intro r hr
        have hle := hfrom r hr
        show offset < r.1
        omega

/-- A loaded table has an offset for each row, and they are all different. -/
theorem storageLoadTable_offsets {file : Option Bytes} {tableName : Bytes} {table : TableData}
    (h : storageLoadTable file tableName = .ok table) :
    table.offsets.length = table.rows.length ∧ table.offsets.Nodup := by
  unfold storageLoadTable at h
  split at h
  · cases h
  · split at h
    · cases h
    · rename_i content
      simp only [storageLoadTableFromFp] at h
      split at h
      · cases h
      · rename_i columns lines hheader
        obtain ⟨rows, hrows, rfl⟩ := map_eq_ok h
        obtain rfl := storageReadHeader_lines hheader
        have hlines : ∀ line ∈ (fgetsLines MAX_CSV_LINE_LENGTH content).tail, line ≠ [] :=
          fun line hline => fgetsLines_ne_nil _ _ line (List.mem_of_mem_tail hline)
        obtain ⟨-, hpairs⟩ := loadRows_pairwise hlines hrows
        refine ⟨?_, ?_⟩
        · show (rows.map Prod.fst).length = (rows.map Prod.snd).length
          rw [List.length_map, List.length_map]
        · show (rows.map Prod.fst).Nodup
          rw [List.Nodup, List.pairwise_map]
          exact hpairs.imp Nat.ne_of_lt

/-- A file with a blank line, CRLF, a quoted cell, and no newline at its end. -/
def wordsFile : Bytes := bytes "id,word\r\n1,\"a,b\"\r\n\r\n2,cd"

theorem length_id : (bytes "id").length < MAX_IDENTIFIER_LEN := by decide

def wordsTable : TableData :=
  ⟨[⟨bytes "id", length_id⟩, ⟨bytes "word", by decide⟩],
    [[bytes "1", bytes "a,b"], [bytes "2", bytes "cd"]], [9, 20]⟩

theorem storageReadRowAtOffset_load_last :
    ∃ offset : Nat, wordsTable.offsets[1]? = some offset ∧
      storageReadRowAtOffset (some wordsFile) (bytes "words") offset 2 =
        .ok [bytes "2", bytes "cd"] := by
  have hload : storageLoadTable (some wordsFile) (bytes "words") = .ok wordsTable := by
    decide +kernel
  exact storageReadRowAtOffset_load hload (Nat.lt_succ_self 1)

end JungleDb
