import JungleDb.Storage.Codec
import JungleDb.Storage.Files
import JungleDb.Storage.Lines
import JungleDb.Storage.Offsets

/-!
# What a failing `storage_insert` leaves

The table file is opened with "a+" before anything is checked, and rows are written without a way
back. A call that fails leaves what can be seen of a table as it was if it does not come to `fopen`,
or if the file was there and nothing of the new row reaches it; a file that was missing is empty
afterwards and taken for a table without columns, and a part of a row is read as a row.
-/

namespace JungleDb

open CString Stdio

/-! ## What can be seen of a table -/

/-- `storage_select`: the rows and `col_count`; `none` is NULL. -/
def storageSelect (file : Option Bytes) (tableName : Bytes) : Option (List Row × Nat) :=
  match storageLoadTable file tableName with
  | .error _ => none
  | .ok table => some (table.rows, table.columns.length)

/-- `storage_get_columns`, on the file at the path of the table. -/
def storageGetColumns (file : Option Bytes) (tableName : Bytes) : Storage (List Identifier) :=
  match storageBuildPath tableName with
  | none => .error (bytes "Error: Table path is too long.\n")
  | some _ =>
    match file with
    | none => .error (bytes "Error: Table '" ++ tableName ++ bytes "' not found.\n")
    | some content =>
      (storageReadHeader (fgetsLines MAX_CSV_LINE_LENGTH content)).map Prod.fst

/-- What the three functions that read a table return. -/
structure Seen where
  table : Storage TableData
  rows : Option (List Row × Nat)
  columns : Storage (List Identifier)

def seen (tableName : Bytes) (file : Option Bytes) : Seen :=
  ⟨storageLoadTable file tableName, storageSelect file tableName, storageGetColumns file tableName⟩

/-! ## What reaches the file -/

/-- The part of the planned text that reaches the file when an output call fails, with `fclose`. -/
def InsertIo.handsOn (io : InsertIo) (plan : InsertPlan) : Bytes :=
  (Stream.putAll ⟨[], []⟩ plan.calls io.puts).2.1.close io.closed

/-- The call comes to open the file. -/
def InsertIo.Opens (io : InsertIo) (tableName : Bytes) : Prop :=
  io.dataDir = .ok () ∧ storageBuildPath tableName ≠ none ∧ io.opens = true

/-- It comes to write the plan. -/
structure InsertIo.Writes (io : InsertIo) (file : Option Bytes) (tableName : Bytes)
    (stmt : InsertStatement) (plan : InsertPlan) : Prop where
  opens : io.Opens tableName
  locks : io.locks = true
  plans : storagePlanInsert tableName (file.getD []) stmt = .ok plan
  seeks : plan.header = none → (io.seeks && io.tells) = true

theorem InsertIo.Writes.unique {io : InsertIo} {file : Option Bytes} {tableName : Bytes}
    {stmt : InsertStatement} {plan plan' : InsertPlan} (h : io.Writes file tableName stmt plan)
    (h' : io.Writes file tableName stmt plan') : plan = plan' :=
  Except.ok.inj (h.plans.symm.trans h'.plans)

/-- The call does not come to open the file, or the file is there and no byte of what the call comes
to write reaches it. -/
def InsertIo.LeavesNothing (io : InsertIo) (file : Option Bytes) (tableName : Bytes)
    (stmt : InsertStatement) : Prop :=
  ¬ io.Opens tableName ∨
    (file ≠ none ∧ ∀ plan, io.Writes file tableName stmt plan → io.handsOn plan = [])

theorem close_putAll (content : Bytes) (texts : List Bytes) (puts : List Stdio.Outcome)
    (closed : Stdio.Outcome) :
    (Stream.putAll ⟨content, []⟩ texts puts).2.1.close closed =
      content ++ (Stream.putAll ⟨[], []⟩ texts puts).2.1.close closed := by
  rw [Stream.putAll_file]
  generalize Stream.putAll ⟨[], []⟩ texts puts = run
  obtain ⟨ok, s, outcomes⟩ := run
  cases closed with
  | done taken => exact List.append_assoc _ _ _
  | failed taken kept => exact List.append_assoc _ _ _

/-- What reaches the file is the beginning of the planned text. -/
theorem InsertIo.handsOn_prefix (io : InsertIo) (plan : InsertPlan) :
    io.handsOn plan <+: plan.text := by
  have hclose := Stream.close_prefix (Stream.putAll ⟨[], []⟩ plan.calls io.puts).2.1 io.closed
  have hcontent := Stream.content_putAll_prefix ⟨[], []⟩ plan.calls io.puts
  rw [InsertPlan.flatten_calls] at hcontent
  exact hclose.trans hcontent

theorem InsertIo.not_opens {io : InsertIo} {tableName : Bytes} (h : ¬ io.Opens tableName)
    (file : Option Bytes) (stmt : InsertStatement) :
    (storageInsert io file tableName stmt).2 = file := by
  unfold storageInsert
  cases hdata : io.dataDir with
  | error e => rfl
  | ok u =>
    cases hpath : storageBuildPath tableName with
    | none => rfl
    | some path =>
      cases hopen : io.opens with
      | false => rfl
      | true =>
        have hsome : storageBuildPath tableName ≠ none := by
          rw [hpath]
          exact Option.some_ne_none path
        exact absurd ⟨hdata, hsome, hopen⟩ h

/-- From the lock on, an opened file is left with what the call has handed on. -/
theorem InsertIo.Opens.failed {io : InsertIo} {file : Option Bytes} {tableName : Bytes}
    {stmt : InsertStatement} (hopens : io.Opens tableName)
    (h : (storageInsert io file tableName stmt).1 ≠ .ok ()) :
    ∃ left, (storageInsert io file tableName stmt).2 = some (file.getD [] ++ left) ∧
      ((∃ plan, io.Writes file tableName stmt plan ∧ left = io.handsOn plan) ∨
        ((∀ plan, ¬ io.Writes file tableName stmt plan) ∧ left = [])) := by
  obtain ⟨path, hpath⟩ := Option.ne_none_iff_exists'.mp hopens.2.1
  have hnothing : (∀ plan, ¬ io.Writes file tableName stmt plan) →
      ∃ left, some (file.getD []) = some (file.getD [] ++ left) ∧
        ((∃ plan, io.Writes file tableName stmt plan ∧ left = io.handsOn plan) ∨
          ((∀ plan, ¬ io.Writes file tableName stmt plan) ∧ left = [])) := by
    intro hnot
    exact ⟨[], by rw [List.append_nil], .inr ⟨hnot, rfl⟩⟩
  unfold storageInsert at h ⊢
  rw [hopens.1, hpath, hopens.2.2] at h ⊢
  simp only [Bool.not_true, Bool.false_eq_true, if_false] at h ⊢
  cases hlock : io.locks with
  | false =>
    refine hnothing fun plan hwrites => ?_
    rw [hwrites.locks] at hlock
    cases hlock
  | true =>
    rw [hlock] at h
    simp only [Bool.not_true, Bool.false_eq_true, if_false] at h ⊢
    cases hplan : storagePlanInsert tableName (file.getD []) stmt with
    | error e =>
      refine hnothing fun plan hwrites => ?_
      rw [hwrites.plans] at hplan
      cases hplan
    | ok plan =>
      rw [hplan] at h
      simp only at h ⊢
      split
      · rename_i hseeks
        refine hnothing fun plan' hwrites => ?_
        rw [hwrites.plans] at hplan
        cases hplan
        rw [hwrites.seeks hseeks.1] at hseeks
        cases hseeks.2
      · rename_i hseeks
        rw [if_neg hseeks] at h
        have hwrites : io.Writes file tableName stmt plan := by
          refine ⟨hopens, hlock, hplan, fun hheader => ?_⟩
          by_contra hnot
          rw [Bool.not_eq_true] at hnot
          refine hseeks ⟨hheader, ?_⟩
          rw [hnot]
          rfl
        have hclose := close_putAll (file.getD []) plan.calls io.puts io.closed
        generalize Stream.putAll ⟨file.getD [], []⟩ plan.calls io.puts = run at h hclose ⊢
        obtain ⟨ok, fp, outcomes⟩ := run
        cases ok with
        | true => exact absurd rfl h
        | false => exact ⟨_, congrArg some hclose, .inl ⟨plan, hwrites, rfl⟩⟩

/-- A call that fails leaves the file if it does not come to open it, and otherwise the file with what
it handed on. -/
theorem storageInsert_failed {io : InsertIo} {file : Option Bytes} {tableName : Bytes}
    {stmt : InsertStatement} (h : (storageInsert io file tableName stmt).1 ≠ .ok ()) :
    (¬ io.Opens tableName ∧ (storageInsert io file tableName stmt).2 = file) ∨
      (io.Opens tableName ∧ ∃ left,
        (storageInsert io file tableName stmt).2 = some (file.getD [] ++ left) ∧
        ((∃ plan, io.Writes file tableName stmt plan ∧ left = io.handsOn plan) ∨
          ((∀ plan, ¬ io.Writes file tableName stmt plan) ∧ left = []))) := by
  by_cases hopens : io.Opens tableName
  · exact .inr ⟨hopens, hopens.failed h⟩
  · exact .inl ⟨hopens, InsertIo.not_opens hopens file stmt⟩

/-- A call that fails and leaves nothing leaves the file as it was. -/
theorem storageInsert_leavesNothing {io : InsertIo} {file : Option Bytes} {tableName : Bytes}
    {stmt : InsertStatement} (h : (storageInsert io file tableName stmt).1 ≠ .ok ())
    (hnothing : io.LeavesNothing file tableName stmt) :
    (storageInsert io file tableName stmt).2 = file := by
  rcases storageInsert_failed h with ⟨-, hfile⟩ | ⟨hopens, left, hfile, hleft⟩
  · exact hfile
  · obtain ⟨hthere, hhands⟩ := hnothing.resolve_left fun hnot => hnot hopens
    obtain ⟨content, rfl⟩ := Option.ne_none_iff_exists'.mp hthere
    have hnil : left = [] := by
      rcases hleft with ⟨plan, hwrites, hleft⟩ | ⟨-, hleft⟩
      · rw [hleft, hhands plan hwrites]
      · exact hleft
    rw [hfile, hnil, List.append_nil]
    rfl

/-! ## What the readers tell apart -/

theorem csvFields_error {inQuotes : Bool} {field text e : Bytes}
    (h : csvFields inQuotes field text = .error e) : e = malformedLine := by
  fun_induction csvFields inQuotes field text with
  | case1 | case4 | case8 => exact (Except.error.inj h).symm
  | case2 | case12 => cases h
  | case3 _ ih | case5 _ _ _ _ ih | case6 _ _ _ _ _ ih | case7 _ _ _ _ ih | case9 _ _ _ _ _ _ _ ih
  | case10 _ _ ih | case13 _ _ _ _ _ _ ih => exact ih h
  | case11 field text hc ih => exact ih (map_eq_error h)

theorem storageCopyColumns_error {names : List Bytes} {e : Bytes}
    (h : storageCopyColumns names = .error e) : e = bytes "Error: Column name is too long.\n" := by
  induction names with
  | nil => cases h
  | cons name names ih =>
    rw [storageCopyColumns] at h
    split at h
    · exact (Except.error.inj h).symm
    · exact ih (map_eq_error h)

/-- No error of a header is that of a table that is missing. -/
theorem storageReadHeader_error {lines : List Bytes} {e : Bytes}
    (h : storageReadHeader lines = .error e) (rest : Bytes) : e ≠ bytes "Error: Table '" ++ rest := by
  have hdiffer : ∀ text : Bytes, text.take 9 ≠ bytes "Error: Ta" →
      text ≠ bytes "Error: Table '" ++ rest := by
    rintro text htext rfl
    exact htext rfl
  cases lines with
  | nil => cases h
  | cons chunk lines =>
    rw [storageReadHeader] at h
    split at h
    · cases h
      exact hdiffer _ (by decide)
    · split at h
      · rename_i e' hparse
        cases h
        rw [csvFields_error hparse]
        exact hdiffer _ (by decide)
      · split at h
        · cases h
          exact hdiffer _ (by decide)
        · rw [storageCopyColumns_error (map_eq_error h)]
          exact hdiffer _ (by decide)

theorem storageCopyColumns_length {names : List Bytes} {columns : List Identifier}
    (h : storageCopyColumns names = .ok columns) : columns.length = names.length := by
  induction names generalizing columns with
  | nil =>
    cases h
    rfl
  | cons name names ih =>
    rw [storageCopyColumns] at h
    split at h
    · cases h
    · obtain ⟨more, hmore, rfl⟩ := map_eq_ok h
      rw [List.length_cons, List.length_cons, ih hmore]

/-- A line that is read as a header has a column. -/
theorem storageReadHeader_ne_nil {chunk : Bytes} {lines rest : List Bytes}
    {columns : List Identifier} (h : storageReadHeader (chunk :: lines) = .ok (columns, rest)) :
    columns ≠ [] := by
  rw [storageReadHeader] at h
  split at h
  · cases h
  · split at h
    · cases h
    · rename_i parsed hparse
      split at h
      · cases h
      · obtain ⟨copied, hcopied, hread⟩ := map_eq_ok h
        obtain ⟨rfl, -⟩ := Prod.mk.inj hread
        have hlength := storageCopyColumns_length hcopied
        have hfields := List.length_pos_of_ne_nil (storageParseCsvLine_clean hparse).1
        exact List.ne_nil_of_length_pos (hlength ▸ hfields)

theorem storageReadHeader_cons (chunk : Bytes) (lines : List Bytes) :
    storageReadHeader (chunk :: lines) =
      (storageReadHeader [chunk]).map fun read => (read.1, lines) := by
  rw [storageReadHeader, storageReadHeader]
  split
  · rfl
  · split
    · rfl
    · split
      · rfl
      · rename_i parsed _ _
        cases storageCopyColumns parsed <;> rfl

/-- A missing table is told from one that is there. -/
theorem seen_none_ne {tableName : Bytes} (hpath : storageBuildPath tableName ≠ none)
    (content : Bytes) : seen tableName (some content) ≠ seen tableName none := by
  obtain ⟨path, hpath⟩ := Option.ne_none_iff_exists'.mp hpath
  intro h
  have hcolumns := congrArg Seen.columns h
  simp only [seen, storageGetColumns, hpath] at hcolumns
  rw [List.append_assoc] at hcolumns
  exact storageReadHeader_error (map_eq_error hcolumns) _ rfl

/-- An empty table is told from one with a text. -/
theorem seen_nil_ne {tableName : Bytes} (hpath : storageBuildPath tableName ≠ none)
    {content : Bytes} (hcontent : content ≠ []) :
    seen tableName (some content) ≠ seen tableName (some []) := by
  obtain ⟨path, hpath⟩ := Option.ne_none_iff_exists'.mp hpath
  obtain ⟨c, content, rfl⟩ := List.exists_cons_of_ne_nil hcontent
  intro h
  have hcolumns := congrArg Seen.columns h
  simp only [seen, storageGetColumns, hpath] at hcolumns
  obtain ⟨line, lines, hlines⟩ := fgetsLines_cons MAX_CSV_LINE_LENGTH c content
  obtain ⟨⟨columns, rest⟩, hread, hnil⟩ := map_eq_ok hcolumns
  rw [hlines] at hread
  exact storageReadHeader_ne_nil hread hnil

/-! ## A part of a row is a row -/

theorem loadRows_append (tableName : Bytes) (colCount offset : Nat) (lines more : List Bytes) :
    loadRows tableName colCount offset (lines ++ more) =
      match loadRows tableName colCount offset lines with
      | .error e => .error e
      | .ok rows =>
        (loadRows tableName colCount (offset + lines.flatten.length) more).map (rows ++ ·) := by
  induction lines generalizing offset with
  | nil =>
    rw [List.nil_append, List.flatten_nil, List.length_nil, Nat.add_zero]
    cases loadRows tableName colCount offset more <;> rfl
  | cons chunk lines ih =>
    rw [List.cons_append, loadRows, loadRows, List.flatten_cons, List.length_append, ← Nat.add_assoc]
    cases storageReadRow tableName colCount chunk with
    | error e => rfl
    | ok read =>
      cases read with
      | none => exact ih _
      | some row =>
        simp only [ih]
        cases loadRows tableName colCount (offset + chunk.length) lines with
        | error e => rfl
        | ok rows =>
          cases loadRows tableName colCount (offset + chunk.length + lines.flatten.length) more <;> rfl

/-- For a table with an `id` a row is accepted only when every line has been read. -/
theorem storageOrderRow_reads {tableName : Bytes} {columns : List Identifier}
    {stmt : InsertStatement} {lines : List Bytes} {row : Row}
    (hid : ∃ column ∈ columns, IsId column)
    (h : storageOrderRow tableName columns stmt lines = .ok row) :
    LinesRead tableName columns.length lines := by
  obtain ⟨i, hi⟩ := Option.isSome_iff_exists.mp (storageFindColumnIndex_isSome.mpr hid)
  unfold storageOrderRow at h
  split at h
  · cases h
  split at h
  · cases h
  split at h
  · obtain ⟨text, htext, -⟩ := map_eq_ok h
    unfold storageGetNextAutoId at htext
    simp only [hi] at htext
    obtain ⟨nextId, hnext, -⟩ := map_eq_ok htext
    exact (nextAutoId_ok_iff.mp hnext).1
  · obtain ⟨u, hvalid, -⟩ := map_eq_ok h
    unfold storageValidatePrimaryKey at hvalid
    simp only [hi] at hvalid
    split at hvalid
    · cases hvalid
    · exact (findKey_ok_iff.mp hvalid).1

/-- A line that begins with another byte than CR or LF is not passed over. -/
theorem storageReadRow_ne_none {tableName chunk : Bytes} {colCount : Nat} {c : UInt8}
    (hc : ¬ IsLineEnd c) : storageReadRow tableName colCount (c :: chunk) ≠ .ok none := by
  intro h
  unfold storageReadRow at h
  split at h
  · cases h
  · split at h
    · rename_i hblank
      obtain ⟨d, hd, hend⟩ := (Option.any_eq_true _ _).mp hblank
      by_cases hzero : c = 0
      · have hnil : cstring (c :: chunk) = [] := List.takeWhile_cons_of_neg (by simpa using hzero)
        rw [hnil] at hd
        cases hd
      · have hcons : cstring (c :: chunk) = c :: cstring chunk :=
          List.takeWhile_cons_of_pos (by simpa using hzero)
        rw [hcons] at hd
        cases hd
        exact hc (of_decide_eq_true hend)
    · split at h
      · cases h
      · split at h <;> cases h

/-- The text of a row begins with CR or LF only if the row is one empty cell. -/
theorem csvRow_head {row : Row} (hne : row ≠ []) (hblank : row ≠ [[]]) :
    ∃ c text, csvRow row = c :: text ∧ ¬ IsLineEnd c := by
  obtain ⟨cell, cells, rfl⟩ := List.exists_cons_of_ne_nil hne
  have hrest : ∃ rest, csvRow (cell :: cells) = csvValue cell ++ rest ∧
      (cells ≠ [] → ∃ more, rest = separator :: more) := by
    rw [csvRow_eq]
    cases cells with
    | nil => exact ⟨[newline], rfl, fun h => absurd rfl h⟩
    | cons next cells =>
      rw [csvLine_cons, List.append_assoc]
      exact ⟨_, rfl, fun _ => ⟨_, rfl⟩⟩
  obtain ⟨rest, hrow, hcomma⟩ := hrest
  rw [hrow, csvValue_eq]
  split
  · exact ⟨quote, _, rfl, by decide⟩
  · rename_i hplain
    cases cell with
    | nil =>
      obtain ⟨more, rfl⟩ := hcomma fun hnil => hblank (by rw [hnil])
      exact ⟨separator, more, rfl, by decide⟩
    | cons c cell =>
      exact ⟨c, cell ++ rest, rfl, (not_needsQuotes hplain c List.mem_cons_self).2.2⟩

/-- A part of a row that is left behind the newline of a table with an `id` is seen. -/
theorem seen_append_ne {tableName content part : Bytes} {row : Row} {columns : List Identifier}
    {lines : List Bytes} (hpath : storageBuildPath tableName ≠ none)
    (hcontent : content.getLast? = some newline)
    (hheader : storageReadHeader (fgetsLines MAX_CSV_LINE_LENGTH content) = .ok (columns, lines))
    (hread : LinesRead tableName columns.length lines) (hne : row ≠ []) (hblank : row ≠ [[]])
    (hpart : part <+: csvRow row) (hleft : part ≠ []) :
    seen tableName (some (content ++ part)) ≠ seen tableName (some content) := by
  obtain ⟨path, hpath⟩ := Option.ne_none_iff_exists'.mp hpath
  intro h
  have htable := congrArg Seen.table h
  simp only [seen, storageLoadTable, hpath, storageLoadTableFromFp] at htable
  rw [fgetsLines_append _ hcontent] at htable
  -- the part begins a line that is not blank
  obtain ⟨c, text, hrow, hc⟩ := csvRow_head hne hblank
  obtain ⟨d, part, rfl⟩ := List.exists_cons_of_ne_nil hleft
  rw [hrow, List.cons_prefix_cons] at hpart
  obtain ⟨rfl, -⟩ := hpart
  obtain ⟨line, more, hmore⟩ := fgetsLines_cons MAX_CSV_LINE_LENGTH d part
  have hlonger : ∀ offset, ∀ rows,
      loadRows tableName columns.length offset ((d :: line) :: more) = .ok rows → rows ≠ [] := by
    intro offset rows hrows
    rw [loadRows] at hrows
    split at hrows
    · cases hrows
    · rename_i hnone
      exact absurd hnone (storageReadRow_ne_none hc)
    · obtain ⟨behind, -, rfl⟩ := map_eq_ok hrows
      exact List.cons_ne_nil _ _
  cases hlines : fgetsLines MAX_CSV_LINE_LENGTH content with
  | nil =>
    rw [fgetsLines_eq (by decide)] at hlines
    cases content with
    | nil => cases hcontent
    | cons c content => cases hlines
  | cons header lines' =>
    rw [hlines] at hheader htable
    obtain rfl : lines = lines' := storageReadHeader_lines hheader
    have hlonger' : storageReadHeader (header :: (lines ++ (d :: line) :: more)) =
        .ok (columns, lines ++ (d :: line) :: more) := by
      rw [storageReadHeader_cons] at hheader ⊢
      obtain ⟨read, hone, hcolumns⟩ := map_eq_ok hheader
      rw [hone]
      exact congrArg (fun columns => Except.ok (columns, _)) (Prod.mk.inj hcolumns).1
    obtain ⟨rows, hrows⟩ := hread.load header.length
    have htake : ∀ lines : List Bytes, ((header :: lines).take 1).flatten.length = header.length := by
      intro lines
      rw [List.take_succ_cons, List.take_zero, List.flatten_singleton]
    rw [hmore, List.cons_append, hlonger', hheader, htake, htake] at htable
    simp only [loadRows_append, hrows] at htable
    obtain ⟨loaded, hloaded, hsame⟩ := map_eq_ok htable
    obtain ⟨behind, hbehind, rfl⟩ := map_eq_ok hloaded
    have hlength := congrArg (fun table => table.rows.length) hsame
    simp only [List.length_map, List.length_append] at hlength
    refine hlonger _ _ hbehind (List.eq_nil_of_length_eq_zero ?_)
    omega

/-! ## The tables that calls leave -/

/-- The file of a table is absent, empty, or ends with a newline and has a header with an `id`, or the
header that a delete makes of an empty file. -/
theorem TableFile.header {tableName : Bytes} {file : Option Bytes} (h : TableFile tableName file) :
    file.getD [] = [] ∨ ∃ T : CsvTable, file = some T.encode ∧
      ((∃ column ∈ T.columns, IsId column) ∨ T.columns = CsvTable.nameless.columns) := by
  induction h with
  | absent => exact .inl rfl
  | @inserted file stmt hfile hstrings ih =>
    by_cases haccepted : (storageInsert .fine file tableName stmt).1 = .ok ()
    · obtain ⟨plan, hplan, hcall⟩ := storageInsert_accepted haccepted
      rw [hcall]
      right
      rcases ih with hempty | ⟨T, rfl, hcolumns⟩
      · rw [hempty] at hplan ⊢
        obtain ⟨hfits, htext, -, -⟩ := storagePlanInsert_new hplan hstrings
        exact ⟨_, congrArg some htext, .inl stmt.exists_isId_newColumns⟩
      · obtain ⟨harity, hcells, htext⟩ := CsvTable.encode_planned hplan hstrings
        exact ⟨_, congrArg some htext, hcolumns⟩
    · rcases storageInsert_rejected haccepted with hsame | hsame
      · rw [hsame]
        exact ih
      · rw [hsame]
        rcases ih with hempty | ⟨T, rfl, hcolumns⟩
        · exact .inl hempty
        · exact .inr ⟨T, rfl, hcolumns⟩
  | @deleted file stmt hfile ih =>
    cases hload : storageLoadTable file tableName with
    | error e =>
      have hunloadable : ∀ table, storageLoadTable file tableName ≠ .ok table := by
        intro table hok
        rw [hload] at hok
        cases hok
      rw [storageDelete_unloadable hunloadable]
      exact ih
    | ok table =>
      obtain ⟨path, content, -, rfl, hread⟩ := storageLoadTable_eq_ok.mp hload
      rcases storageDelete_fine stmt hload with hrun | ⟨-, e, count, hrun⟩
      · rw [hrun]
        right
        rcases ih with hempty | ⟨T, hT, hcolumns⟩
        · rw [Option.getD_some] at hempty
          rw [hempty] at hread
          rw [storageLoadTableFromFp_nil hread]
          exact ⟨.nameless, rfl, .inr rfl⟩
        · cases hT
          obtain ⟨-, hsame, hrows⟩ := CsvTable.loaded hread
          rw [hsame, hrows]
          exact ⟨T.withRows _ (T.kept_subset stmt), rfl, hcolumns⟩
      · rw [hrun]
        exact ih

theorem getLast?_csvRow (row : Row) (front : Bytes) : (front ++ csvRow row).getLast? = some newline := by
  rw [csvRow_eq, ← List.append_assoc, List.getLast?_concat]

theorem CsvTable.getLast?_encode (T : CsvTable) : T.encode.getLast? = some newline := by
  unfold CsvTable.encode
  induction T.rows using List.reverseRecOn with
  | nil => exact (List.append_nil _).symm ▸ getLast?_csvRow T.header []
  | append_singleton rows row ih =>
    rw [List.map_append, List.flatten_append, ← List.append_assoc, List.map_singleton,
      List.flatten_singleton]
    exact getLast?_csvRow row _

theorem storageOrderRow_matches {tableName : Bytes} {columns : List Identifier}
    {stmt : InsertStatement} {lines : List Bytes} {row : Row}
    (h : storageOrderRow tableName columns stmt lines = .ok row) :
    matchColumns columns stmt 0 columns = .ok () := by
  unfold storageOrderRow at h
  split at h
  · cases h
  · split at h
    · cases h
    · rename_i hmatch
      exact hmatch

/-- A statement whose columns have names has no row for a column without one. -/
theorem storageOrderRow_nameless {tableName : Bytes} {stmt : InsertStatement} {lines : List Bytes}
    (hnames : ∀ name ∈ stmt.names, name.text ≠ []) (row : Row) :
    storageOrderRow tableName CsvTable.nameless.columns stmt lines ≠ .ok row := by
  intro h
  have hmatch := matchColumns_ok (storageOrderRow_matches h) (List.getElem?_cons_zero)
  rcases hmatch with ⟨hid, -⟩ | hsome
  · exact absurd hid (by decide)
  · obtain ⟨name, hname, hsame⟩ := storageFindColumnIndex_isSome.mp hsome
    refine hnames name hname (List.map_eq_nil_iff.mp hsame)

/-- What a call hands on for a row of a table that earlier calls left is seen, unless it is nothing. -/
theorem seen_handsOn_ne {io : InsertIo} {tableName content : Bytes} {stmt : InsertStatement}
    {plan : InsertPlan} (hfile : TableFile tableName (some content))
    (hnames : ∀ name ∈ stmt.names, name.text ≠ [])
    (hwrites : io.Writes (some content) tableName stmt plan) (hleft : io.handsOn plan ≠ []) :
    seen tableName (some (content ++ io.handsOn plan)) ≠ seen tableName (some content) := by
  have hpath := hwrites.opens.2.1
  have hplan := hwrites.plans
  rcases hfile.header with hempty | ⟨T, hT, hcolumns⟩
  · obtain rfl : content = [] := hempty
    exact seen_nil_ne hpath hleft
  · cases hT
    obtain ⟨hclean, htext, horder⟩ := storagePlanInsert_append hplan
    rcases hcolumns with hid | hnameless
    · obtain ⟨autoId, hrow, hkey⟩ := storageOrderRow_ok horder
      have hblank := (hkey hid).1.ne_blank
      have hne : plan.row ≠ [] := by
        rw [hrow]
        exact fun hnil => T.named (List.map_eq_nil_iff.mp hnil)
      have hpart := io.handsOn_prefix plan
      rw [htext] at hpart
      exact seen_append_ne hpath T.getLast?_encode (T.readHeader hclean)
        (storageOrderRow_reads hid horder) hne hblank hpart hleft
    · rw [hnameless] at horder
      exact absurd horder (storageOrderRow_nameless hnames plan.row)

/-! ## A call that fails -/

/-- A call that fails leaves a table as it was, a missing one missing and nothing behind what there
was, just when it does not come to `fopen` or the file was there and none of its bytes get to it. For
the tables that calls leave it is seen otherwise. -/
theorem storageInsert_failed_iff {io : InsertIo} {file : Option Bytes} {tableName : Bytes}
    {stmt : InsertStatement} (h : (storageInsert io file tableName stmt).1 ≠ .ok ()) :
    ((seen tableName (storageInsert io file tableName stmt).2 = seen tableName file ∧
        (file = none → (storageInsert io file tableName stmt).2 = none) ∧
        ∀ left, (storageInsert io file tableName stmt).2 = some (file.getD [] ++ left) → left = []) ↔
      io.LeavesNothing file tableName stmt) ∧
    (TableFile tableName file → (∀ name ∈ stmt.names, name.text ≠ []) →
      (seen tableName (storageInsert io file tableName stmt).2 = seen tableName file ↔
        io.LeavesNothing file tableName stmt)) := by
  have hsame := storageInsert_leavesNothing h
  constructor
  · constructor
    · rintro ⟨-, hmissing, hbehind⟩
      rcases storageInsert_failed h with ⟨hnot, -⟩ | ⟨hopens, left, hfile, hleft⟩
      · exact .inl hnot
      · refine .inr ⟨fun hnone => ?_, fun plan hwrites => ?_⟩
        · rw [hmissing hnone] at hfile
          cases hfile
        · have hnil := hbehind left hfile
          rcases hleft with ⟨plan', hwrites', hhands⟩ | ⟨hnot, -⟩
          · rw [hwrites.unique hwrites', ← hhands, hnil]
          · exact absurd hwrites (hnot plan)
    · intro hnothing
      refine ⟨congrArg _ (hsame hnothing), fun hnone => (hsame hnothing).trans hnone, ?_⟩
      intro left hfile
      rw [hsame hnothing] at hfile
      cases file with
      | none => cases hfile
      | some content =>
        have hlength := congrArg List.length (Option.some.inj hfile)
        rw [Option.getD_some, List.length_append] at hlength
        exact List.eq_nil_of_length_eq_zero (by omega)
  · intro htable hnames
    refine ⟨fun hseen => ?_, fun hnothing => congrArg _ (hsame hnothing)⟩
    rcases storageInsert_failed h with ⟨hnot, -⟩ | ⟨hopens, left, hfile, hleft⟩
    · exact .inl hnot
    · rw [hfile] at hseen
      cases file with
      | none => exact absurd hseen (seen_none_ne hopens.2.1 _)
      | some content =>
        refine .inr ⟨Option.some_ne_none content, fun plan hwrites => ?_⟩
        rcases hleft with ⟨plan', hwrites', rfl⟩ | ⟨hnot, -⟩
        · rw [hwrites.unique hwrites']
          by_contra hhands
          exact seen_handsOn_ne htable hnames hwrites' hhands hseen
        · exact absurd hwrites (hnot plan)

/-- An id that is there already. -/
theorem storageInsert_failed_iff_duplicate :
    seen (bytes "users") (storageInsert .fine (some usersFile) (bytes "users") (insertId "1")).2 =
      seen (bytes "users") (some usersFile) := by
  have hinsert : (storageInsert .fine none (bytes "users") (insertId "1")).2 = some usersFile := by
    decide +kernel
  have hstrings : (insertId "1").Strings := ⟨by decide, by decide⟩
  have hfile : TableFile (bytes "users") (some usersFile) := by
    rw [← hinsert]
    exact .inserted .absent hstrings
  have hfails : (storageInsert .fine (some usersFile) (bytes "users") (insertId "1")).1 ≠ .ok () := by
    decide +kernel
  refine ((storageInsert_failed_iff hfails).2 hfile (by decide)).mpr
    (.inr ⟨Option.some_ne_none _, ?_⟩)
  intro plan hwrites
  have hplan := hwrites.plans
  have herror : (storagePlanInsert (bytes "users") usersFile (insertId "1")).toOption = none := by
    decide +kernel
  rw [Option.getD_some] at hplan
  rw [hplan] at herror
  cases herror

/-- The first insert has an empty key: it fails, and the table that was missing is there. -/
theorem storageInsert_failed_creates :
    ¬ ∀ io file tableName stmt, TableFile tableName file →
      (storageInsert io file tableName stmt).1 ≠ .ok () →
      seen tableName (storageInsert io file tableName stmt).2 = seen tableName file := by
  intro hgeneral
  have hfails : (storageInsert .fine none (bytes "users") (insertId "")).1 ≠ .ok () := by
    decide +kernel
  have hfile : (storageInsert .fine none (bytes "users") (insertId "")).2 = some [] := by
    decide +kernel
  have hseen := hgeneral .fine none (bytes "users") (insertId "") .absent hfails
  rw [hfile] at hseen
  exact seen_none_ne (by decide +kernel) [] hseen

end JungleDb
